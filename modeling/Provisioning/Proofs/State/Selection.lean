import Provisioning.Proofs.Schema.Parts
import Provisioning.Proofs.Schema.Surveying
import Provisioning.Proofs.State.Extraction

/-!
# Which outputs a document has

A state document is decoded in full and then one section of it counts. Both halves are said about
the value that the document surveys, so without regard to how it is decoded: which parts have to be
sound for the document to be accepted (`StateFile.Malformed`), whatever its version is, and which
members are its outputs (`StateFile.writtenOutputs`). An output is found by the last member of its
name (`StateFile.writtenValue?`), and nothing else of an accepted document matters to those who ask
(`StateDocument.agree_of_output`).
-/

set_option autoImplicit false

namespace Provisioning

open Json

/-! ## Contents of a container -/

namespace Json

/-- The members of an object; any other value has none. -/
def members : Json → List (String × Json)
  | object members => members
  | _ => []

/-- The items of an array; any other value has none. -/
def items : Json → List Json
  | array items => items
  | _ => []

end Json

/-! ## What a state says, as it is written -/

namespace StateFile

/-- The value of an output, as a tree. -/
def Output.written? (output : Json) : Option Json :=
  (output.parts "value" 0).head?.map Json.tree

/-- The members that are the outputs of a record with outputs at some place. -/
def outputsAt (index : Nat) (value : Json) : List (String × Json) :=
  (value.parts "outputs" index).flatMap Json.members

/-- The modules of a state, in order. -/
def writtenModules (value : Json) : List Json := (value.parts "modules" 2).flatMap Json.items

/-- The members that count as outputs: format 3 has them in the first module, if there is one, and
format 4 at the top. -/
def writtenOutputs (version : UInt64) (value : Json) : List (String × Json) :=
  if version = 3 then (writtenModules value).head?.toList.flatMap (outputsAt 0)
  else outputsAt 1 value

/-- The value that a state has under a name, which is the last one if there are several. -/
def writtenValue? (version : UInt64) (value : Json) (name : String) : Option Json :=
  (last? name (writtenOutputs version value)).bind Output.written?

/-- A section of a state is not what it should be, whether the version of the state uses it or
not. -/
inductive Malformed (value : Json) : Prop where
  | outputs {part : Json} (h : part ∈ value.parts "outputs" 1)
      (hbad : ∀ outputs, (Shape.table Output.shape).ofJson part ≠ .ok outputs)
  | modules {part : Json} (h : part ∈ value.parts "modules" 2)
      (hbad : ∀ modules, (Shape.list Module.shape).ofJson part ≠ .ok modules)
  | module {item : Json} (h : item ∈ writtenModules value)
      (hbad : ∀ root, Module.shape.ofJson item ≠ .ok root)

/-! ## What a decoded state has -/

theorem Output.written?_of_ofJson {value : Json} {output : Output}
    (h : Output.shape.ofJson value = .ok output) : Output.written? value = some output.value := by
  obtain ⟨hvalue, -⟩ := Shape.reads_of_ofJson_record (by simp [Fields.names]) h
  obtain ⟨part, hpart, hvalue⟩ := Presence.exists_of_reads_required hvalue
  rw [Shape.ofJson] at hvalue
  rw [Output.written?, hpart]
  exact congrArg some (Except.ok.inj hvalue)

/-- Outputs that are read from a place are those that are written there. -/
theorem get?_of_reads {index : Nat} {value : Json} {outputs : Table Output}
    (h : (Presence.orElse .empty).Reads (.table Output.shape) outputs (value.parts "outputs" index))
    (name : String) :
    (outputs.get? name).map Output.value =
      (last? name (outputsAt index value)).bind Output.written? := by
  rcases h.cases with ⟨hnone, habsent⟩ | ⟨part, hpart, h⟩
  · cases habsent
    rw [outputsAt, hnone]
    rfl
  · rw [outputsAt, hpart, List.flatMap_singleton]
    cases part with
    | object members =>
      obtain ⟨hall, hget⟩ := Shape.ofJson_table_eq_ok_iff.mp h
      rw [hget, Json.members]
      cases hlast : last? name members with
      | none => rfl
      | some output =>
        obtain ⟨a, ha⟩ := hall _ (mem_of_last? hlast)
        simp [ha, Output.written?_of_ofJson ha]
    | array _ => cases h
    | scalar _ => cases h

theorem get?_of_ofJson_module {value : Json} {root : Module}
    (h : Module.shape.ofJson value = .ok root) (name : String) :
    (root.outputs.get? name).map Output.value =
      (last? name (outputsAt 0 value)).bind Output.written? := by
  obtain ⟨houtputs, -⟩ := Shape.reads_of_ofJson_record (by simp [Fields.names]) h
  exact get?_of_reads houtputs name

/-- Modules that are read are those that are written, one by one. -/
theorem map_ofJson_of_reads {value : Json} {modules : List Module}
    (h : (Presence.orElse []).Reads (.list Module.shape) modules (value.parts "modules" 2)) :
    (writtenModules value).map Module.shape.ofJson = modules.map .ok := by
  rcases h.cases with ⟨hnone, habsent⟩ | ⟨part, hpart, h⟩
  · cases habsent
    rw [writtenModules, hnone]
    rfl
  · rw [writtenModules, hpart, List.flatMap_singleton]
    cases part with
    | array items =>
      rw [Shape.ofJson] at h
      exact mapM_eq_ok_iff.mp h
    | object _ => cases h
    | scalar _ => cases h

theorem reads_of_ofJson {value : Json} {file : StateFile} (h : shape.ofJson value = .ok file) :
    Presence.required.Reads (.leaf .word) file.version (value.parts "version" 0) ∧
      (Presence.orElse .empty).Reads (.table Output.shape) file.outputs
        (value.parts "outputs" 1) ∧
      (Presence.orElse []).Reads (.list Module.shape) file.modules (value.parts "modules" 2) := by
  obtain ⟨hversion, houtputs, hmodules, -⟩ :=
    Shape.reads_of_ofJson_record (by simp [Fields.names]) h
  exact ⟨hversion, houtputs, hmodules⟩

/-- The selected outputs are those that are written where the version says. -/
theorem get?_of_selected {value : Json} {file : StateFile} {outputs : Table Output}
    (h : shape.ofJson value = .ok file) (hselected : file.selected = .ok outputs) (name : String) :
    (outputs.get? name).map Output.value = writtenValue? file.version value name := by
  obtain ⟨-, houtputs, hmodules⟩ := reads_of_ofJson h
  have hmodules := map_ofJson_of_reads hmodules
  rw [selected] at hselected
  rw [writtenValue?, writtenOutputs]
  split at hselected
  · next h₃ =>
    rw [if_pos h₃]
    cases hselected
    -- The first module that is read is the first one that is written, or there is none.
    cases hroot : file.modules with
    | nil =>
      rw [hroot, List.map_nil, List.map_eq_nil_iff] at hmodules
      rw [hmodules]
      rfl
    | cons root rest =>
      rw [hroot, List.map_cons, List.map_eq_cons_iff] at hmodules
      obtain ⟨item, items, hitems, hitem, -⟩ := hmodules
      rw [hitems]
      simpa using get?_of_ofJson_module hitem name
  · next h₃ =>
    rw [if_neg h₃]
    split at hselected
    · cases hselected
      exact get?_of_reads houtputs name
    · cases hselected

/-- No section of a decoded state is malformed, used or not. -/
theorem not_malformed_of_ofJson {value : Json} {file : StateFile}
    (h : shape.ofJson value = .ok file) : ¬Malformed value := by
  obtain ⟨-, houtputs, hmodules⟩ := reads_of_ofJson h
  intro hbad
  cases hbad with
  | outputs hpart hbad => exact hbad _ (houtputs.of_mem hpart).2
  | modules hpart hbad => exact hbad _ (hmodules.of_mem hpart).2
  | module hitem hbad =>
    have hok := List.mem_map_of_mem (f := Module.shape.ofJson) hitem
    rw [map_ofJson_of_reads hmodules] at hok
    obtain ⟨root, -, hroot⟩ := List.mem_map.mp hok
    exact hbad root hroot.symm

end StateFile

/-! ## Acceptance -/

namespace StateDocument

variable {document : Bytes} {file : StateFile} {state : StateDocument}

theorem ofDocument_of_not_decoded (h : ∀ file, StateFile.shape.decode document ≠ .ok file) :
    ∃ detail, ofDocument document = .error (.deserialization detail) := by
  obtain ⟨detail, hdetail⟩ := Shape.exists_decode_error h
  exact ⟨detail, by rw [ofDocument, hdetail]; rfl⟩

theorem ofDocument_of_not_known (hfile : StateFile.shape.decode document = .ok file)
    (h : ¬StateFile.Known file.version) :
    ofDocument document = .error (.unsupportedVersion file.version) := by
  rw [ofDocument, hfile, Except.ok_bind, StateFile.selected_of_not_known h]
  rfl

theorem ofDocument_of_known (hfile : StateFile.shape.decode document = .ok file)
    (h : StateFile.Known file.version) :
    ∃ state, ofDocument document = .ok state := by
  obtain ⟨outputs, houtputs⟩ := StateFile.selected_of_known h
  exact ⟨_, ofDocument_eq_ok_iff.mpr ⟨file, outputs, hfile, houtputs, rfl⟩⟩

/-- A document is accepted, or its version is not known, or it is not a state at all. -/
theorem ofDocument_cases (document : Bytes) :
    (∃ file state, StateFile.shape.decode document = .ok file ∧ StateFile.Known file.version ∧
      ofDocument document = .ok state) ∨
    (∃ file, StateFile.shape.decode document = .ok file ∧ ¬StateFile.Known file.version ∧
      ofDocument document = .error (.unsupportedVersion file.version)) ∨
    (∃ detail, (∀ file, StateFile.shape.decode document ≠ .ok file) ∧
      ofDocument document = .error (.deserialization detail)) := by
  by_cases hdecoded : ∃ file, StateFile.shape.decode document = .ok file
  · obtain ⟨file, hfile⟩ := hdecoded
    by_cases hknown : StateFile.Known file.version
    · obtain ⟨state, hstate⟩ := ofDocument_of_known hfile hknown
      exact .inl ⟨file, state, hfile, hknown, hstate⟩
    · exact .inr (.inl ⟨file, hfile, hknown, ofDocument_of_not_known hfile hknown⟩)
  · have hnone := not_exists.mp hdecoded
    obtain ⟨detail, hdetail⟩ := ofDocument_of_not_decoded hnone
    exact .inr (.inr ⟨detail, hnone, hdetail⟩)

theorem exists_deserialization_iff :
    (∃ detail, ofDocument document = .error (.deserialization detail)) ↔
      ∀ file, StateFile.shape.decode document ≠ .ok file := by
  rcases ofDocument_cases document with
    ⟨file, state, hfile, -, h⟩ | ⟨file, hfile, -, h⟩ | ⟨detail, hnone, h⟩
  · simp [h, hfile]
  · simp [h, hfile]
  · simp [h, hnone]

theorem eq_unsupportedVersion_iff {version : UInt64} :
    ofDocument document = .error (.unsupportedVersion version) ↔
      ∃ file, StateFile.shape.decode document = .ok file ∧ file.version = version ∧
        ¬StateFile.Known version := by
  rcases ofDocument_cases document with
    ⟨file, state, hfile, hknown, h⟩ | ⟨file, hfile, hknown, h⟩ | ⟨detail, hnone, h⟩
  · simp only [h, hfile]
    constructor
    · intro hversion
      cases hversion
    · rintro ⟨_, hfile', rfl, hnot⟩
      cases hfile'
      exact absurd hknown hnot
  · simp only [h, hfile]
    constructor
    · intro hversion
      cases hversion
      exact ⟨file, rfl, rfl, hknown⟩
    · rintro ⟨_, hfile', rfl, -⟩
      cases hfile'
      rfl
  · simp [h, hnone]

theorem exists_ofDocument_iff :
    (∃ state, ofDocument document = .ok state) ↔
      ∃ file, StateFile.shape.decode document = .ok file ∧ StateFile.Known file.version := by
  rcases ofDocument_cases document with
    ⟨file, state, hfile, hknown, h⟩ | ⟨file, hfile, hknown, h⟩ | ⟨detail, hnone, h⟩
  · simp [h, hfile, hknown]
  · simp [h, hfile, hknown]
  · simp [h, hnone]

/-- A document of which no survey can be made or a section is malformed is not a state, whatever
its version is. -/
theorem not_decoded_of_malformed
    (h : ∀ value, Surveys document value → StateFile.Malformed value) (file : StateFile) :
    StateFile.shape.decode document ≠ .ok file := by
  intro hfile
  obtain ⟨value, hvalue, hmeans⟩ := StateFile.shape.exists_survey_of_decode hfile
  exact StateFile.not_malformed_of_ofJson hmeans (h value hvalue)

/-! ## Selection -/

section

variable {value : Json}

theorem exists_survey (h : ofDocument document = .ok state) : ∃ value, Surveys document value := by
  obtain ⟨file, -, hfile, -⟩ := ofDocument_eq_ok_iff.mp h
  obtain ⟨value, hvalue, -⟩ := StateFile.shape.exists_survey_of_decode hfile
  exact ⟨value, hvalue⟩

/-- The version is the word at its place. -/
theorem version_of_survey (h : ofDocument document = .ok state) (hvalue : Surveys document value) :
    ∃ part, value.parts "version" 0 = [part] ∧
      (Shape.leaf .word).ofJson part = .ok state.version := by
  obtain ⟨file, outputs, hfile, hselected, rfl⟩ := ofDocument_eq_ok_iff.mp h
  obtain ⟨hversion, -, -⟩ :=
    StateFile.reads_of_ofJson (StateFile.shape.ofJson_of_survey hfile hvalue)
  exact Presence.exists_of_reads_required hversion

/-- An output is the text of the value that the version selects. -/
theorem output?_of_survey (h : ofDocument document = .ok state) (hvalue : Surveys document value)
    (name : String) : state.output? name =
      (StateFile.writtenValue? state.version value name).map fun v =>
        StateFile.Output.text ⟨v⟩ := by
  obtain ⟨file, outputs, hfile, hselected, rfl⟩ := ofDocument_eq_ok_iff.mp h
  have hmeans := StateFile.shape.ofJson_of_survey hfile hvalue
  rw [output?, Table.get?_map, ← StateFile.get?_of_selected hmeans hselected, Option.map_map]
  rfl

end

/-- Two documents give the same answers to everyone. -/
structure Agree (state state' : StateDocument) : Prop where
  output : ∀ name, state.output? name = state'.output? name
  outputsFor : ∀ names, state.outputsFor names = state'.outputsFor names
  stateFor : ∀ config, state.stateFor config = state'.stateFor config
  statusFor : ∀ config, state.statusFor config = state'.statusFor config

theorem agree_of_output {state state' : StateDocument}
    (h : ∀ name, state.output? name = state'.output? name) : state.Agree state' := by
  have houtputs (names : List String) : state.outputsFor names = state'.outputsFor names :=
    outputsFor_congr h
  have hstate (config : ProviderConfig) : state.stateFor config = state'.stateFor config := by
    rw [stateFor_eq, stateFor_eq, houtputs]
  refine ⟨h, houtputs, hstate, ?_⟩
  intro config
  rw [statusFor_eq, statusFor_eq, hstate]

end StateDocument

end Provisioning
