import Provisioning.Proofs.Members
import Provisioning.Proofs.Outcome
import Provisioning.State.Document

/-!
# What a state document answers

A state document is made in two steps, a file that is decoded and the outputs that are selected by
its version, and asked in one: for a list of names. The answer to a list is complete or it is an
error that names what is missing, and it depends on nothing but the answers to the single names.
-/

set_option autoImplicit false

namespace Provisioning

/-! ## Selection -/

namespace StateFile

/-- The formats that are known. -/
def Known (version : UInt64) : Prop := version = 3 ∨ version = 4

instance (version : UInt64) : Decidable (Known version) :=
  inferInstanceAs (Decidable (version = 3 ∨ version = 4))

theorem selected_of_known {file : StateFile} (h : Known file.version) :
    ∃ outputs, file.selected = .ok outputs := by
  rcases h with h | h
  · exact ⟨_, by rw [selected, if_pos h]⟩
  · have hne : file.version ≠ 3 := by
      rw [h]
      decide
    exact ⟨_, by rw [selected, if_neg hne, if_pos h]⟩

theorem selected_of_not_known {file : StateFile} (h : ¬Known file.version) :
    file.selected = .error (.unsupportedVersion file.version) := by
  have h₃ : file.version ≠ 3 := fun hv => h (.inl hv)
  have h₄ : file.version ≠ 4 := fun hv => h (.inr hv)
  rw [selected, if_neg h₃, if_neg h₄]

theorem known_of_selected {file : StateFile} {outputs : Table Output}
    (h : file.selected = .ok outputs) : Known file.version :=
  Decidable.byContradiction fun hk => by
    rw [selected_of_not_known hk] at h
    cases h

end StateFile

namespace StateDocument

theorem ofDocument_eq_ok_iff {document : Bytes} {state : StateDocument} :
    ofDocument document = .ok state ↔
      ∃ file outputs, StateFile.shape.decode document = .ok file ∧ file.selected = .ok outputs ∧
        state = ⟨file.version, outputs.map StateFile.Output.text⟩ := by
  constructor
  · intro h
    obtain ⟨file, hfile, h⟩ := Except.bind_eq_ok.mp h
    obtain ⟨outputs, houtputs, h⟩ := Except.bind_eq_ok.mp h
    cases h
    exact ⟨file, outputs, hfile, houtputs, rfl⟩
  · rintro ⟨file, outputs, hfile, houtputs, rfl⟩
    rw [ofDocument, hfile, Except.ok_bind, houtputs]
    rfl

/-- Documents that are decoded alike are one state. -/
theorem ofDocument_congr {document document' : Bytes} {state : StateDocument}
    (h : ∀ file, StateFile.shape.decode document' = .ok file ↔
      StateFile.shape.decode document = .ok file) :
    ofDocument document' = .ok state ↔ ofDocument document = .ok state := by
  rw [ofDocument_eq_ok_iff, ofDocument_eq_ok_iff]
  exact exists_congr fun file => exists_congr fun outputs => and_congr_left' (h file)

theorem known_of_ofDocument {document : Bytes} {state : StateDocument}
    (h : ofDocument document = .ok state) : StateFile.Known state.version := by
  obtain ⟨file, outputs, -, hselected, rfl⟩ := ofDocument_eq_ok_iff.mp h
  exact StateFile.known_of_selected hselected

/-! ## Asking for several outputs -/

variable {state state' : StateDocument} {names : List String}

/-- The names that have no output. -/
def missing (state : StateDocument) (names : List String) : List String :=
  names.filter fun name => (state.output? name).isNone

theorem missing_eq_nil_iff :
    state.missing names = [] ↔ ∀ name ∈ names, (state.output? name).isSome := by
  rw [missing, List.filter_eq_nil_iff]
  refine forall₂_congr ?_
  intro name _
  cases state.output? name <;> simp

theorem outputsFor_of_missing (h : state.missing names ≠ []) :
    state.outputsFor names = .error (.missingOutputs (state.missing names)) := by
  rw [missing] at h ⊢
  unfold outputsFor
  split
  · next hnil => exact absurd hnil h
  · rfl

theorem outputsFor_of_present (h : ∀ name ∈ names, (state.output? name).isSome) :
    state.outputsFor names =
      .ok (.ofList (names.filterMap fun name => (state.output? name).map (name, ·))) := by
  have hnil := missing_eq_nil_iff.mpr h
  rw [missing] at hnil
  rw [outputsFor, hnil]

/-- A list of names is answered if and only if each of them is. -/
theorem exists_outputsFor_iff :
    (∃ outputs, state.outputsFor names = .ok outputs) ↔
      ∀ name ∈ names, (state.output? name).isSome := by
  constructor
  · rintro ⟨outputs, h⟩
    refine missing_eq_nil_iff.mp (Decidable.byContradiction fun hmissing => ?_)
    rw [outputsFor_of_missing hmissing] at h
    cases h
  · exact fun h => ⟨_, outputsFor_of_present h⟩

/-- The answer to a list of names has each of them with its output, and no other. -/
theorem get?_of_outputsFor {outputs : Table String} (h : state.outputsFor names = .ok outputs)
    (name : String) : outputs.get? name = if name ∈ names then state.output? name else none := by
  have hpresent := exists_outputsFor_iff.mp ⟨outputs, h⟩
  rw [outputsFor_of_present hpresent] at h
  cases h
  rw [Table.get?_ofList, last?_filterMap]

/-- Only the outputs of the names matter. -/
theorem outputsFor_congr (h : ∀ name, state.output? name = state'.output? name) :
    state.outputsFor names = state'.outputsFor names := by
  simp only [outputsFor, h]

end StateDocument

end Provisioning
