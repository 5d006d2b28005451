import Provisioning.Proofs.Json.Canonical
import Provisioning.Proofs.Schema.Within
import Provisioning.Proofs.State.Selection
import Provisioning.Proofs.State.Writing

/-!
# Outputs as texts

Whoever asks for an output gets a text. That of a string is the string itself, and of any other
value its one canonical text (`Json.Canonical`), from which the value can be read back: nothing
about it is lost but the way in which the document wrote it.

A text is a string again, so a document that stores the texts of another answers like the other
(`StateDocument.ofDocument_of_lists_restated`), in whatever order it stores them.
-/

set_option autoImplicit false

namespace Provisioning

open Json

/-! ## Values -/

/-- Anything but a string. -/
def Json.NotString (value : Json) : Prop := ∀ text, value ≠ .string text

namespace StateFile

variable {depth : Nat}

theorem Output.text_of_notString {value : Json} (h : value.NotString) :
    Output.text ⟨value⟩ = value.text := by
  unfold Output.text
  split
  · next text heq => exact absurd heq (h text)
  · rfl

/-- The value of an output that has been read is a tree, and no deeper than the output. -/
theorem Output.value_of_gave {output : Output} (h : Output.shape.Gave depth output) :
    output.value.depth ≤ depth ∧ output.value.tree = output.value := by
  obtain ⟨depth', rfl, hvalue, -⟩ := Shape.taken_of_read h
  rcases hvalue with habsent | hvalue
  · cases habsent
  · obtain ⟨hdepth, htree⟩ := Shape.tree_of_read hvalue
    exact ⟨Nat.le_succ_of_le hdepth, htree⟩

variable {outputs : Table Output} {name : String} {output : Output}

theorem value_of_taken (h : (Presence.orElse .empty).absent? = some outputs ∨
      (Shape.table Output.shape).Gave depth outputs) (houtput : outputs.get? name = some output) :
    output.value.depth ≤ depth ∧ output.value.tree = output.value := by
  rcases h with habsent | h
  · cases habsent
    cases houtput
  · obtain ⟨depth', rfl, hvalues⟩ := Shape.gave_of_table h
    obtain ⟨hdepth, htree⟩ := Output.value_of_gave (hvalues name output houtput)
    exact ⟨Nat.le_succ_of_le hdepth, htree⟩

/-- Wherever the version selects an output, its value is a tree and no deeper than the file. -/
theorem value_of_selected {file : StateFile} (h : shape.Gave depth file)
    (hselected : file.selected = .ok outputs) (houtput : outputs.get? name = some output) :
    output.value.depth ≤ depth ∧ output.value.tree = output.value := by
  obtain ⟨depth, rfl, -, houtputs, hmodules, -⟩ := Shape.taken_of_read h
  rw [selected] at hselected
  split at hselected
  · cases hselected
    cases hroot : file.modules.head? with
    | none =>
      rw [hroot] at houtput
      cases houtput
    | some root =>
      rw [hroot] at houtput
      rcases hmodules with habsent | hmodules
      · rw [← Option.some.inj habsent] at hroot
        cases hroot
      · obtain ⟨depth, rfl, hall⟩ := Shape.gave_of_list hmodules
        have hroot := hall root (List.mem_of_head? hroot)
        obtain ⟨depth, rfl, houtputs, -⟩ := Shape.taken_of_read hroot
        obtain ⟨hdepth, htree⟩ := value_of_taken houtputs houtput
        exact ⟨by omega, htree⟩
  · split at hselected
    · cases hselected
      obtain ⟨hdepth, htree⟩ := value_of_taken houtputs houtput
      exact ⟨Nat.le_succ_of_le hdepth, htree⟩
    · cases hselected

/-! ## Texts as values -/

/-- A file of format 4 that has texts as outputs, in the order in which they are listed. -/
def restated (texts : List (String × String)) : Json :=
  .object [("version", .integer (.ofUInt64 4)),
    ("outputs", .object (texts.map fun e => (e.1, writtenText e.2)))]

theorem ofJson_writtenText (text : String) :
    Output.shape.ofJson (writtenText text) = .ok ⟨.string text⟩ := rfl

theorem ofJson_restated (texts : List (String × String)) :
    shape.ofJson (restated texts) = .ok (.ofTexts (.ofList texts)) := by
  have houtputs : (Shape.table Output.shape).ofJson
      (.object (texts.map fun e => (e.1, writtenText e.2))) =
        .ok ((Table.ofList texts).map fun text => ⟨.string text⟩) := by
    refine Shape.ofJson_table_eq_ok_iff.mpr ⟨?_, ?_⟩
    · exact List.forall_mem_map.mpr fun e _ => ⟨_, ofJson_writtenText e.2⟩
    · intro name
      rw [Table.get?_map, Table.get?_ofList, last?_map]
      cases last? name texts with
      | none => rfl
      | some text => rfl
  have hversion : (Shape.leaf .word).ofJson (.integer (.ofUInt64 4)) = .ok 4 := rfl
  rw [← Except.toOption_eq_some_iff, shape, restated, Shape.toOption_ofJson_record]
  simp [Fields.gather?, named, unnamed, Presence.value?, Presence.orElse, hversion, houtputs,
    ofTexts]

end StateFile

/-! ## Documents -/

namespace StateDocument

variable {document : Bytes} {state : StateDocument} {value v : Json} {name : String}

/-- The value of an output is a tree, which a reader can take apart. -/
theorem value_of_written (h : ofDocument document = .ok state) (hvalue : Surveys document value)
    (hv : StateFile.writtenValue? state.version value name = some v) :
    v.depth ≤ maxDepth ∧ v.tree = v := by
  obtain ⟨file, outputs, hfile, hselected, rfl⟩ := ofDocument_eq_ok_iff.mp h
  have hmeans := StateFile.shape.ofJson_of_survey hfile hvalue
  rw [← StateFile.get?_of_selected hmeans hselected] at hv
  obtain ⟨output, houtput, rfl⟩ := Option.map_eq_some_iff.mp hv
  exact StateFile.value_of_selected (Shape.gave_of_decode hfile) hselected houtput

theorem output?_of_written (h : ofDocument document = .ok state) (hvalue : Surveys document value)
    (hv : StateFile.writtenValue? state.version value name = some v) :
    state.output? name = some (StateFile.Output.text ⟨v⟩) := by
  rw [output?_of_survey h hvalue, hv, Option.map_some]

/-- The text of an output that is no string is the canonical text of its value. -/
theorem canonical_of_written (h : ofDocument document = .ok state)
    (hvalue : Surveys document value)
    (hv : StateFile.writtenValue? state.version value name = some v) (hstring : v.NotString)
    (hexact : v.Exact) : ∃ text, state.output? name = some text ∧ v.Canonical text := by
  obtain ⟨hdepth, htree⟩ := value_of_written h hvalue hv
  refine ⟨v.text, ?_, canonical_text hexact hdepth htree⟩
  rw [output?_of_written h hvalue hv, StateFile.Output.text_of_notString hstring]

/-- A document that stores the texts of a state answers them. -/
theorem ofDocument_of_lists_restated {texts : List (String × String)}
    (htexts : texts.Perm state.outputs.entries)
    (h : Lists document (StateFile.restated texts)) :
    ofDocument document = .ok ⟨4, state.outputs⟩ := by
  have hfile := (StateFile.shape.decode_eq_ok_iff h).mpr (StateFile.ofJson_restated texts)
  rw [ofDocument_of_decode_ofTexts hfile, Table.ofList_of_perm htexts]

theorem lists_text_restated (texts : List (String × String)) :
    Lists (Utf8.encode (StateFile.restated texts).text) (StateFile.restated texts) := by
  refine lists_text ?_ ?_
  · simp [StateFile.restated, Exact, NoFloat, StateFile.writtenText, List.forall_mem_map,
      -List.mem_map]
  · simp [StateFile.restated, maxDepth, StateFile.writtenText, List.forall_mem_map, -List.mem_map]

/-- **Canonical texts.** An output that is a string is answered as the string, and any other whose
numbers are whole is answered as the canonical text of its value, from which the value is read back.
So two outputs that are no strings have one text if and only if they have one value, however their
documents write it. And a document of format 4 that stores the texts of a state as strings, in any
order and however they are written, answers exactly these texts. -/
theorem outputs_canonical (h : ofDocument document = .ok state) :
    ∃ value, Surveys document value ∧
      (∀ name text, StateFile.writtenValue? state.version value name = some (.string text) →
        state.output? name = some text) ∧
      (∀ name v, StateFile.writtenValue? state.version value name = some v → v.NotString →
        v.Exact → ∃ text, state.output? name = some text ∧ v.Canonical text ∧
          Shape.tree.decode (Utf8.encode text) = .ok v) ∧
      (∀ document' state' value', ofDocument document' = .ok state' → Surveys document' value' →
        ∀ name name' v v', StateFile.writtenValue? state.version value name = some v →
          StateFile.writtenValue? state'.version value' name' = some v' → v.NotString →
          v'.NotString → v.Exact → v'.Exact →
          (state.output? name = state'.output? name' ↔ v = v')) ∧
      (∀ texts document', texts.Perm state.outputs.entries →
        Lists document' (StateFile.restated texts) →
        ofDocument document' = .ok ⟨4, state.outputs⟩) ∧
      ∀ texts, Lists (Utf8.encode (StateFile.restated texts).text) (StateFile.restated texts) := by
  obtain ⟨value, hvalue⟩ := exists_survey h
  refine ⟨value, hvalue, ?_, ?_, ?_, ?_, lists_text_restated⟩
  · intro name text hv
    rw [output?_of_written h hvalue hv]
    rfl
  · intro name v hv hstring hexact
    obtain ⟨text, htext, hcanonical⟩ := canonical_of_written h hvalue hv hstring hexact
    have hread : Shape.tree.ofJson v = .ok v := by
      rw [Shape.ofJson, (value_of_written h hvalue hv).2]
    exact ⟨text, htext, hcanonical, (Shape.tree.decode_eq_ok_iff hcanonical.lists).mpr hread⟩
  · intro document' state' value' h' hvalue' name name' v v' hv hv' hstring hstring' hexact hexact'
    obtain ⟨text, htext, hcanonical⟩ := canonical_of_written h hvalue hv hstring hexact
    obtain ⟨text', htext', hcanonical'⟩ := canonical_of_written h' hvalue' hv' hstring' hexact'
    constructor
    · intro hsame
      rw [htext, htext'] at hsame
      cases hsame
      exact hcanonical.unique hcanonical'
    · rintro rfl
      rw [output?_of_written h hvalue hv, output?_of_written h' hvalue' hv']
  · intro texts document' htexts hlists
    exact ofDocument_of_lists_restated htexts hlists

/-- A document with an output that is an object and names a member twice, and not in order. -/
def unsortedDocument : Bytes :=
  Utf8.encode ("\x7b\"version\": 4, \"outputs\": \x7b\"n\": \x7b\"value\": " ++
    "\x7b\"b\": 1, \"a\": null, \"b\": [2]\x7d\x7d\x7d\x7d")

/-- The output of `unsortedDocument`, as a tree. -/
def sortedOutput : Json := .object [("a", .null), ("b", .array [.integer (.ofUInt64 2)])]

/-- The state of `unsortedDocument`. -/
def sortedState : StateDocument := ⟨4, .ofList [("n", "\x7b\"a\":null,\"b\":[2]\x7d")]⟩

theorem lists_unsortedDocument :
    Lists unsortedDocument (.object [("version", .integer (.ofUInt64 4)),
      ("outputs", .object [("n", .object [("value", .object [("b", .integer (.ofUInt64 1)),
        ("a", .null), ("b", .array [.integer (.ofUInt64 2)])])])])]) := by
  decide +kernel

theorem ofDocument_unsortedDocument : ofDocument unsortedDocument = .ok sortedState :=
  ofDocument_eq_ok_iff.mpr
    ⟨_, _, (StateFile.shape.decode_eq_ok_iff lists_unsortedDocument).mpr rfl, rfl, rfl⟩

theorem outputs_canonical_unsorted :
    ofDocument unsortedDocument = .ok sortedState ∧
      (∃ text, sortedState.output? "n" = some text ∧ sortedOutput.Canonical text ∧
        Shape.tree.decode (Utf8.encode text) = .ok sortedOutput) ∧
      ofDocument (Utf8.encode (StateFile.restated sortedState.outputs.entries).text) =
        .ok sortedState := by
  obtain ⟨value, hvalue, -, hcanonical, -, hrestated, hlists⟩ :=
    outputs_canonical ofDocument_unsortedDocument
  obtain rfl := hvalue.unique lists_unsortedDocument.surveys
  refine ⟨ofDocument_unsortedDocument, hcanonical "n" sortedOutput rfl nofun ?_, ?_⟩
  · simp [sortedOutput, Exact, NoFloat]
  · exact hrestated _ _ (.refl _) (hlists _)

end StateDocument

end Provisioning
