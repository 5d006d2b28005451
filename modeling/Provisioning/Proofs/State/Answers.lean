import Provisioning.Proofs.Json.Equality
import Provisioning.Proofs.Json.Grammar
import Provisioning.Proofs.State.Canonical

/-!
# What an accepted document answers

An accepted document answers the texts of what is written in the section of its version: a string as
itself, and any other value as its compact text (`StateFile.Output.IsText`). So documents with the
same outputs in these sections answer alike, even if their versions differ.

Which outputs are the same is a question of the floating-point numbers in them. The texts of equal
numbers are the same but for the zeros, of which the negative one keeps its sign. So values that are
equal if numbers are compared by value need not have one text (`StateDocument.zeros_disagree`), and
they have if zeros of different signs are told apart.
-/

set_option autoImplicit false

namespace Provisioning

open Json

namespace StateFile

/-- The text of an output is the string that it is, or a compact text of it, and the canonical one
if its numbers are whole. -/
structure Output.IsText (value : Json) (text : String) : Prop where
  string : ∀ s, value = .string s → text = s
  compact : value.NotString → value.WrittenAs text.toList
  canonical : value.NotString → value.Exact → value.Canonical text

theorem Output.isText_text {value : Json} (hdepth : value.depth ≤ maxDepth)
    (htree : value.tree = value) : Output.IsText value (Output.text ⟨value⟩) where
  string := by
    rintro s rfl
    rfl
  compact h := by
    rw [text_of_notString h, Json.text, String.toList_ofList]
    exact value.writtenAs_chars
  canonical h hexact := by
    rw [text_of_notString h]
    exact canonical_text hexact hdepth htree

end StateFile

namespace StateDocument

variable {document : Bytes} {state : StateDocument} {value : Json}

/-- What an accepted document answers is written in it: the version at its place, and under each
name the text of the value that the version selects, if there is one. -/
structure Answers (value : Json) (state : StateDocument) : Prop where
  version : ∃ part, value.parts "version" 0 = [part] ∧
    (Shape.leaf .word).ofJson part = .ok state.version
  absent : ∀ name, StateFile.writtenValue? state.version value name = none →
    state.output? name = none
  present : ∀ name v, StateFile.writtenValue? state.version value name = some v →
    ∃ text, state.output? name = some text ∧ StateFile.Output.IsText v text

theorem answers_of_survey (h : ofDocument document = .ok state) (hvalue : Surveys document value) :
    state.Answers value where
  version := version_of_survey h hvalue
  absent name hnone := by rw [output?_of_survey h hvalue, hnone, Option.map_none]
  present name v hv := by
    obtain ⟨hdepth, htree⟩ := value_of_written h hvalue hv
    exact ⟨_, output?_of_written h hvalue hv, StateFile.Output.isText_text hdepth htree⟩

theorem agree_of_written {document' : Bytes} {state' : StateDocument} {value' : Json}
    (h : ofDocument document = .ok state) (h' : ofDocument document' = .ok state')
    (hvalue : Surveys document value) (hvalue' : Surveys document' value')
    (hsame : ∀ name, Option.Rel (Alike EqualSigned)
      (StateFile.writtenValue? state.version value name)
      (StateFile.writtenValue? state'.version value' name)) : state.Agree state' := by
  refine agree_of_output fun name => ?_
  rw [output?_of_survey h hvalue, output?_of_survey h' hvalue', eq_of_rel_equalSigned (hsame name)]

/-- **Acceptance and selection.** A document is refused if and only if it is not a state in all its
sections, used or not; otherwise its version has to be known; and otherwise it answers the texts of
what is written in the section of its version and nothing else, so that two documents with equal
outputs there answer alike, even if their versions differ. Floating-point zeros count as equal if
they have the same sign. -/
theorem ofDocument_selects (document : Bytes) :
    ((∃ detail, ofDocument document = .error (.deserialization detail)) ↔
      ∀ file, StateFile.shape.decode document ≠ .ok file) ∧
    ((∀ value, Surveys document value → StateFile.Malformed value) →
      ∃ detail, ofDocument document = .error (.deserialization detail)) ∧
    (∀ version, ofDocument document = .error (.unsupportedVersion version) ↔
      ∃ file, StateFile.shape.decode document = .ok file ∧ file.version = version ∧
        ¬(version = 3 ∨ version = 4)) ∧
    ((∃ state, ofDocument document = .ok state) ↔
      ∃ file, StateFile.shape.decode document = .ok file ∧
        (file.version = 3 ∨ file.version = 4)) ∧
    (∀ state, ofDocument document = .ok state →
      ∃ value, Surveys document value ∧ state.Answers value) ∧
    ∀ document' state state' value value', ofDocument document = .ok state →
      ofDocument document' = .ok state' → Surveys document value → Surveys document' value' →
      (∀ name, Option.Rel (Alike EqualSigned)
        (StateFile.writtenValue? state.version value name)
        (StateFile.writtenValue? state'.version value' name)) →
      state.Agree state' := by
  refine ⟨exists_deserialization_iff, ?_, ?_, exists_ofDocument_iff, ?_, ?_⟩
  · intro h
    exact ofDocument_of_not_decoded (not_decoded_of_malformed h)
  · intro version
    exact eq_unsupportedVersion_iff
  · intro state h
    obtain ⟨value, hvalue⟩ := exists_survey h
    exact ⟨value, hvalue, answers_of_survey h hvalue⟩
  · intro document' state state' value value' h h' hvalue hvalue' hsame
    exact agree_of_written h h' hvalue hvalue' hsame

/-- A document of format 3 that says what `vpcOnlyDocument` says. -/
def vpcOnlyModules : Bytes :=
  Utf8.encode ("\x7b\"version\": 3, \"modules\": [" ++
    "\x7b\"outputs\": \x7b\"vpc_name\": \x7b\"value\": \"v\"\x7d\x7d\x7d]\x7d")

/-- A document of format 4, which has no use for modules, with a module that is none. -/
def moduleUnused : Bytes := Utf8.encode "\x7b\"version\": 4, \"modules\": [null]\x7d"

/-- The outputs of both `vpcOnlyDocument` and `vpcOnlyModules`. -/
def vpcOnlyOutputs : Json := .object [("vpc_name", .object [("value", .string "v")])]

theorem lists_vpcOnlyDocument :
    Lists vpcOnlyDocument
      (.object [("version", .integer (.ofUInt64 4)), ("outputs", vpcOnlyOutputs)]) := by
  decide +kernel

theorem lists_vpcOnlyModules :
    Lists vpcOnlyModules
      (.object [("version", .integer (.ofUInt64 3)),
        ("modules", .array [.object [("outputs", vpcOnlyOutputs)]])]) := by
  decide +kernel

theorem lists_moduleUnused :
    Lists moduleUnused
      (.object [("version", .integer (.ofUInt64 4)), ("modules", .array [.null])]) := by
  decide +kernel

theorem ofDocument_selects_unused :
    (∃ detail, ofDocument moduleUnused = .error (.deserialization detail)) ∧
      ∃ state state', ofDocument vpcOnlyDocument = .ok state ∧
        ofDocument vpcOnlyModules = .ok state' ∧ state.Agree state' := by
  obtain ⟨-, hbad, -⟩ := ofDocument_selects moduleUnused
  obtain ⟨-, -, -, -, -, hagree⟩ := ofDocument_selects vpcOnlyDocument
  have h₃ : ofDocument vpcOnlyModules = .ok ⟨3, .ofList [("vpc_name", "v")]⟩ := by decide +kernel
  refine ⟨hbad ?_, _, _, ofDocument_vpcOnlyDocument, h₃, ?_⟩
  · intro value hvalue
    rw [hvalue.unique lists_moduleUnused.surveys]
    refine .module (List.mem_singleton_self _) ?_
    intro root hroot
    cases hroot
  · exact hagree _ _ _ _ _ ofDocument_vpcOnlyDocument h₃ lists_vpcOnlyDocument.surveys
      lists_vpcOnlyModules.surveys fun _ => rel_alike_refl _ _

/-! ## Zeros -/

/-- A file of format 4 with all outputs that a config without an internal network asks for, one of
which is given. -/
def vpcFile (value : Scalar) : Json :=
  .object [("version", .integer (.ofUInt64 4)),
    ("outputs", .object [("vpc_name", .object [("value", .scalar value)]),
      ("subnet_nodes", .object [("value", .string "n")]),
      ("service_account_email", .object [("value", .string "e")])])]

/-- What a document with such a file answers. -/
def vpcState (text : String) : StateDocument :=
  ⟨4, .ofList [("vpc_name", text), ("subnet_nodes", "n"), ("service_account_email", "e")]⟩

/-- A document with a positive zero. -/
def zeroDocument : Bytes :=
  Utf8.encode ("\x7b\"version\":4,\"outputs\":\x7b\"vpc_name\":\x7b\"value\":0.0\x7d," ++
    "\"subnet_nodes\":\x7b\"value\":\"n\"\x7d," ++
    "\"service_account_email\":\x7b\"value\":\"e\"\x7d\x7d\x7d")

/-- The same with a negative zero. -/
def minusZeroDocument : Bytes :=
  Utf8.encode ("\x7b\"version\":4,\"outputs\":\x7b\"vpc_name\":\x7b\"value\":-0.0\x7d," ++
    "\"subnet_nodes\":\x7b\"value\":\"n\"\x7d," ++
    "\"service_account_email\":\x7b\"value\":\"e\"\x7d\x7d\x7d")

theorem lists_vpcFile {value : Scalar} (h : (Json.scalar value).LeafReadsBack) :
    Lists (Utf8.encode (vpcFile value).text) (vpcFile value) := by
  refine lists_text_of_leaves ?_ (by simp [vpcFile, maxDepth])
  have hversion : (Json.integer (.ofUInt64 4)).LeafReadsBack := leafReadsBack_of_noFloat trivial
  have htext (text : String) : (Json.string text).LeafReadsBack := leafReadsBack_of_noFloat trivial
  simpa [vpcFile, LeafReadsBack] using
    And.intro hversion (And.intro h (And.intro (htext "n") (htext "e")))

theorem ofDocument_of_lists_vpcFile {value : Scalar} (h : Lists document (vpcFile value)) :
    ofDocument document = .ok (vpcState (StateFile.Output.text ⟨.scalar value⟩)) :=
  ofDocument_eq_ok_iff.mpr ⟨_, _, (StateFile.shape.decode_eq_ok_iff h).mpr rfl, rfl, rfl⟩

theorem floatChars_zero : floatChars 0 = ['0', '.', '0'] := by decide

theorem floatChars_minusZero : floatChars (-0) = ['-', '0', '.', '0'] := by decide

theorem lists_zeroDocument : Lists zeroDocument (vpcFile (.float 0)) := by
  have hvalue : (Numeral.mk false [0] [0] none).value = .ok (.float 0) := rfl
  have h := lists_vpcFile (leafReadsBack_float Numeral.regular_zero floatChars_zero hvalue)
  simp only [vpcFile, Json.text, Json.chars, Scalar.chars, moreMembers, floatChars_zero] at h
  exact h

theorem lists_minusZeroDocument : Lists minusZeroDocument (vpcFile (.float (-0))) := by
  have hvalue : (Numeral.mk true [0] [0] none).value = .ok (.float (-0)) := rfl
  have h := lists_vpcFile (leafReadsBack_float Numeral.regular_zero floatChars_minusZero hvalue)
  simp only [vpcFile, Json.text, Json.chars, Scalar.chars, moreMembers, floatChars_minusZero] at h
  exact h

/-- Files of this form with related values have related outputs. -/
theorem rel_writtenValue?_vpcFile {R : Float → Float → Prop} {value value' : Scalar}
    (h : Alike R (.scalar value) (.scalar value')) (name : String) :
    Option.Rel (Alike R) (StateFile.writtenValue? 4 (vpcFile value) name)
      (StateFile.writtenValue? 4 (vpcFile value') name) := by
  by_cases hvpc : name = "vpc_name"
  · subst hvpc
    exact .some h
  · -- Under any other name both files have the same.
    have hothers (v : Scalar) : StateFile.writtenValue? 4 (vpcFile v) name =
        (last? name [("subnet_nodes", .object [("value", .string "n")]),
          ("service_account_email", .object [("value", .string "e")])]).bind
            StateFile.Output.written? := by
      have houtputs : StateFile.writtenOutputs 4 (vpcFile v) =
          ("vpc_name", .object [("value", .scalar v)]) ::
            [("subnet_nodes", .object [("value", .string "n")]),
              ("service_account_email", .object [("value", .string "e")])] := rfl
      rw [StateFile.writtenValue?, houtputs, last?_cons, if_neg (Ne.symm hvpc), Option.or_none]
    rw [hothers, hothers]
    exact rel_alike_refl R _

/-- Two documents whose outputs are equal, as far as numbers are compared by value, and not
answered alike. -/
theorem zeros_disagree :
    ofDocument zeroDocument = .ok (vpcState "0.0") ∧
      ofDocument minusZeroDocument = .ok (vpcState "-0.0") ∧
      Surveys zeroDocument (vpcFile (.float 0)) ∧
      Surveys minusZeroDocument (vpcFile (.float (-0))) ∧
      (∀ name, Option.Rel (Alike fun x y => x == y)
        (StateFile.writtenValue? 4 (vpcFile (.float 0)) name)
        (StateFile.writtenValue? 4 (vpcFile (.float (-0))) name)) ∧
      ¬(vpcState "0.0").Agree (vpcState "-0.0") := by
  have hzero : StateFile.Output.text ⟨.scalar (.float 0)⟩ = "0.0" :=
    congrArg String.ofList floatChars_zero
  have hminusZero : StateFile.Output.text ⟨.scalar (.float (-0))⟩ = "-0.0" :=
    congrArg String.ofList floatChars_minusZero
  refine ⟨?_, ?_, lists_zeroDocument.surveys, lists_minusZeroDocument.surveys,
    rel_writtenValue?_vpcFile (.float (by decide)), ?_⟩
  · rw [ofDocument_of_lists_vpcFile lists_zeroDocument, hzero]
  · rw [ofDocument_of_lists_vpcFile lists_minusZeroDocument, hminusZero]
  · intro h
    have hvpc := h.output "vpc_name"
    revert hvpc
    decide

end StateDocument

end Provisioning
