import Provisioning.Proofs.Schema.RoundTrip
import Provisioning.State.Document

/-!
# A state document for every table

The texts that a state document answers can be any at all: under each name of a table a document of
format 4 can hold the text of the table as a string, and then it answers the table.
-/

set_option autoImplicit false

namespace Provisioning

open Json

namespace StateFile

/-- The outputs of a table, as strings. -/
def ofTexts (texts : Table String) : StateFile := ⟨4, texts.map fun text => ⟨.string text⟩, []⟩

variable (texts : Table String)

theorem recovers_ofTexts : shape.Recovers (ofTexts texts) := by
  simp [shape, Output.shape, ofTexts, Table.map, Shape.Recovers, Fields.Recovers, Fields.names,
    tree, List.forall_mem_map, -List.mem_map]

/-- An output as it is written. -/
def writtenText (text : String) : Json := .object [("value", .string text)]

theorem toJson_ofTexts :
    shape.toJson (ofTexts texts) = .object [
      ("version", .integer (.ofUInt64 4)),
      ("outputs", .object (texts.entries.map fun e => (e.1, writtenText e.2))),
      ("modules", .array [])] := by
  simp [shape, ofTexts, Shape.toJson, Fields.members, Presence.required, Presence.orElse, Leaf.word,
    ofTable, Table.map, Output.shape, writtenText]

theorem exact_toJson_ofTexts : (shape.toJson (ofTexts texts)).Exact := by
  simp [toJson_ofTexts, Exact, NoFloat, writtenText, List.forall_mem_map, -List.mem_map]

theorem depth_toJson_ofTexts : (shape.toJson (ofTexts texts)).depth ≤ maxDepth := by
  simp [toJson_ofTexts, maxDepth, writtenText, List.forall_mem_map, -List.mem_map]

end StateFile

namespace StateDocument

/-- A file that has texts as outputs answers them. -/
theorem ofDocument_of_decode_ofTexts {document : Bytes} {texts : Table String}
    (h : StateFile.shape.decode document = .ok (.ofTexts texts)) :
    ofDocument document = .ok ⟨4, texts⟩ := by
  have htexts : (texts.map fun text => StateFile.Output.mk (.string text)).map
      StateFile.Output.text = texts := by
    refine Table.ext_get? ?_
    intro name
    simp [StateFile.Output.text, Function.comp_def]
  rw [ofDocument, h]
  show Except.ok (StateDocument.mk 4 _) = _
  rw [StateFile.ofTexts, htexts]

/-- The document of a table answers the table. -/
theorem ofDocument_write_ofTexts (texts : Table String) :
    ofDocument (Utf8.encode (StateFile.shape.write (.ofTexts texts))) = .ok ⟨4, texts⟩ :=
  ofDocument_of_decode_ofTexts (StateFile.shape.decode_write (StateFile.recovers_ofTexts texts)
    (StateFile.exact_toJson_ofTexts texts) (StateFile.depth_toJson_ofTexts texts))

end StateDocument

end Provisioning
