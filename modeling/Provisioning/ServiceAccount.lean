import Provisioning.Error

/-!
# The account that provisions

The account is given as a document, of which only the project is looked at. The document itself is
kept byte for byte, because it is what the provisioning tool signs in with.
-/

set_option autoImplicit false

namespace Provisioning

structure ServiceAccount where
  projectId : String
  /-- The document as it was supplied. -/
  raw : Bytes
  deriving DecidableEq

namespace ServiceAccount

/-- The part of an account's document that is looked at: its project, if it names one. -/
def projectShape : Shape (Option String) :=
  .record "ServiceAccountJson"
    (.optional "project_id" .string <|
     .nil)
    ⟨fun (projectId, ()) => projectId, fun projectId => (projectId, ()), fun _ => rfl, fun _ => rfl⟩

/-- The account of a document, which has to name a project that is not empty. -/
def ofDocument (document : Bytes) : Except Error ServiceAccount := do
  match ← projectShape.decode document with
  | none => throw .missingProjectId
  | some projectId =>
    if projectId.isEmpty then throw .missingProjectId else return ⟨projectId, document⟩

end ServiceAccount

end Provisioning
