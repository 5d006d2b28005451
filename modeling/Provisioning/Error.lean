import Provisioning.Schema.Document

/-!
# Errors

What can go wrong in this library, with the words for it. The renderer of a chart and the reader of
a provisioned state are not part of it, and their errors are handed on as they are: none of the
constructors here wraps one.
-/

set_option autoImplicit false

namespace Provisioning

inductive Error where
  /-- A document or a provider config has not the shape it should have. -/
  | deserialization (detail : String)
  /-- An infrastructure was named that does not say how its networks are laid out. -/
  | missingProviderConfig (namespaceName name : String)
  | missingProjectId
  /-- Outputs were asked for that the state does not have. -/
  | missingOutputs (names : List String)
  /-- A state has a format that is not known. -/
  | unsupportedVersion (version : UInt64)
  deriving DecidableEq

def Error.message : Error → String
  | deserialization detail => "Deserialization error: " ++ detail
  | missingProviderConfig namespaceName name =>
    "Infrastructure " ++ namespaceName ++ "/" ++ name ++ " has no provider config"
  | missingProjectId => "Service account does not contain a project id"
  | missingOutputs names =>
    "Could not find all requested outputs, missing: " ++ ", ".intercalate names
  | unsupportedVersion version =>
    "Unsupported terraform state version: " ++ String.ofList (Nat.toDigits 10 version.toNat)

instance : ToString Error := ⟨Error.message⟩

/-- Errors among which there is one for a value that has no tree. -/
class OfUnwritable (ε : Type) where
  ofUnwritable : Unwritable → ε

instance : OfUnwritable Error := ⟨fun why => .deserialization why.message⟩

/-- Where an error is a text, it is the message. -/
instance : OfUnwritable String := ⟨Unwritable.message⟩

namespace Shape

variable {α : Type}

/-- The value that a document holds; if there is none, the error says what is wrong and where. -/
def decode (shape : Shape α) (document : Bytes) : Except Error α :=
  (shape.readDocument document).mapError fun fault => .deserialization (fault.report document)

/-- The value that a tree holds. -/
def decodeTree (shape : Shape α) (tree : Json) : Except Error α :=
  (shape.ofJson tree).mapError fun why => .deserialization why.message

end Shape

end Provisioning
