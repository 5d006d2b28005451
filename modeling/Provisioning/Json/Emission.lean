import Provisioning.Json.Text

/-!
# Making a tree part by part

Whoever wants a tree of a value has the value tell its parts, one after the other. The key of an
entry may be told as anything, but the name of a member is a text: a string is one, a truth value
and a number are taken by the text that they have, and with any other key the tree is given up
(`Unwritable`). Of entries under one name the last counts, as in `Json.tree`.

The members of a `Json` have names to begin with, so telling it cannot fail; that is a fact about
what is told (`Json.emission`), and the one who makes the tree looks at every key all the same.
-/

set_option autoImplicit false

namespace Provisioning

/-- A value as it is told, part by part. -/
inductive Emission where
  | scalar (value : Scalar)
  | sequence (items : List Emission)
  | map (entries : List (Emission × Emission))

/-- Why there is no tree of a value. -/
inductive Unwritable where
  | keyNotString
  | keyNotFinite
  deriving DecidableEq

def Unwritable.message : Unwritable → String
  | keyNotString => "key must be a string"
  | keyNotFinite => "float key must be finite (got NaN or +/-inf)"

namespace Emission

/-- The name that a key stands for. -/
def name : Emission → Except Unwritable String
  | .scalar (.string s) => .ok s
  | .scalar (.bool b) => .ok (String.ofList (Scalar.bool b).chars)
  | .scalar (.integer n) => .ok (String.ofList n.chars)
  | .scalar (.float x) =>
    if x.isFinite then .ok (String.ofList (Json.floatChars x)) else .error .keyNotFinite
  | _ => .error .keyNotString

mutual

def toTree : Emission → Except Unwritable Json
  -- There is no number for an infinity or a NaN.
  | .scalar (.float x) => .ok (if x.isFinite then .scalar (.float x) else .null)
  | .scalar value => .ok (.scalar value)
  | .sequence items => do return .array (← toTreeItems items)
  | .map entries => do return .ofTable (.ofList (← toTreeEntries entries))

def toTreeItems : List Emission → Except Unwritable (List Json)
  | [] => .ok []
  | item :: rest => do
    let tree ← item.toTree
    return tree :: (← toTreeItems rest)

def toTreeEntries : List (Emission × Emission) → Except Unwritable (List (String × Json))
  | [] => .ok []
  | (key, value) :: rest => do
    let name ← key.name
    let tree ← value.toTree
    return (name, tree) :: (← toTreeEntries rest)

end

end Emission

namespace Json

mutual

/-- How a value is told, with the names of members as keys. -/
def emission : Json → Emission
  | scalar value => .scalar value
  | array items => .sequence (emissionItems items)
  | object members => .map (emissionMembers members)

def emissionItems : List Json → List Emission
  | [] => []
  | item :: rest => item.emission :: emissionItems rest

def emissionMembers : List (String × Json) → List (Emission × Emission)
  | [] => []
  | (name, value) :: rest => (.scalar (.string name), value.emission) :: emissionMembers rest

end

end Json

end Provisioning
