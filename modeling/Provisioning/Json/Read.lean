import Provisioning.Json.Skip

/-!
# Reading a value of unknown shape

`Json.readListed` reads a value as the document lists it, with every member of every object in the
order of the document. What is kept of it is its tree (`Json.read`), in which the members of each
object are in order and only the last of those with one name is left, after all of them have been
read without fault.
-/

set_option autoImplicit false

namespace Provisioning

open Ascii Container

/-- How many containers may be open around a value. -/
def Json.maxDepth : Nat := 127

/-- A value without parts. -/
def Scalar.read : Reader Scalar
  | [] => .error (.next .eofValue [])
  | b :: s =>
    if b = lowerN then do return (.null, ← readWord nullTail s)
    else if b = lowerT then do return (.bool true, ← readWord trueTail s)
    else if b = lowerF then do return (.bool false, ← readWord falseTail s)
    else if b = quote then do
      let (text, rest) ← Literal.read s
      return (.string text, rest)
    else if b = minus ∨ (digit? b).isSome then readNumber (b :: s)
    else .error (.next .expectedValue (b :: s))

/-- What stands at the front. A value without parts is read to its end, and of a container not even
the bracket. -/
def Found.read (s : Bytes) : Except Fault (Found × Bytes) :=
  match opening s with
  | .array _ => .ok (.sequence, skipBlank s)
  | .object _ => .ok (.map, skipBlank s)
  | .other s => do
    let (value, rest) ← Scalar.read s
    return (.scalar value, rest)

namespace Container

/-- The entry of a table whose name has just been read; it replaces the one of the same name. -/
def readEntry {α : Type} (value : Reader α) (name : String) (seen : Table α) :
    Reader (Table α) := fun s => do
  let (a, rest) ← value (← readColon s)
  return (seen.insert name a, rest)

/-- The member of an object whose name has just been read, in front of those seen before it. -/
def readMember {α : Type} (value : Reader α) (name : String) (seen : List (String × α)) :
    Reader (List (String × α)) := fun s => do
  let (a, rest) ← value (← readColon s)
  return ((name, a) :: seen, rest)

end Container

namespace Json

/-- A value of any shape, as the document lists it, in which no more than `depth` containers are
open at once. -/
def readListed : Nat → Reader Json
  | 0, s =>
    match opening s with
    | .array s | .object s => .error (.here .tooDeep s)
    | .other s => do
      let (value, rest) ← Scalar.read s
      return (scalar value, rest)
  | depth + 1, s =>
    match opening s with
    | .array s => do
      let (values, rest) ← readItems .decoded (readListed depth) s
      return (array values, rest)
    | .object s => do
      let (seen, rest) ← readMembers .decoded Literal.read (readMember (readListed depth)) [] s
      return (object seen.reverse, rest)
    | .other s => do
      let (value, rest) ← Scalar.read s
      return (scalar value, rest)

/-- The tree of a value of any shape. -/
def read (depth : Nat) (s : Bytes) : Except Fault (Json × Bytes) := do
  let (value, rest) ← readListed depth s
  return (value.tree, rest)

end Json

/-- Requires that only blanks are left. -/
def readEnd (s : Bytes) : Except Fault Unit :=
  match skipBlank s with
  | [] => .ok ()
  | s => .error (.next .trailingCharacters s)

end Provisioning
