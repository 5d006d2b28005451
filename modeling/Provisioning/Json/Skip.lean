import Provisioning.Json.Container
import Provisioning.Json.Literal
import Provisioning.Json.Numeral

/-!
# Passing over a value

A member that nobody asked for still has to be JSON, or its end could not be found. Passing over it
checks the form of every part and keeps nothing, so that a number of any size, a string of any
bytes and any depth of nesting will do.
-/

set_option autoImplicit false

namespace Provisioning

open Ascii Container

/-- The bytes of a word, each of which has to be there. -/
def readWord : Bytes → Bytes → Except Fault Bytes
  | [], s => .ok s
  | _ :: _, [] => .error (.here .eofValue [])
  | w :: word, b :: s => if b = w then readWord word s else .error (.here .expectedIdent s)

/-- What follows the first letter of `null`. -/
def nullTail : Bytes := [lowerU, lowerL, lowerL]

/-- What follows the first letter of `true`. -/
def trueTail : Bytes := [lowerR, lowerU, lowerE]

/-- What follows the first letter of `false`. -/
def falseTail : Bytes := [lowerA, lowerL, lowerS, lowerE]

/-- What follows a value without parts. -/
def Scalar.skip : Bytes → Except Fault Bytes
  | [] => .error (.next .eofValue [])
  | b :: s =>
    if b = lowerN then readWord nullTail s
    else if b = lowerT then readWord trueTail s
    else if b = lowerF then readWord falseTail s
    else if b = quote then Literal.skip s
    else if b = minus ∨ (digit? b).isSome then do
      let (_, rest) ← Numeral.read Care.skipped.cutNumber (b :: s)
      return rest
    else .error (.next .expectedValue (b :: s))

namespace Json

/-- Passes over the name of a member. -/
def skipName : Reader Unit := fun s => do return ((), ← Literal.skip s)

/-- Passes over a value in no more than `n` bytes. -/
def skipWithin : Nat → Reader Unit
  | 0, _ => .error (.next .eofValue [])
  | n + 1, s =>
    match opening s with
    | .array s => do
      let (_, rest) ← items .skipped (skipWithin n) n true s
      return ((), rest)
    | .object s =>
      members .skipped skipName (fun _ _ s => do skipWithin n (← readColon s)) n true () s
    | .other s => do return ((), ← Scalar.skip s)

/-- What follows a value. -/
def skip (s : Bytes) : Except Fault Bytes := do
  let ((), rest) ← skipWithin s.length s
  return rest

end Json

end Provisioning
