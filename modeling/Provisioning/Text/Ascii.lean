/-!
# Names for the bytes of the punctuation

The bytes that have a part of their own in a document, by name, so that a reader's equations can be
read. Each can stand in a pattern.
-/

set_option autoImplicit false

namespace Provisioning.Ascii

abbrev tab : UInt8 := 0x09
abbrev lineFeed : UInt8 := 0x0A
abbrev carriageReturn : UInt8 := 0x0D
abbrev space : UInt8 := 0x20
abbrev quote : UInt8 := 0x22
abbrev plus : UInt8 := 0x2B
abbrev comma : UInt8 := 0x2C
abbrev minus : UInt8 := 0x2D
abbrev point : UInt8 := 0x2E
abbrev slash : UInt8 := 0x2F
abbrev colon : UInt8 := 0x3A
abbrev upperE : UInt8 := 0x45
abbrev leftBracket : UInt8 := 0x5B
abbrev backslash : UInt8 := 0x5C
abbrev rightBracket : UInt8 := 0x5D
abbrev lowerA : UInt8 := 0x61
abbrev lowerB : UInt8 := 0x62
abbrev lowerE : UInt8 := 0x65
abbrev lowerF : UInt8 := 0x66
abbrev lowerL : UInt8 := 0x6C
abbrev lowerN : UInt8 := 0x6E
abbrev lowerR : UInt8 := 0x72
abbrev lowerS : UInt8 := 0x73
abbrev lowerT : UInt8 := 0x74
abbrev lowerU : UInt8 := 0x75
abbrev leftBrace : UInt8 := 0x7B
abbrev rightBrace : UInt8 := 0x7D

/-- The value of a decimal digit. -/
def digit? (b : UInt8) : Option Nat :=
  if 0x30 ≤ b.toNat ∧ b.toNat ≤ 0x39 then some (b.toNat - 0x30) else none

/-- The value of a hexadecimal digit of either case. -/
def hexDigit? (b : UInt8) : Option Nat :=
  if 0x30 ≤ b.toNat ∧ b.toNat ≤ 0x39 then some (b.toNat - 0x30)
  else if 0x41 ≤ b.toNat ∧ b.toNat ≤ 0x46 then some (b.toNat - 0x41 + 10)
  else if 0x61 ≤ b.toNat ∧ b.toNat ≤ 0x66 then some (b.toNat - 0x61 + 10)
  else none

/-- The digits at the front, and what follows them. -/
def digits : List UInt8 → List Nat × List UInt8
  | [] => ([], [])
  | b :: s =>
    match digit? b with
    | some d => let (ds, rest) := digits s; (d :: ds, rest)
    | none => ([], b :: s)

/-- The rest after a certain byte, if that is the first. -/
def after? (b : UInt8) : List UInt8 → Option (List UInt8)
  | [] => none
  | c :: s => if c = b then some s else none

/-- The rest after any blanks: spaces, tabs and line ends. -/
def skipBlank : List UInt8 → List UInt8
  | [] => []
  | b :: s =>
    if b = space ∨ b = lineFeed ∨ b = tab ∨ b = carriageReturn then skipBlank s else b :: s

end Provisioning.Ascii
