import Provisioning.Decimal.Notation
import Provisioning.Json.Basic

/-!
# The compact text of a value

Values are written without any blank between their parts and with members in the order in which the
value lists them, so the text of a `Json.tree` is canonical: equal trees have equal texts. A string
escapes the quote, the backslash and the controls, the common ones by a letter; every other
character stands for itself. A floating-point number is written in the fewest digits that read
back.
-/

set_option autoImplicit false

namespace Provisioning

/-! ## Leaves -/

/-- A plain point for magnitudes from `10^-5` up to, but not including, `10^16`. -/
def Json.floatNotation : Decimal.Notation := ⟨-5, 15⟩

def Integer.chars (n : Integer) : List Char :=
  match n.val with
  | .ofNat k => Nat.toDigits 10 k
  | .negSucc k => '-' :: Nat.toDigits 10 (k + 1)

/-- The text of a floating-point number; one without a decimal form is written as `null`. -/
def Json.floatChars (x : Float) : List Char :=
  (Json.floatNotation.write? x).getD ['n', 'u', 'l', 'l']

/-- A character as it stands inside a string. -/
def Json.escapeChar (c : Char) : List Char :=
  if c = '"' then ['\\', '"']
  else if c = '\\' then ['\\', '\\']
  else if 0x20 ≤ c.toNat then [c]
  else if c.toNat = 0x08 then ['\\', 'b']
  else if c.toNat = 0x09 then ['\\', 't']
  else if c.toNat = 0x0A then ['\\', 'n']
  else if c.toNat = 0x0C then ['\\', 'f']
  else if c.toNat = 0x0D then ['\\', 'r']
  else ['\\', 'u', '0', '0', Nat.digitChar (c.toNat / 16), Nat.digitChar (c.toNat % 16)]

def Json.stringChars (s : String) : List Char :=
  '"' :: s.toList.flatMap Json.escapeChar ++ ['"']

def Scalar.chars : Scalar → List Char
  | null => ['n', 'u', 'l', 'l']
  | bool true => ['t', 'r', 'u', 'e']
  | bool false => ['f', 'a', 'l', 's', 'e']
  | integer n => n.chars
  | float x => Json.floatChars x
  | string s => Json.stringChars s

/-! ## Values

What follows the first part of a container is a run of parts with a comma before each, and then the
closing bracket. -/

namespace Json

mutual

def chars : Json → List Char
  | scalar value => value.chars
  | array [] => ['[', ']']
  | array (item :: rest) => '[' :: item.chars ++ moreItems rest
  | object [] => ['\x7b', '\x7d']
  | object ((name, value) :: rest) =>
    '\x7b' :: stringChars name ++ ':' :: value.chars ++ moreMembers rest

def moreItems : List Json → List Char
  | [] => [']']
  | item :: rest => ',' :: item.chars ++ moreItems rest

def moreMembers : List (String × Json) → List Char
  | [] => ['\x7d']
  | (name, value) :: rest =>
    ',' :: stringChars name ++ ':' :: value.chars ++ moreMembers rest

end

/-- The compact text of a value. -/
def text (value : Json) : String := String.ofList value.chars

end Json

end Provisioning
