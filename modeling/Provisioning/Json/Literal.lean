import Provisioning.Json.Fault
import Provisioning.Text.Ascii

/-!
# String literals

A literal is read from just after its opening quote. `Literal.unescape` finds the closing quote and
the bytes that the escapes stand for; whether those are a text is only asked once the literal is
whole, so a missing quote is reported before a broken character. `Literal.skip` passes over a
literal that nobody wants: it holds escapes to their form, and neither the pairing of surrogates
nor the bytes to UTF-8.

Escapes can spell a character beyond the first plane as two surrogates; one that stands alone
spells nothing and is an error.
-/

set_option autoImplicit false

namespace Provisioning.Literal

open Ascii

/-! ## Escapes -/

/-- The byte that a one-letter escape stands for. -/
def shortEscape? (letter : UInt8) : Option UInt8 :=
  if letter = quote ∨ letter = backslash ∨ letter = slash then some letter
  else if letter = lowerB then some 0x08
  else if letter = lowerF then some 0x0C
  else if letter = lowerN then some lineFeed
  else if letter = lowerR then some carriageReturn
  else if letter = lowerT then some tab
  else none

/-- The number that four hexadecimal digits spell. -/
def codeUnit? (a b c d : UInt8) : Option Nat := do
  return (((← hexDigit? a) * 16 + (← hexDigit? b)) * 16 + (← hexDigit? c)) * 16 + (← hexDigit? d)

/-- Whether a code unit opens a surrogate pair. -/
def opensPair (unit : Nat) : Bool := 0xD800 ≤ unit && unit < 0xDC00

/-- Whether a code unit closes a surrogate pair. -/
def closesPair (unit : Nat) : Bool := 0xDC00 ≤ unit && unit < 0xE000

/-- The bytes of the character that a surrogate pair spells. -/
def pairBytes (first second : Nat) : Bytes :=
  Utf8.encodeChar (Char.ofNat ((first - 0xD800) * 0x400 + (second - 0xDC00) + 0x10000))

/-- Puts bytes in front of the value of a reading. -/
def prepend (bytes : Bytes) (result : Except Fault (Bytes × Bytes)) :
    Except Fault (Bytes × Bytes) :=
  result.map fun (more, rest) => (bytes ++ more, rest)

/-! ## Reading -/

/-- The bytes a literal stands for, and what follows its closing quote. -/
def unescape : Reader Bytes
  | [] => .error (.here .eofString [])
  | b :: s =>
    if b = quote then .ok ([], s)
    else if b < 0x20 then .error (.here .controlCharacter s)
    else if b ≠ backslash then prepend [b] (unescape s)
    else
      match s with
      | [] => .error (.here .eofString [])
      | letter :: s =>
        if letter = lowerU then
          match s with
          | a :: b :: c :: d :: s =>
            match codeUnit? a b c d with
            | none => .error (.here .invalidEscape s)
            | some first =>
              if closesPair first then .error (.here .loneSurrogate s)
              else if opensPair first then
                match s with
                | [] => .error (.here .eofString [])
                | mark :: s =>
                  if mark ≠ backslash then .error (.here .cutSurrogatePair s)
                  else
                    match s with
                    | [] => .error (.here .eofString [])
                    | letter :: s =>
                      if letter ≠ lowerU then .error (.here .cutSurrogatePair s)
                      else
                        match s with
                        | a :: b :: c :: d :: s =>
                          match codeUnit? a b c d with
                          | none => .error (.here .invalidEscape s)
                          | some second =>
                            if closesPair second then
                              prepend (pairBytes first second) (unescape s)
                            else .error (.here .loneSurrogate s)
                        | _ => .error (.here .eofString [])
              else prepend (Utf8.encodeChar (Char.ofNat first)) (unescape s)
          | _ => .error (.here .eofString [])
        else
          match shortEscape? letter with
          | some byte => prepend [byte] (unescape s)
          | none => .error (.here .invalidEscape s)

/-- The text of a literal. A literal that is no text is reported as far before its end as there are
bytes from the first broken character on. -/
def read (s : Bytes) : Except Fault (String × Bytes) := do
  let (bytes, rest) ← unescape s
  match Utf8.decode bytes with
  | (chars, []) => return (String.ofList chars, rest)
  | (_, left) => throw ⟨.malformed .notUnicode, rest, left.length⟩

/-! ## Passing over -/

/-- What follows the closing quote of a literal. -/
def skip : Bytes → Except Fault Bytes
  | [] => .error (.here .eofString [])
  | b :: s =>
    if b = quote then .ok s
    else if b < 0x20 then .error (.here .controlCharacter (b :: s))
    else if b ≠ backslash then skip s
    else
      match s with
      | [] => .error (.here .eofString [])
      | letter :: s =>
        if letter = lowerU then
          match s with
          | a :: b :: c :: d :: s =>
            match codeUnit? a b c d with
            | none => .error (.here .invalidEscape s)
            | some _ => skip s
          | _ => .error (.here .eofString [])
        else
          match shortEscape? letter with
          | some _ => skip s
          | none => .error (.here .invalidEscape s)

end Provisioning.Literal
