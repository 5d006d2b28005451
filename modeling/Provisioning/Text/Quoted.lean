import Provisioning.Text.Printable

/-!
# Texts quoted in diagnostics

The form in which a message or a log line shows a text it did not choose: between double quotes, so
that its ends are visible, and with everything escaped that would break the line, close the quotes
or not show. A single quote is not escaped, because it closes nothing.
-/

set_option autoImplicit false

namespace Provisioning.Text

/-- The lower-case hexadecimal digits of a number, without leading zeros. -/
def hexadecimal (n : Nat) : List Char := Nat.toDigits 16 n

/-- A character as it stands between the quotes. -/
def quoteChar (c : Char) : List Char :=
  if c = '"' then ['\\', '"']
  else if c = '\\' then ['\\', '\\']
  else if c = '\n' then ['\\', 'n']
  else if c = '\r' then ['\\', 'r']
  else if c = '\t' then ['\\', 't']
  else if c.toNat = 0 then ['\\', '0']
  else if isPrintable c then [c]
  else ['\\', 'u', '\x7b'] ++ hexadecimal c.toNat ++ ['\x7d']

/-- A text between its quotes. -/
def quote (text : String) : String :=
  String.ofList ('"' :: text.toList.flatMap quoteChar ++ ['"'])

/-- A list of quoted texts, in brackets. -/
def quoteAll (texts : List String) : String :=
  "[" ++ ", ".intercalate (texts.map quote) ++ "]"

end Provisioning.Text
