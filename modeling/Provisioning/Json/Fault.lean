import Provisioning.Json.Text
import Provisioning.Text.Quoted
import Provisioning.Text.Utf8

/-!
# Why and where reading fails

A reader fails for a `Cause`: the bytes are not JSON (`Malformed`), or they are and do not have the
wanted shape (`Mismatch`). Only the second can happen to a value that is already a tree.

The place of a failure is kept as **the bytes beyond it** and not as an offset. A reader only ever
holds what is left of its document, so it can say where it is without counting, and two readings of
the same rest fail at the same place whatever came before. `Fault.position` turns the rest into a
line and a column when the whole document is at hand. A failure is reported either *here*, after
the last byte that was read, or at the *next* byte, one that was looked at and not read.
-/

set_option autoImplicit false

namespace Provisioning

/-! ## Causes -/

/-- How bytes fail to be JSON. -/
inductive Malformed where
  | eofList
  | eofObject
  | eofString
  | eofValue
  | expectedColon
  | expectedListEnd
  | expectedObjectEnd
  | expectedIdent
  | expectedValue
  | keyNotString
  | trailingComma
  | trailingCharacters
  | tooDeep
  | invalidNumber
  | numberOutOfRange
  | invalidEscape
  | controlCharacter
  | loneSurrogate
  | cutSurrogatePair
  | notUnicode
  deriving DecidableEq

/-- How a value fails to have a shape. -/
inductive Mismatch where
  | wrongType (found : Found) (expected : String)
  | wrongValue (found : Found) (expected : String)
  | wrongLength (length : Nat) (expected : String)
  | unknownVariant (name : String) (variants : List String)
  | missingField (name : String)
  | duplicateField (name : String)

inductive Cause where
  | malformed (why : Malformed)
  | mismatch (why : Mismatch)

/-! ## Their wording -/

def Malformed.message : Malformed → String
  | eofList => "EOF while parsing a list"
  | eofObject => "EOF while parsing an object"
  | eofString => "EOF while parsing a string"
  | eofValue => "EOF while parsing a value"
  | expectedColon => "expected `:`"
  | expectedListEnd => "expected `,` or `]`"
  | expectedObjectEnd => "expected `,` or `\x7d`"
  | expectedIdent => "expected ident"
  | expectedValue => "expected value"
  | keyNotString => "key must be a string"
  | trailingComma => "trailing comma"
  | trailingCharacters => "trailing characters"
  | tooDeep => "recursion limit exceeded"
  | invalidNumber => "invalid number"
  | numberOutOfRange => "number out of range"
  | invalidEscape => "invalid escape"
  | controlCharacter => "control character (\\u0000-\\u001F) found while parsing a string"
  | loneSurrogate => "lone leading surrogate in hex escape"
  | cutSurrogatePair => "unexpected end of hex escape"
  | notUnicode => "invalid unicode code point"

/-- A word of a message that is given literally. -/
def Cause.verbatim (word : String) : String := "`" ++ word ++ "`"

def Found.message : Found → String
  | scalar .null => "null"
  | scalar (.bool b) => "boolean " ++ Cause.verbatim (if b then "true" else "false")
  | scalar (.integer n) => "integer " ++ Cause.verbatim (String.ofList n.chars)
  | scalar (.float x) => "floating point " ++ Cause.verbatim (String.ofList (Json.floatChars x))
  | scalar (.string s) => "string " ++ Text.quote s
  | sequence => "sequence"
  | map => "map"

/-- The names that are accepted, in the words of an unknown one's message. -/
def Mismatch.alternatives : List String → String
  | [] => "there are no variants"
  | [a] => "expected " ++ Cause.verbatim a
  | [a, b] => "expected " ++ Cause.verbatim a ++ " or " ++ Cause.verbatim b
  | names => "expected one of " ++ ", ".intercalate (names.map Cause.verbatim)

def Mismatch.message : Mismatch → String
  | wrongType found expected => "invalid type: " ++ found.message ++ ", expected " ++ expected
  | wrongValue found expected => "invalid value: " ++ found.message ++ ", expected " ++ expected
  | wrongLength n expected =>
    "invalid length " ++ String.ofList (Nat.toDigits 10 n) ++ ", expected " ++ expected
  | unknownVariant name variants =>
    "unknown variant " ++ Cause.verbatim name ++ ", " ++ alternatives variants
  | missingField name => "missing field " ++ Cause.verbatim name
  | duplicateField name => "duplicate field " ++ Cause.verbatim name

def Cause.message : Cause → String
  | malformed why => why.message
  | mismatch why => why.message

/-! ## Places -/

/-- A failure, the bytes beyond its place, and how many columns before that place it is reported. -/
structure Fault where
  cause : Cause
  rest : Bytes
  back : Nat := 0

namespace Fault

/-- A failure after the last byte read. -/
def here (why : Malformed) (rest : Bytes) : Fault := ⟨.malformed why, rest, 0⟩

/-- A failure at the next byte, which is not read; at the end there is none. -/
def next (why : Malformed) (rest : Bytes) : Fault := ⟨.malformed why, rest.drop 1, 0⟩

/-- A value of the wrong shape that ends before `rest`. -/
def mismatch (why : Mismatch) (rest : Bytes) : Fault := ⟨.mismatch why, rest, 0⟩

/-- The line, from one, and the column in it of a failure in `document`. -/
def position (document : Bytes) (fault : Fault) : Nat × Nat :=
  let read := document.take (document.length - fault.rest.length)
  (1 + read.count 0x0A, (read.reverse.takeWhile (· ≠ 0x0A)).length - fault.back)

/-- What is wrong in `document`, and where. -/
def report (document : Bytes) (fault : Fault) : String :=
  let (line, column) := fault.position document
  fault.cause.message ++ " at line " ++ String.ofList (Nat.toDigits 10 line) ++
    " column " ++ String.ofList (Nat.toDigits 10 column)

end Fault

/-- A function that reads a value off the front of a document, and answers what is left. -/
abbrev Reader (α : Type) := Bytes → Except Fault (α × Bytes)

end Provisioning
