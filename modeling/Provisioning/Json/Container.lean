import Provisioning.Json.Fault
import Provisioning.Text.Ascii

/-!
# The parts of a container

Arrays and objects are walked by one step each: what comes next, a part or the closing bracket. The
walk does not know what is done with a part, so the same two loops serve a typed value, a value of
unknown shape and one that is passed over. The three differ in the words for a few errors, and that
is all `Care` decides. Only the containers of values that are kept are counted; one too many is an
error at its bracket, before anything in it is looked at (`enter`).

The loops count down from the number of bytes at hand. Every part takes at least one byte, so the
count only runs out when the bytes have, and then the container is cut short either way.
-/

set_option autoImplicit false

namespace Provisioning

/-- What is done with a value: it is decoded, or only its form is checked. -/
inductive Care where
  | decoded
  | skipped
  deriving DecidableEq

namespace Care

/-- A number that the document cuts short. -/
def cutNumber : Care → Malformed
  | decoded => .eofValue
  | skipped => .invalidNumber

/-- A bracket where an item was due. -/
def trailingItem : Care → Malformed
  | decoded => .trailingComma
  | skipped => .expectedValue

/-- A brace where a member was due. -/
def trailingMember : Care → Malformed
  | decoded => .trailingComma
  | skipped => .keyNotString

/-- The end where a member was due. -/
def cutMember : Care → Malformed
  | decoded => .eofValue
  | skipped => .eofObject

end Care

namespace Container

open Ascii

variable {α σ κ : Type}

/-! ## Brackets -/

/-- What a value begins with: a bracket, with what follows it, or anything else. -/
inductive Opening where
  | array (rest : Bytes)
  | object (rest : Bytes)
  | other (s : Bytes)

/-- The opening bracket at the front, after any blanks. -/
def opening (s : Bytes) : Opening :=
  match skipBlank s with
  | [] => .other []
  | b :: s =>
    if b = leftBracket then .array s
    else if b = leftBrace then .object s
    else .other (b :: s)

/-- The depth inside a container whose opening bracket is followed by `rest`. -/
def enter (rest : Bytes) : Nat → Except Fault Nat
  | 0 => .error (.here .tooDeep rest)
  | depth + 1 => .ok depth

/-! ## Steps -/

/-- Either the container is closed, and `rest` follows it, or a part begins at `rest`. -/
inductive Step where
  | closed (rest : Bytes)
  | part (rest : Bytes)

/-- The next item of an array. -/
def nextItem (care : Care) (first : Bool) (s : Bytes) : Except Fault Step :=
  match skipBlank s with
  | [] => .error (.next .eofList [])
  | b :: s =>
    if b = rightBracket then .ok (.closed s)
    else if first then .ok (.part (b :: s))
    else if b = comma then
      match skipBlank s with
      | [] => .error (.next .eofValue [])
      | c :: s =>
        if c = rightBracket then .error (.next care.trailingItem (c :: s))
        else .ok (.part (c :: s))
    else .error (.next .expectedListEnd (b :: s))

/-- The next member of an object, from just after the quote that opens its name. -/
def nextMember (care : Care) (first : Bool) (s : Bytes) : Except Fault Step :=
  match skipBlank s with
  | [] => .error (.next .eofObject [])
  | b :: s =>
    if b = rightBrace then .ok (.closed s)
    else if first then
      if b = quote then .ok (.part s) else .error (.next .keyNotString (b :: s))
    else if b = comma then
      match skipBlank s with
      | [] => .error (.next care.cutMember [])
      | c :: s =>
        if c = quote then .ok (.part s)
        else if c = rightBrace then .error (.next care.trailingMember (c :: s))
        else .error (.next .keyNotString (c :: s))
    else .error (.next .expectedObjectEnd (b :: s))

/-- The colon between a member's name and its value. -/
def readColon (s : Bytes) : Except Fault Bytes :=
  match skipBlank s with
  | [] => .error (.next .eofObject [])
  | b :: s => if b = colon then .ok s else .error (.next .expectedColon (b :: s))

/-! ## Loops -/

def items (care : Care) (item : Reader α) : Nat → Bool → Reader (List α)
  | 0, _, _ => .error (.next .eofList [])
  | n + 1, first, s => do
    match ← nextItem care first s with
    | .closed rest => return ([], rest)
    | .part s =>
      let (x, s) ← item s
      let (xs, rest) ← items care item n false s
      return (x :: xs, rest)

def members (care : Care) (name : Reader κ) (member : κ → σ → Reader σ) :
    Nat → Bool → σ → Reader σ
  | 0, _, _, _ => .error (.next .eofObject [])
  | n + 1, first, state, s => do
    match ← nextMember care first s with
    | .closed rest => return (state, rest)
    | .part s =>
      let (k, s) ← name s
      let (state, s) ← member k state s
      members care name member n false state s

/-- All items of an array, from just after its opening bracket. -/
def readItems (care : Care) (item : Reader α) : Reader (List α) := fun s =>
  items care item s.length true s

/-- All members of an object, from just after its opening brace. Each is handed to `member` when
only its name has been read. -/
def readMembers (care : Care) (name : Reader κ) (member : κ → σ → Reader σ) (start : σ) :
    Reader σ := fun s =>
  members care name member s.length true start s

end Container

end Provisioning
