import Provisioning.Json.Read
import Provisioning.Schema.Tree

/-!
# Shapes and documents

`Shape.read` reads a value of a shape off the front of a document, in one pass and without building
a tree first, so that a failure is reported where it happens and what nobody asked for need not be
kept. A document is read by `Shape.readDocument`, which requires that nothing but blanks is left.

The failures of a record are reported at different places. A field or an item that cannot be read
fails where it stands, and so does a repeated field: at the colon that should follow its name. That
a field is missing, or the record too short, is only known once the closing bracket has been read.
-/

set_option autoImplicit false

namespace Provisioning

open Ascii Container

/-! ## Leaves and brackets -/

/-- The fault of a value that is not of the expected shape, or cannot be read at all. -/
def Found.refuse (expected : String) (s : Bytes) : Fault :=
  match Found.read s with
  | .ok (found, rest) => .mismatch (.wrongType found expected) rest
  | .error fault => fault

/-- The answer of a check of what ends before `rest`. -/
def Fault.check {α : Type} (rest : Bytes) : Except Mismatch α → Except Fault (α × Bytes)
  | .ok a => .ok (a, rest)
  | .error why => .error (.mismatch why rest)

def Leaf.read {α : Type} (leaf : Leaf α) : Reader α := fun s => do
  let (found, rest) ← Found.read s
  Fault.check rest (leaf.accept found)

/-- What follows the brace that may close an object at this point. -/
def pastBrace (s : Bytes) : Bytes :=
  (after? rightBrace (skipBlank s)).getD (skipBlank s)

/-- The bracket after the last item that a record has a field for. -/
def readBracket (s : Bytes) : Except Fault Bytes :=
  match skipBlank s with
  | [] => .error (.next .eofList [])
  | b :: s =>
    if b = rightBracket then .ok s
    else if b = comma then
      match skipBlank s with
      | [] => .error (.next .trailingCharacters [])
      | c :: s =>
        if c = rightBracket then .error (.next .trailingComma (c :: s))
        else .error (.next .trailingCharacters (c :: s))
    else .error (.next .trailingCharacters (b :: s))

/-! ## Names -/

/-- A name out of a list, as a string or as an object in which it has the value `null`. -/
def Naming.read {α : Type} (naming : Naming α) (depth : Nat) (s : Bytes) :
    Except Fault (α × Bytes) :=
  match skipBlank s with
  | [] => .error (.next .eofValue [])
  | b :: s =>
    if b = quote then do
      let (name, rest) ← Literal.read s
      Fault.check rest (naming.accept name)
    else if b = leftBrace then do
      let _ ← enter s depth
      match skipBlank s with
      | [] => throw (.next .eofObject [])
      | c :: s =>
        if c = quote then
          let (name, s) ← Literal.read s
          let (a, s) ← Fault.check s (naming.accept name)
          let ((), s) ← Leaf.unit.read (← readColon s)
          match skipBlank s with
          | [] => throw (.here .eofObject [])
          | d :: s =>
            if d = rightBrace then return (a, s) else throw (.here .expectedValue (d :: s))
        else if c = rightBrace then throw (.next .expectedValue (c :: s))
        else throw (.next .keyNotString (c :: s))
    else .error (.next .expectedValue (b :: s))

/-! ## Values -/

mutual

/-- A value in which no more than `depth` containers are open at once. -/
def Shape.read : {α : Type} → Shape α → Nat → Bytes → Except Fault (α × Bytes)
  | _, .leaf leaf, _, s => leaf.read s
  | _, .tree, depth, s => Json.read depth s
  | _, .optional inner, depth, s =>
    match after? lowerN (skipBlank s) with
    | some s => do return (none, ← readWord nullTail s)
    | none => do
      let (a, rest) ← inner.read depth s
      return (some a, rest)
  | _, .list inner, depth, s =>
    match opening s with
    | .array s => do
      let depth ← enter s depth
      readItems .decoded (fun s => inner.read depth s) s
    | _ => .error (Found.refuse "a sequence" s)
  | _, .table inner, depth, s =>
    match opening s with
    | .object s => do
      let depth ← enter s depth
      readMembers .decoded Literal.read (readEntry fun s => inner.read depth s) .empty s
    | _ => .error (Found.refuse "a map" s)
  | _, .choice naming, depth, s => naming.read depth s
  | _, .record name fields as, depth, s =>
    match opening s with
    | .array s => do
      let depth ← enter s depth
      let (values, rest) ← fields.readItems (fields.counted name) depth 0 s
      return (as.build values, rest)
    | .object s => do
      let depth ← enter s depth
      let member name slots s := (fields.readMember? name slots depth s).getD do
        return (slots, ← Json.skip (← readColon s))
      let (slots, rest) ← readMembers .decoded Literal.read member fields.empty s
      let (values, rest) ← Fault.check rest (fields.collect slots)
      return (as.build values, rest)
    | .other s => .error (Found.refuse (Fields.described name) s)
  | _, .tagged name tag own as, depth, s =>
    match opening s with
    | .object s => do
      let depth ← enter s depth
      let member name seen s :=
        match own.readMember? name seen.1 depth s with
        | some result => result.map fun (slots, rest) => ((slots, seen.2), rest)
        | none =>
          (readMember (Json.readListed depth) name seen.2 s).map fun (others, rest) =>
            ((seen.1, others), rest)
      let (seen, rest) ← readMembers .decoded Literal.read member (own.empty, []) s
      Fault.check rest do
        let values ← own.collect seen.1
        let slots ← seen.2.reverse.foldlM
          (fun slots (name, value) => tag.put name value slots) tag.empty
        return as.build (← tag.collect slots, values)
    | _ => .error (Found.refuse (Fields.described name) s)

/-- The member whose name has just been read, into its slot, if it is one of the fields. -/
def Fields.readMember? : {σ γ : Type} → Fields σ γ → String → σ → Nat → Bytes →
    Option (Except Fault (σ × Bytes))
  | _, _, .nil, _, _, _, _ => none
  | _, _, .cons field _ shape rest, name, (slot, slots), depth, s =>
    if name = field then
      if slot.isSome then some (.error (.mismatch (.duplicateField field) (pastBrace s)))
      else some do
        let (value, s) ← shape.read depth (← readColon s)
        return ((some value, slots), s)
    else
      (rest.readMember? name slots depth s).map fun result =>
        result.map fun (slots, s) => ((slot, slots), s)

/-- The items of an array as the values of the fields, from number `index` of a record. -/
def Fields.readItems (expected : String) : {σ γ : Type} → Fields σ γ → Nat → Nat → Bytes →
    Except Fault (γ × Bytes)
  | _, _, .nil, _, _, s => do return ((), ← readBracket s)
  | _, _, .cons name presence shape rest, depth, index, s => do
    match ← nextItem .decoded (index = 0) s with
    | .closed s => Fault.check s ((Fields.cons name presence shape rest).defaults expected index)
    | .part s =>
      let (value, s) ← shape.read depth s
      let (values, s) ← rest.readItems expected depth (index + 1) s
      return ((value, values), s)

end

/-- The value that a whole document holds. -/
def Shape.readDocument {α : Type} (shape : Shape α) (document : Bytes) : Except Fault α := do
  let (a, rest) ← shape.read Json.maxDepth document
  readEnd rest
  return a

end Provisioning
