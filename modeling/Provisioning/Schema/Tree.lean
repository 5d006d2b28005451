import Provisioning.Json.Emission
import Provisioning.Schema.Shape

/-!
# Shapes and trees

Writing turns a value into a `Json` with the members in declared order (`Shape.toJson`), and
`Shape.ofJson` goes back. It does not need the declared order: it takes the members as the value
lists them and puts each into its slot, so it is also the meaning of a document whose text has
already been taken apart, whatever the order of its members. A repeated field is refused; a tree
has none.

A record is also accepted as the array of its fields. It may be too short if what is missing has a
meaning when absent, and it may not be too long.
-/

set_option autoImplicit false

namespace Provisioning

/-! ## Writing -/

mutual

def Shape.toJson : {α : Type} → Shape α → α → Json
  | _, .leaf leaf, a => .scalar (leaf.give a)
  | _, .tree, value => value
  | _, .optional _, none => .null
  | _, .optional inner, some a => inner.toJson a
  | _, .list inner, items => .array (items.map fun a => inner.toJson a)
  | _, .table inner, t => .ofTable (t.map fun a => inner.toJson a)
  | _, .choice naming, a => .string (naming.name a)
  | _, .record _ fields as, a => .object (fields.members (as.parts a))
  | _, .tagged _ tag own as, a =>
    .object (tag.members (as.parts a).1 ++ own.members (as.parts a).2)

def Fields.members : {σ γ : Type} → Fields σ γ → γ → List (String × Json)
  | _, _, .nil, () => []
  | _, _, .cons name presence shape rest, (value, values) =>
    if presence.omits value then rest.members values
    else (name, shape.toJson value) :: rest.members values

end

/-- The tree of a value, made from what is told of it. -/
def Shape.toTree {α : Type} (shape : Shape α) (a : α) : Except Unwritable Json :=
  (shape.toJson a).emission.toTree

/-- The compact text of a value. -/
def Shape.write {α : Type} (shape : Shape α) (a : α) : String := (shape.toJson a).text

/-! ## Reading a tree -/

mutual

def Shape.ofJson : {α : Type} → Shape α → Json → Except Mismatch α
  | _, .leaf leaf, value => leaf.accept value.found
  | _, .tree, value => .ok value.tree
  | _, .optional inner, value =>
    match value with
    | .null => .ok none
    | value => do return some (← inner.ofJson value)
  | _, .list inner, value =>
    match value with
    | .array items => items.mapM fun item => inner.ofJson item
    | value => .error (.wrongType value.found "a sequence")
  | _, .table inner, value =>
    match value with
    | .object members =>
      members.foldlM (fun t (name, value) => do return t.insert name (← inner.ofJson value)) .empty
    | value => .error (.wrongType value.found "a map")
  | _, .choice naming, value =>
    match value with
    | .string name => naming.accept name
    | .object [(name, value)] => do
      let a ← naming.accept name
      Leaf.unit.accept value.found
      return a
    | .object _ => .error (.wrongValue .map "map with a single key")
    | value => .error (.wrongType value.found "string or map")
  | _, .record name fields as, value =>
    match value with
    | .array items => do
      let (values, left) ← fields.ofItems (fields.counted name) 0 items
      match left with
      | [] => return as.build values
      | _ => throw (.wrongLength items.length "fewer elements in array")
    | .object members => do
      let slots ←
        members.foldlM (fun slots (name, value) => fields.put name value slots) fields.empty
      return as.build (← fields.collect slots)
    | value => .error (.wrongType value.found (Fields.described name))
  | _, .tagged name tag own as, value =>
    match value with
    | .object members => do
      let slots ← members.foldlM (fun slots (name, value) => own.put name value slots) own.empty
      let values ← own.collect slots
      let others := members.filter fun (name, _) => name ∉ own.names
      let slots ← others.foldlM (fun slots (name, value) => tag.put name value slots) tag.empty
      return as.build (← tag.collect slots, values)
    | value => .error (.wrongType value.found (Fields.described name))

/-- Puts a member into its slot, if it is one of the fields. -/
def Fields.put : {σ γ : Type} → Fields σ γ → String → Json → σ → Except Mismatch σ
  | _, _, .nil, _, _, () => .ok ()
  | _, _, .cons field _ shape rest, name, value, (slot, slots) =>
    if name = field then
      if slot.isSome then .error (.duplicateField field)
      else do return (some (← shape.ofJson value), slots)
    else do return (slot, ← rest.put name value slots)

/-- The values of the fields in order, from number `index` of a record, and the items left over. -/
def Fields.ofItems (expected : String) : {σ γ : Type} → Fields σ γ → Nat → List Json →
    Except Mismatch (γ × List Json)
  | _, _, .nil, _, items => .ok ((), items)
  | _, _, .cons name presence shape rest, index, [] => do
    return (← (Fields.cons name presence shape rest).defaults expected index, [])
  | _, _, .cons _ _ shape rest, index, item :: items => do
    let value ← shape.ofJson item
    let (values, left) ← rest.ofItems expected (index + 1) items
    return ((value, values), left)

end

/-- Whatever is not `null` is a value. -/
theorem Shape.ofJson_optional {α : Type} {inner : Shape α} {value : Json} (h : value ≠ .null) :
    inner.optional.ofJson value = (do return some (← inner.ofJson value)) := by
  rw [Shape.ofJson]
  exact h

end Provisioning
