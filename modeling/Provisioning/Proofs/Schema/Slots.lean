import Provisioning.Schema.Tree
import Provisioning.Proofs.Members
import Provisioning.Proofs.Outcome

/-!
# A record, field by field

A record is read member by member: each member goes into the slot of its name, a second one of the
name is refused, and at the end the slots are emptied in declared order. What the record *means* is
said field by field: a field has the value of the one member of its name, or its default if there is
none (`Fields.gather?`). The two accept the same members and answer the same values
(`Fields.toOption_collect_foldlM_put`), and nothing else in the development looks at slots.

Read field by field, the order of the members and the members of other names plainly do not matter.
-/

set_option autoImplicit false

namespace Provisioning

/-! ## One field -/

/-- What is in a slot once the members of its field have been put there: a second one does not
fit, whatever its value. -/
def Shape.fill? {α : Type} (shape : Shape α) : Option α → List (String × Json) → Option (Option α)
  | slot, [] => some slot
  | some _, _ :: _ => none
  | none, (_, value) :: members => do shape.fill? (some (← (shape.ofJson value).toOption)) members

/-- The value of a field with the given members. -/
def Presence.value? {α : Type} (presence : Presence α) (shape : Shape α) :
    List (String × Json) → Option α
  | [] => presence.absent?
  | [(_, value)] => (shape.ofJson value).toOption
  | _ :: _ :: _ => none

/-- A slot that was empty at first holds the value of its field, unless that is absent. -/
theorem Shape.bind_fill? {α β : Type} (shape : Shape α) (presence : Presence α)
    (members : List (String × Json)) (f : α → Option β) :
    ((shape.fill? none members).bind fun slot => (slot.or presence.absent?).bind f) =
      (presence.value? shape members).bind f := by
  match members with
  | [] => rfl
  | [(_, value)] => cases h : (shape.ofJson value).toOption <;> simp [fill?, Presence.value?, h]
  | (_, value) :: _ :: _ =>
    cases h : (shape.ofJson value).toOption <;> simp [fill?, Presence.value?, h]

/-! ## All fields -/

namespace Fields

/-- What is in the slots once all members have been put there. -/
def fill? : {σ γ : Type} → Fields σ γ → σ → List (String × Json) → Option σ
  | _, _, nil, (), _ => some ()
  | _, _, cons name _ shape rest, (slot, slots), members => do
    return (← shape.fill? slot (named name members), ← rest.fill? slots (unnamed name members))

/-- The values of the fields, each looked up among the members. -/
def gather? : {σ γ : Type} → Fields σ γ → List (String × Json) → Option γ
  | _, _, nil, _ => some ()
  | _, _, cons name presence shape rest, members => do
    return (← presence.value? shape (named name members), ← rest.gather? (unnamed name members))

@[simp] theorem fill?_nil : {σ γ : Type} → (fields : Fields σ γ) → (slots : σ) →
    fields.fill? slots [] = some slots
  | _, _, nil, () => rfl
  | _, _, cons _ _ _ rest, (slot, slots) => by
    simp [fill?, named, unnamed, Shape.fill?, fill?_nil rest slots]

/-- One member goes into the slots before the others do. -/
theorem fill?_cons : {σ γ : Type} → (fields : Fields σ γ) → (slots : σ) → (name : String) →
    (value : Json) → (members : List (String × Json)) →
    fields.fill? slots ((name, value) :: members) =
      (fields.put name value slots).toOption.bind fun slots => fields.fill? slots members
  | _, _, nil, (), _, _, _ => rfl
  | _, _, cons field presence shape rest, (slot, slots), name, value, members => by
    by_cases h : name = field
    · subst h
      simp only [fill?, put, named_cons_self, unnamed_cons_self, if_true]
      cases slot with
      | some a => rfl
      | none =>
        simp only [Shape.fill?]
        cases shape.ofJson value <;> rfl
    · simp only [fill?, put, named_cons_of_ne h, unnamed_cons_of_ne h, if_neg h,
        fill?_cons rest slots name value]
      cases rest.put name value slots with
      | error why => cases shape.fill? slot (named field members) <;> rfl
      | ok slots' => rfl

/-- Putting the members in one by one fills the slots. -/
theorem toOption_foldlM_put {σ γ : Type} (fields : Fields σ γ) (slots : σ)
    (members : List (String × Json)) :
    (members.foldlM (fun slots (name, value) => fields.put name value slots) slots).toOption =
      fields.fill? slots members := by
  induction members generalizing slots with
  | nil => exact (fill?_nil fields slots).symm
  | cons m members ih =>
    obtain ⟨name, value⟩ := m
    rw [List.foldlM_cons, Except.toOption_bind, fill?_cons]
    simp only [ih]

theorem toOption_collect_cons {β σ γ : Type} (name : String) (presence : Presence β)
    (shape : Shape β) (rest : Fields σ γ) (slot : Option β) (slots : σ) :
    ((cons name presence shape rest).collect (slot, slots)).toOption =
      (slot.or presence.absent?).bind fun value =>
        (rest.collect slots).toOption.bind fun values => some (value, values) := by
  rw [collect]
  cases slot.or presence.absent? with
  | none => rfl
  | some value => cases rest.collect slots <;> rfl

/-- Emptying the slots in declared order answers the value of each field. -/
theorem toOption_collect_fill? : {σ γ : Type} → (fields : Fields σ γ) →
    (members : List (String × Json)) →
    ((fields.fill? fields.empty members).bind fun slots => (fields.collect slots).toOption) =
      fields.gather? members
  | _, _, nil, _ => rfl
  | _, _, cons name presence shape rest, members => by
    have ih := toOption_collect_fill? rest (unnamed name members)
    simp only [fill?, gather?, empty, ← ih]
    cases rest.fill? rest.empty (unnamed name members) with
    | none => simp
    | some slots =>
      have hfield := shape.bind_fill? presence (named name members) fun value =>
        (rest.collect slots).toOption.bind fun values => some (value, values)
      simpa [toOption_collect_cons, Option.bind_assoc] using hfield

/-- A record is read member by member and means what it means field by field. -/
theorem toOption_collect_foldlM_put {σ γ : Type} (fields : Fields σ γ)
    (members : List (String × Json)) :
    (do
      let slots ← members.foldlM
        (fun slots (name, value) => fields.put name value slots) fields.empty
      fields.collect slots).toOption = fields.gather? members := by
  rw [Except.toOption_bind, toOption_foldlM_put, toOption_collect_fill?]

/-- The fields only look at members of their names. -/
theorem gather?_congr : {σ γ : Type} → (fields : Fields σ γ) → {ms ns : List (String × Json)} →
    (∀ n ∈ fields.names, named n ms = named n ns) → fields.gather? ms = fields.gather? ns
  | _, _, nil, _, _, _ => rfl
  | _, _, cons name presence shape rest, ms, ns, h => by
    obtain ⟨hname, hnames⟩ := List.forall_mem_cons.mp h
    have hrest : rest.gather? (unnamed name ms) = rest.gather? (unnamed name ns) := by
      refine gather?_congr rest fun n hn => ?_
      rw [named_unnamed, named_unnamed, hnames n hn]
    rw [gather?, gather?, hname, hrest]

end Fields

/-! ## Objects -/

namespace Shape

variable {α σ γ τ δ : Type}

theorem toOption_ofJson_record (name : String) (fields : Fields σ γ) (as : Assembly γ α)
    (members : List (String × Json)) :
    ((record name fields as).ofJson (.object members)).toOption =
      (fields.gather? members).map as.build := by
  rw [← Fields.toOption_collect_foldlM_put]
  simp [Shape.ofJson, Option.bind_assoc, Option.map_eq_bind]

/-- The fields of the tag are looked up among the members that are no fields of the record's own. -/
theorem toOption_ofJson_tagged (name : String) (tag : Fields σ γ) (own : Fields τ δ)
    (as : Assembly (γ × δ) α) (members : List (String × Json)) :
    ((tagged name tag own as).ofJson (.object members)).toOption =
      (own.gather? members).bind fun values =>
        (tag.gather? (members.filter fun m => m.1 ∉ own.names)).map fun tags =>
          as.build (tags, values) := by
  rw [← Fields.toOption_collect_foldlM_put, ← Fields.toOption_collect_foldlM_put]
  simp [Shape.ofJson, Option.bind_assoc, Option.map_eq_bind]

/-- A table has the last value of each name, and every value, last or not, has to be of its
shape. -/
theorem ofJson_table_eq_ok_iff {inner : Shape α} {members : List (String × Json)} {t : Table α} :
    inner.table.ofJson (.object members) = .ok t ↔
      (∀ m ∈ members, ∃ a, inner.ofJson m.2 = .ok a) ∧
        ∀ name, t.get? name =
          (last? name members).bind fun value => (inner.ofJson value).toOption := by
  rw [← Except.toOption_eq_some_iff, Shape.ofJson, toOption_foldlM]
  simpa [Option.isSome_iff_exists, Except.toOption_eq_some_iff] using
    Table.foldlM_insert_eq_some_iff (fun value => (inner.ofJson value).toOption) members .empty t

end Shape

end Provisioning
