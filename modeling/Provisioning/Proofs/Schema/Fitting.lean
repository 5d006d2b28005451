import Provisioning.Proofs.Json.Listing
import Provisioning.Schema.Tree

/-!
# How deep a value may be for a shape

A reader counts the containers that are open, but not in what it passes over: there any depth will
do. So whether a value is too deep is a question about the shape as well (`Shape.fits`), and a value
that is accepted has to fit and to be of the shape (`Shape.within?`). What can be listed within a
depth fits every shape within it.
-/

set_option autoImplicit false

namespace Provisioning

open Json

/-- There is room for one container more, and what stands in it fits into the room that is left. -/
def room : Nat → (Nat → Bool) → Bool
  | 0, _ => false
  | depth + 1, fits => fits depth

mutual

/-- No more than `depth` containers are open at once in what the shape looks at. -/
def Shape.fits : {α : Type} → Shape α → Nat → Json → Bool
  | _, .leaf _, _, _ => true
  | _, .tree, depth, value => value.depth ≤ depth
  | _, .optional inner, depth, value => inner.fits depth value
  | _, .list inner, depth, value =>
    match value with
    | .array items => room depth fun depth => items.all fun item => inner.fits depth item
    | _ => true
  | _, .table inner, depth, value =>
    match value with
    | .object members => room depth fun depth => members.all fun m => inner.fits depth m.2
    | _ => true
  | _, .choice _, depth, value =>
    match value with
    | .object _ => room depth fun _ => true
    | _ => true
  | _, .record _ fields _, depth, value =>
    match value with
    | .array items => room depth fun depth => fields.fitsItems depth items
    | .object members =>
      room depth fun depth =>
        members.all fun m => fields.fitsMember (fun _ => true) depth m.1 m.2
    | .scalar _ => true
  | _, .tagged _ _ own _, depth, value =>
    match value with
    | .object members =>
      room depth fun depth =>
        members.all fun m => own.fitsMember (fun value => value.depth ≤ depth) depth m.1 m.2
    | _ => true

/-- The same for the member of this name. What is no field is left to `other`. -/
def Fields.fitsMember (other : Json → Bool) : {σ γ : Type} → Fields σ γ → Nat → String → Json → Bool
  | _, _, .nil, _, _, value => other value
  | _, _, .cons field _ shape rest, depth, name, value =>
    if name = field then shape.fits depth value else rest.fitsMember other depth name value

/-- The same for the items of a record, as far as there are fields for them. -/
def Fields.fitsItems : {σ γ : Type} → Fields σ γ → Nat → List Json → Bool
  | _, _, .cons _ _ shape rest, depth, x :: xs => shape.fits depth x && rest.fitsItems depth xs
  | _, _, _, _, _ => true

end

/-- What the shape makes of a value, unless that is too deep for it. -/
def Shape.within? {α : Type} (shape : Shape α) (depth : Nat) (value : Json) : Option α :=
  if shape.fits depth value then (shape.ofJson value).toOption else none

namespace Shape

/-- A value without parts is never too deep. -/
theorem fits_scalar (depth : Nat) (x : Scalar) : {α : Type} → (shape : Shape α) →
    shape.fits depth (.scalar x) = true
  | _, .leaf _ => by simp [fits]
  | _, .tree => by simp [fits]
  | _, .optional inner => by rw [fits, fits_scalar depth x inner]
  | _, .list _ => by simp [fits]
  | _, .table _ => by simp [fits]
  | _, .choice _ => by simp [fits]
  | _, .record _ _ _ => by simp [fits]
  | _, .tagged _ _ _ _ => by simp [fits]

end Shape

mutual

/-- What can be kept within a depth fits every shape within it. -/
theorem Shape.fits_of_depth_le : {α : Type} → (shape : Shape α) → {depth : Nat} → {value : Json} →
    value.depth ≤ depth → shape.fits depth value = true
  | _, .leaf _, _, _, _ => by simp [Shape.fits]
  | _, .tree, _, _, h => by simpa [Shape.fits] using h
  | _, .optional inner, _, _, h => by rw [Shape.fits, inner.fits_of_depth_le h]
  | _, .list inner, depth, value, h => by
    cases value with
    | array items =>
      obtain ⟨depth, rfl, hitems⟩ := exists_of_depth_array_le h
      simpa [Shape.fits, room] using fun item hitem => inner.fits_of_depth_le (hitems item hitem)
    | _ => simp [Shape.fits]
  | _, .table inner, depth, value, h => by
    cases value with
    | object members =>
      obtain ⟨depth, rfl, hmembers⟩ := exists_of_depth_object_le h
      simpa [Shape.fits, room] using fun name x hx => inner.fits_of_depth_le (hmembers (name, x) hx)
    | _ => simp [Shape.fits]
  | _, .choice _, depth, value, h => by
    cases value with
    | object members =>
      obtain ⟨depth, rfl, -⟩ := exists_of_depth_object_le h
      simp [Shape.fits, room]
    | _ => simp [Shape.fits]
  | _, .record _ fields _, depth, value, h => by
    cases value with
    | array items =>
      obtain ⟨depth, rfl, hitems⟩ := exists_of_depth_array_le h
      simpa [Shape.fits, room] using fields.fitsItems_of_depth_le hitems
    | object members =>
      obtain ⟨depth, rfl, hmembers⟩ := exists_of_depth_object_le h
      simpa [Shape.fits, room] using fun name x hx =>
        fields.fitsMember_of_depth_le rfl (hmembers (name, x) hx)
    | scalar x => exact Shape.fits_scalar depth x _
  | _, .tagged _ _ own _, depth, value, h => by
    cases value with
    | object members =>
      obtain ⟨depth, rfl, hmembers⟩ := exists_of_depth_object_le h
      simpa [Shape.fits, room] using fun name x hx =>
        own.fitsMember_of_depth_le (by simpa using hmembers (name, x) hx) (hmembers (name, x) hx)
    | _ => simp [Shape.fits]

theorem Fields.fitsMember_of_depth_le {other : Json → Bool} {name : String} {depth : Nat}
    {value : Json} (hother : other value = true) (h : value.depth ≤ depth) : {σ γ : Type} →
    (fields : Fields σ γ) → fields.fitsMember other depth name value = true
  | _, _, .nil => by rw [Fields.fitsMember, hother]
  | _, _, .cons field _ shape rest => by
    rw [Fields.fitsMember]
    split
    · exact shape.fits_of_depth_le h
    · exact rest.fitsMember_of_depth_le hother h

theorem Fields.fitsItems_of_depth_le {depth : Nat} : {σ γ : Type} → (fields : Fields σ γ) →
    {items : List Json} → (∀ item ∈ items, item.depth ≤ depth) → fields.fitsItems depth items = true
  | _, _, .nil, _, _ => by simp [Fields.fitsItems]
  | _, _, .cons _ _ _ _, [], _ => by simp [Fields.fitsItems]
  | _, _, .cons _ _ shape rest, x :: xs, h => by
    obtain ⟨hx, hxs⟩ := List.forall_mem_cons.mp h
    rw [Fields.fitsItems, shape.fits_of_depth_le hx, rest.fitsItems_of_depth_le hxs]
    rfl

end

theorem Shape.within?_of_depth_le {α : Type} (shape : Shape α) {depth : Nat} {value : Json}
    (h : value.depth ≤ depth) : shape.within? depth value = (shape.ofJson value).toOption := by
  rw [within?, if_pos (shape.fits_of_depth_le h)]

theorem Fields.fitsItems_nil (depth : Nat) (items : List Json) :
    Fields.nil.fitsItems depth items = true := by
  cases items <;> simp [Fields.fitsItems]

/-- What is no field is left to `other`. -/
theorem Fields.fitsMember_of_not_mem {other : Json → Bool} {depth : Nat} {name : String}
    {value : Json} : {σ γ : Type} → {fields : Fields σ γ} → name ∉ fields.names →
    fields.fitsMember other depth name value = other value
  | _, _, .nil, _ => by rw [Fields.fitsMember]
  | _, _, .cons field _ _ rest, h => by
    simp only [names, List.mem_cons, not_or] at h
    rw [Fields.fitsMember, if_neg h.1, rest.fitsMember_of_not_mem h.2]

@[simp] theorem Shape.within?_scalar {α : Type} (shape : Shape α) (depth : Nat) (x : Scalar) :
    shape.within? depth (.scalar x) = (shape.ofJson (.scalar x)).toOption := by
  rw [within?, if_pos (shape.fits_scalar depth x)]

end Provisioning
