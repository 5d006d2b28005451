import Mathlib
import Provisioning.Json.Basic
import Provisioning.Proofs.Decimal.Notation

/-!
# Values that are equal

Values are compared part by part, and floating-point numbers as numbers (`Json.Alike`), so a zero is
equal to a zero of the other sign although the two have different texts. If zeros are told apart,
values that are equal are the same (`Json.eq_of_alike`).

What it means for two floating-point numbers to be equal is `Float.beq_iff_ne_nan_and_eq`, which
comes with the whole of Mathlib and with no single module of it.
-/

set_option autoImplicit false

namespace Provisioning

open Decimal (HasMinus)

/-- Two numbers are equal, and both of them or neither has a minus sign. -/
def EqualSigned (x y : Float) : Prop := x == y ∧ (HasMinus x ↔ HasMinus y)

/-- The zeros are the only numbers that are equal and not the same. -/
theorem eq_of_equalSigned {x y : Float} (h : EqualSigned x y) : x = y := by
  have hzero : ¬HasMinus 0 := by decide
  have hminus : HasMinus (-0) := by decide
  obtain ⟨hequal, hsign⟩ := h
  obtain ⟨-, -, rfl | ⟨rfl, rfl⟩ | ⟨rfl, rfl⟩⟩ := Float.beq_iff_ne_nan_and_eq.mp hequal
  · rfl
  · exact absurd (hsign.mpr hminus) hzero
  · exact absurd (hsign.mp hminus) hzero

/-- Lists are the same if nothing in the first is related to anything but itself. -/
theorem eq_of_forall₂ {α : Type} {R : α → α → Prop} {xs ys : List α} (h : List.Forall₂ R xs ys)
    (hR : ∀ x ∈ xs, ∀ y, R x y → x = y) : xs = ys := by
  induction h with
  | nil => rfl
  | cons hxy _ ih =>
    obtain ⟨hx, hxs⟩ := List.forall_mem_cons.mp hR
    rw [hx _ hxy, ih hxs]

namespace Json

mutual

/-- Two values have one form and the same leaves, but for floating-point numbers that are related
instead. -/
inductive Alike (R : Float → Float → Prop) : Json → Json → Prop where
  | scalar (value : Scalar) : Alike R (.scalar value) (.scalar value)
  | float {x y : Float} (h : R x y) : Alike R (.scalar (.float x)) (.scalar (.float y))
  | array {items items' : List Json} (h : List.Forall₂ (Alike R) items items') :
      Alike R (.array items) (.array items')
  | object {members members' : List (String × Json)}
      (h : List.Forall₂ (AlikeMember R) members members') :
      Alike R (.object members) (.object members')

inductive AlikeMember (R : Float → Float → Prop) : String × Json → String × Json → Prop where
  | mk (name : String) {value value' : Json} (h : Alike R value value') :
      AlikeMember R (name, value) (name, value')

end

variable {R : Float → Float → Prop} {value value' : Json}

theorem eq_of_alike (hR : ∀ x y, R x y → x = y) (h : Alike R value value') : value = value' := by
  induction value generalizing value' with
  | scalar value =>
    cases h with
    | scalar _ => rfl
    | float h => rw [hR _ _ h]
  | array items ih =>
    cases h with
    | array h => rw [eq_of_forall₂ h fun item hitem _ => ih item hitem]
  | object members ih =>
    cases h with
    | object h =>
      refine congrArg object (eq_of_forall₂ h ?_)
      intro m hm m' hm'
      cases hm' with
      | mk name h => exact congrArg (name, ·) (ih _ hm h)

/-- Equal values are the same if their zeros have one sign. -/
theorem eq_of_rel_equalSigned {value? value'? : Option Json}
    (h : Option.Rel (Alike EqualSigned) value? value'?) : value? = value'? := by
  cases h with
  | none => rfl
  | some h => rw [eq_of_alike (fun _ _ => eq_of_equalSigned) h]

theorem alike_refl (R : Float → Float → Prop) (value : Json) : Alike R value value := by
  induction value with
  | scalar value => exact .scalar value
  | array items ih => exact .array (List.forall₂_same.mpr ih)
  | object members ih => exact .object (List.forall₂_same.mpr fun m hm => .mk m.1 (ih m hm))

theorem rel_alike_refl (R : Float → Float → Prop) (value? : Option Json) :
    Option.Rel (Alike R) value? value? := by
  cases value? with
  | none => exact .none
  | some value => exact .some (alike_refl R value)

end Json

end Provisioning
