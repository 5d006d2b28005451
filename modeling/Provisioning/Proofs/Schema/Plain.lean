import Provisioning.Proofs.Json.Emission
import Provisioning.Proofs.Schema.RoundTrip

/-!
# Shapes of which every value is kept

A value comes back from its text unless something about it stands in the way: a tree that it holds,
a number that has no exact text, or too many containers. Of most shapes no value can have any of
these, and that can be seen from the shape (`Shape.Plain`), so that every value of it makes the
round trip (`Shape.Plain.decode_write`).
-/

set_option autoImplicit false

namespace Provisioning

open Json

/-! ## Plain shapes -/

mutual

/-- No value of the shape holds a tree or a floating-point number, is written with more than `n`
containers open, or is taken for another one. -/
def Shape.Plain : {α : Type} → Shape α → Nat → Prop
  | _, .leaf leaf, _ => ∀ a, NoFloat (.scalar (leaf.give a))
  | _, .tree, _ => False
  | _, .optional inner, n => (∀ a, inner.toJson a ≠ .null) ∧ inner.Plain n
  | _, .list inner, n => 0 < n ∧ inner.Plain (n - 1)
  | _, .table inner, n => 0 < n ∧ inner.Plain (n - 1)
  | _, .choice _, _ => True
  | _, .record _ fields _, n => 0 < n ∧ fields.names.Nodup ∧ fields.Plain (n - 1)
  | _, .tagged _ tag own _, n =>
    0 < n ∧ (tag.names ++ own.names).Nodup ∧ tag.Plain (n - 1) ∧ own.Plain (n - 1)

def Fields.Plain : {σ γ : Type} → Fields σ γ → Nat → Prop
  | _, _, .nil, _ => True
  | _, _, .cons _ _ shape rest, n => shape.Plain n ∧ rest.Plain n

end

/-- What is written has an exact text and no more than `n` containers open. -/
def Json.Small (n : Nat) (value : Json) : Prop := value.Exact ∧ value.depth ≤ n

theorem Json.small_scalar {n : Nat} {value : Scalar} (h : NoFloat (.scalar value)) :
    (Json.scalar value).Small n :=
  ⟨everywhere_scalar.mpr h, by simp⟩

theorem Json.small_array {n : Nat} (hn : 0 < n) {items : List Json}
    (h : ∀ item ∈ items, item.Small (n - 1)) : (Json.array items).Small n := by
  obtain ⟨n, rfl⟩ := Nat.exists_eq_add_one.mpr hn
  exact ⟨everywhere_array.mpr ⟨trivial, fun item hitem => (h item hitem).1⟩,
    depth_array_le.mpr fun item hitem => (h item hitem).2⟩

theorem Json.small_object {n : Nat} (hn : 0 < n) {members : List (String × Json)}
    (h : ∀ m ∈ members, m.2.Small (n - 1)) : (Json.object members).Small n := by
  obtain ⟨n, rfl⟩ := Nat.exists_eq_add_one.mpr hn
  exact ⟨everywhere_object.mpr ⟨trivial, fun m hm => (h m hm).1⟩,
    depth_object_le.mpr fun m hm => (h m hm).2⟩

mutual

theorem Shape.Plain.small : {α : Type} → {shape : Shape α} → {n : Nat} → shape.Plain n →
    {a : α} → {value : Json} → shape.Spells a value → value.Small n
  | _, .leaf _, _, h, a, _, hs => by
    cases hs
    exact small_scalar (h a)
  | _, .optional _, _, _, none, _, hs => by
    cases hs
    exact small_scalar trivial
  | _, .optional _, _, h, some _, _, hs => h.2.small hs
  | _, .list _, _, h, _, _, hs => by
    obtain ⟨xs, rfl, hs⟩ := hs
    refine small_array h.1 ?_
    intro x hx
    obtain ⟨a, -, hax⟩ := exists_of_mem_right hs hx
    exact h.2.small hax
  | _, .table _, _, h, _, _, hs => by
    obtain ⟨ms, rfl, hs⟩ := hs
    refine small_object h.1 ?_
    intro m hm
    obtain ⟨e, -, -, hem⟩ := exists_of_mem_right hs hm
    exact h.2.small hem
  | _, .choice _, _, _, _, _, hs => by
    cases hs
    exact small_scalar trivial
  | _, .record _ _ _, _, h, _, _, hs => by
    obtain ⟨ms, rfl, hs⟩ | ⟨xs, rfl, hs⟩ := hs
    · exact small_object h.1 (h.2.2.small_members hs)
    · exact small_array h.1 (h.2.2.small_items hs)
  | _, .tagged _ _ _ _, _, h, _, _, hs => by
    obtain ⟨ms, ns, rfl, hms, hns⟩ := hs
    refine small_object h.1 ?_
    intro m hm
    rcases List.mem_append.mp hm with hm | hm
    · exact h.2.2.1.small_members hms m hm
    · exact h.2.2.2.small_members hns m hm

theorem Fields.Plain.small_members : {σ γ : Type} → {fields : Fields σ γ} → {n : Nat} →
    fields.Plain n → {values : γ} → {ms : List (String × Json)} →
    fields.SpelledByName values ms → ∀ m ∈ ms, m.2.Small n
  | _, _, .nil, _, _, (), _, hs => by
    cases hs
    exact nofun
  | _, _, .cons _ _ _ _, _, h, (_, _), _, hs => by
    obtain ⟨-, hs⟩ | ⟨x, ns, rfl, hx, hs⟩ := hs
    · exact h.2.small_members hs
    · exact List.forall_mem_cons.mpr ⟨h.1.small hx, h.2.small_members hs⟩

theorem Fields.Plain.small_items : {σ γ : Type} → {fields : Fields σ γ} → {n : Nat} →
    fields.Plain n → {values : γ} → {xs : List Json} → fields.SpelledInOrder values xs →
    ∀ x ∈ xs, x.Small n
  | _, _, .nil, _, _, (), _, hs => by
    cases hs
    exact nofun
  | _, _, .cons _ _ _ _, _, h, (_, _), _, hs => by
    obtain ⟨rfl, -⟩ | ⟨x, ys, rfl, hx, hs⟩ := hs
    · exact nofun
    · exact List.forall_mem_cons.mpr ⟨h.1.small hx, h.2.small_items hs⟩

end

mutual

theorem Shape.Plain.recovers : {α : Type} → {shape : Shape α} → {n : Nat} → shape.Plain n →
    (a : α) → shape.Recovers a
  | _, .leaf _, _, _, _ => trivial
  | _, .optional _, _, _, none => trivial
  | _, .optional _, _, h, some a => ⟨h.1 a, h.2.recovers a⟩
  | _, .list _, _, h, _ => fun a _ => h.2.recovers a
  | _, .table _, _, h, _ => fun e _ => h.2.recovers e.2
  | _, .choice _, _, _, _ => trivial
  | _, .record _ _ as, _, h, a => ⟨h.2.1, h.2.2.recovers (as.parts a)⟩
  | _, .tagged _ _ _ _, _, h, _ => ⟨h.2.1, h.2.2.1.recovers _, h.2.2.2.recovers _⟩

theorem Fields.Plain.recovers : {σ γ : Type} → {fields : Fields σ γ} → {n : Nat} →
    fields.Plain n → (values : γ) → fields.Recovers values
  | _, _, .nil, _, _, () => trivial
  | _, _, .cons _ _ _ _, _, h, (value, values) => ⟨h.1.recovers value, h.2.recovers values⟩

end

/-- However a value of a plain shape is written, there is a text of it. -/
theorem Shape.Plain.lists_of_spells {α : Type} {shape : Shape α} (h : shape.Plain maxDepth) {a : α}
    {value : Json} (hs : shape.Spells a value) : Lists (Utf8.encode value.text) value :=
  lists_text (h.small hs).1 (h.small hs).2

/-- Every value of a plain shape has a text, which lists what is written of it. -/
theorem Shape.Plain.lists_write {α : Type} {shape : Shape α} (h : shape.Plain maxDepth) (a : α) :
    Lists (Utf8.encode (shape.write a)) (shape.toJson a) :=
  h.lists_of_spells (h.recovers a).spells_toJson

/-- Every value of a plain shape has a tree, which is the one of what is written of it. -/
theorem Shape.Plain.toTree_eq {α : Type} {shape : Shape α} {n : Nat} (h : shape.Plain n) (a : α) :
    shape.toTree a = .ok (shape.toJson a).tree :=
  toTree_emission (h.small (h.recovers a).spells_toJson).1

/-- Every value of a plain shape comes back from the text that is written of it. -/
theorem Shape.Plain.decode_write {α : Type} {shape : Shape α} (h : shape.Plain maxDepth) (a : α) :
    shape.decode (Utf8.encode (shape.write a)) = .ok a :=
  shape.decode_of_spells (h.recovers a).spells_toJson (h.recovers a).evident (h.lists_write a)

end Provisioning
