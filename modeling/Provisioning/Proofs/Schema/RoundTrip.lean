import Provisioning.Proofs.Json.Written
import Provisioning.Proofs.Schema.Positional
import Provisioning.Proofs.Schema.Settling

/-!
# What is written is read back

`Shape.toJson` and `Shape.ofJson` follow the shape in opposite directions, and a value comes back
from what is written of it (`Shape.ofJson_toJson`), which is one of the ways of writing it that the
reader knows (`Shape.Recovers.spells_toJson`). Three things could get lost on the way, and
`Shape.Recovers` excludes them: a field would be mistaken for another of its name, a value that is
written as `null` would be taken for an absent one, and a tree that repeats a name would lose a
member.

Together with the round trip of the text itself this is the round trip of documents
(`Shape.decode_write`).
-/

set_option autoImplicit false

namespace Provisioning

open Json

/-! ## What comes back -/

mutual

/-- Nothing of the value gets lost when it is written. -/
def Shape.Recovers : {α : Type} → Shape α → α → Prop
  | _, .leaf _, _ => True
  | _, .tree, value => value.tree = value
  | _, .optional _, none => True
  | _, .optional inner, some a => inner.toJson a ≠ .null ∧ inner.Recovers a
  | _, .list inner, items => ∀ a ∈ items, inner.Recovers a
  | _, .table inner, t => ∀ e ∈ t.entries, inner.Recovers e.2
  | _, .choice _, _ => True
  | _, .record _ fields as, a => fields.names.Nodup ∧ fields.Recovers (as.parts a)
  | _, .tagged _ tag own as, a =>
    (tag.names ++ own.names).Nodup ∧ tag.Recovers (as.parts a).1 ∧ own.Recovers (as.parts a).2

def Fields.Recovers : {σ γ : Type} → Fields σ γ → γ → Prop
  | _, _, .nil, () => True
  | _, _, .cons _ _ shape rest, (value, values) => shape.Recovers value ∧ rest.Recovers values

end

mutual

/-- A value of which nothing gets lost can be told from others. -/
theorem Shape.Recovers.evident : {α : Type} → {shape : Shape α} → {a : α} → shape.Recovers a →
    shape.Evident a
  | _, .leaf _, _, _ => trivial
  | _, .tree, _, _ => trivial
  | _, .optional _, none, _ => trivial
  | _, .optional _, some _, h => ⟨h.1, h.2.evident⟩
  | _, .list _, _, h => fun a ha => (h a ha).evident
  | _, .table _, _, h => fun e he => (h e he).evident
  | _, .choice _, _, _ => trivial
  | _, .record _ _ _, _, h => ⟨h.1, h.2.evident⟩
  | _, .tagged _ _ _ _, _, h => ⟨h.1, h.2.1.evident, h.2.2.evident⟩

theorem Fields.Recovers.evident : {σ γ : Type} → {fields : Fields σ γ} → {values : γ} →
    fields.Recovers values → fields.Evident values
  | _, _, .nil, (), _ => trivial
  | _, _, .cons _ _ _ _, (_, _), h => ⟨h.1.evident, h.2.evident⟩

end

mutual

/-- What is written of a value is one of the ways of writing it. -/
theorem Shape.Recovers.spells_toJson : {α : Type} → {shape : Shape α} → {a : α} →
    shape.Recovers a → shape.Spells a (shape.toJson a)
  | _, .leaf _, _, _ => rfl
  | _, .tree, _, h => h
  | _, .optional _, none, _ => rfl
  | _, .optional _, some _, h => h.2.spells_toJson
  | _, .list _, _, h =>
    ⟨_, rfl, List.forall₂_map_right_iff.mpr
      (List.forall₂_same.mpr fun a ha => (h a ha).spells_toJson)⟩
  | _, .table _, _, h =>
    ⟨_, rfl, List.forall₂_map_right_iff.mpr
      (List.forall₂_same.mpr fun e he => ⟨rfl, (h e he).spells_toJson⟩)⟩
  | _, .choice _, _, _ => rfl
  | _, .record _ _ _, _, h => .inl ⟨_, rfl, h.2.spelledByName_members⟩
  | _, .tagged _ _ _ _, _, h =>
    ⟨_, _, rfl, h.2.1.spelledByName_members, h.2.2.spelledByName_members⟩

theorem Fields.Recovers.spelledByName_members : {σ γ : Type} → {fields : Fields σ γ} →
    {values : γ} → fields.Recovers values → fields.SpelledByName values (fields.members values)
  | _, _, .nil, (), _ => rfl
  | _, _, .cons _ presence _ _, (value, _), h => by
    rw [Fields.members]
    split
    · next homits =>
      exact .inl ⟨presence.absent_of_omits value homits, h.2.spelledByName_members⟩
    · exact .cons h.1.spells_toJson h.2.spelledByName_members

end

/-! ## Documents -/

/-- What is written of a value is read as the value. -/
theorem Shape.ofJson_toJson {α : Type} (shape : Shape α) {a : α} (h : shape.Recovers a) :
    shape.ofJson (shape.toJson a) = .ok a :=
  shape.ofJson_of_spells h.spells_toJson h.evident

/-- The tree of what is written of a value is read as the value too. -/
theorem Shape.decodeTree_tree {α : Type} (shape : Shape α) {a : α} (h : shape.Recovers a) :
    shape.decodeTree (shape.toJson a).tree = .ok a :=
  Except.mapError_eq_ok.mpr (shape.ofJson_settled (settled_tree _) (shape.ofJson_toJson h))

/-- The text that is written of a value is decoded as the value. -/
theorem Shape.decode_write {α : Type} (shape : Shape α) {a : α} (h : shape.Recovers a)
    (hexact : (shape.toJson a).Exact) (hdepth : (shape.toJson a).depth ≤ maxDepth) :
    shape.decode (Utf8.encode (shape.write a)) = .ok a :=
  (shape.decode_eq_ok_iff (lists_text hexact hdepth)).mpr (shape.ofJson_toJson h)

end Provisioning
