import Provisioning.Proofs.Schema.Revising
import Provisioning.Proofs.Schema.RoundTrip

/-!
# The order of members, and members of other names

A field is the one member of its name, wherever that stands, and a member that no field asks for is
passed over. So the members of a record may be put in any order, and others be added to them under
names that are no fields of it (`Revision.rearrangement`).

`Shape.Rearranged` allows this at every record of a value at once. What it allows at one record is
spelled out by `Shape.rearranged_record_iff`. A tagged record is read twice, by its own fields and
by those of its tag, and a member is new to it if it is new to both
(`Shape.rearranged_tagged_iff`). The members of a table are data, so they stay as they are, and so
does everything inside a value that is kept as a tree.
-/

set_option autoImplicit false

namespace Provisioning

/-! ## One record -/

/-- Whether a field has a value does not depend on the order of the members, since it has none if
there are two. -/
theorem Presence.value?_perm {α : Type} (presence : Presence α) (shape : Shape α)
    {ms ns : List (String × Json)} (h : ns.Perm ms) :
    presence.value? shape ns = presence.value? shape ms := by
  match ms, ns, h.length_eq with
  | [], [], _ => rfl
  | [m], [n], _ => rw [List.singleton_perm_singleton.mp h]
  | _ :: _ :: _, _ :: _ :: _, _ => rfl

namespace Fields

theorem gather?_perm : {σ γ : Type} → (fields : Fields σ γ) → {ms ns : List (String × Json)} →
    ns.Perm ms → fields.gather? ns = fields.gather? ms
  | _, _, nil, _, _, _ => rfl
  | _, _, cons name presence shape rest, ms, ns, h => by
    have hname : (named name ns).Perm (named name ms) := h.filter _
    have hothers : (unnamed name ns).Perm (unnamed name ms) := h.filter _
    rw [gather?, gather?, presence.value?_perm shape hname, gather?_perm rest hothers]

/-- Members of other names are not asked for. -/
theorem gather?_append {σ γ : Type} (fields : Fields σ γ) (ms : List (String × Json))
    {added : List (String × Json)} (h : ∀ m ∈ added, m.1 ∉ fields.names) :
    fields.gather? (ms ++ added) = fields.gather? ms := by
  refine fields.gather?_congr fun n hn => ?_
  have hadded : named n added = [] := by
    refine List.filter_eq_nil_iff.mpr fun m hm hmn => h m hm ?_
    rwa [of_decide_eq_true hmn]
  rw [named_append, hadded, List.append_nil]

end Fields

/-- The members may come in any order, with others among them whose names are no fields. -/
def Revision.rearrangement : Revision where
  Revises fields members rearranged :=
    ∃ added, (∀ m ∈ added, m.1 ∉ fields.names) ∧ rearranged.Perm (members ++ added)
  gather?_eq {_ _ fields members _} h := by
    obtain ⟨added, hadded, hperm⟩ := h
    rw [fields.gather?_perm hperm, fields.gather?_append members hadded]

/-! ## All records of a value -/

namespace Shape

variable {α σ γ τ δ : Type}

/-- The value with the members of its records rearranged, at every level. -/
abbrev Rearranged (shape : Shape α) : Json → Json → Prop := shape.Revised .rearrangement

/-- The members of a record are rearranged if some of them are rearranged in themselves, others are
added, and the result is put in any order. -/
theorem rearranged_record_iff {name : String} {fields : Fields σ γ} {as : Assembly γ α}
    {ms ns : List (String × Json)} :
    (record name fields as).Rearranged (.object ms) (.object ns) ↔
      ∃ kept added,
        MemberWise (fun name x y => fields.RevisedMember .rearrangement name x y) ms kept ∧
        (∀ m ∈ added, m.1 ∉ fields.names) ∧ ns.Perm (kept ++ added) := by
  constructor
  · intro h
    obtain h | ⟨_, _, h, -⟩ | ⟨_, kept, _, ⟨⟩, ⟨⟩, hkept, added, hadded, hperm⟩ := h
    · cases h
      refine ⟨ms, [], .refl (fields.revisedMember_refl _) ms, nofun, ?_⟩
      rw [List.append_nil]
    · cases h
    · exact ⟨kept, added, hkept, hadded, hperm⟩
  · intro h
    obtain ⟨kept, added, hkept, hadded, hperm⟩ := h
    exact .inr (.inr ⟨ms, kept, ns, rfl, rfl, hkept, added, hadded, hperm⟩)

/-- The same for a tagged record, where what is added is no field of the record nor of its tag. -/
theorem rearranged_tagged_iff {name : String} {tag : Fields σ γ} {own : Fields τ δ}
    {as : Assembly (γ × δ) α} {ms ns : List (String × Json)} :
    (tagged name tag own as).Rearranged (.object ms) (.object ns) ↔
      ∃ kept added,
        MemberWise (fun name x y => own.RevisedMember .rearrangement name x y ∧
          tag.RevisedMember .rearrangement name x y) ms kept ∧
        (∀ m ∈ added, m.1 ∉ own.names ∧ m.1 ∉ tag.names) ∧ ns.Perm (kept ++ added) := by
  constructor
  · intro h
    obtain h | ⟨_, kept, _, ⟨⟩, ⟨⟩, hkept, ⟨added, hadded, hperm⟩, added', hadded', hperm'⟩ := h
    · cases h
      refine ⟨ms, [], .refl (fun name x =>
        ⟨own.revisedMember_refl _ name x, tag.revisedMember_refl _ name x⟩) ms, by simp, ?_⟩
      rw [List.append_nil]
    · -- What the tag finds added is what the record itself does.
      have hsame : added.Perm added' := by
        have h := (hperm.filter fun m => m.1 ∉ own.names).symm.trans hperm'
        rw [List.filter_append, List.perm_append_left_iff] at h
        rwa [List.filter_eq_self.mpr fun m hm => decide_eq_true (hadded m hm)] at h
      exact ⟨kept, added, hkept, fun m hm => ⟨hadded m hm, hadded' m (hsame.mem_iff.mp hm)⟩, hperm⟩
  · intro h
    obtain ⟨kept, added, hkept, hadded, hperm⟩ := h
    have hothers := hperm.filter fun m => m.1 ∉ own.names
    rw [List.filter_append,
      List.filter_eq_self.mpr fun m hm => decide_eq_true (hadded m hm).1] at hothers
    exact .inr ⟨ms, kept, ns, rfl, rfl, hkept, ⟨added, fun m hm => (hadded m hm).1, hperm⟩,
      added, fun m hm => (hadded m hm).2, hothers⟩

/-- A value is accepted as it is rearranged, and it says the same. -/
theorem Rearranged.ofJson_eq_ok_iff {shape : Shape α} {value value' : Json}
    (h : shape.Rearranged value value') {a : α} :
    shape.ofJson value' = .ok a ↔ shape.ofJson value = .ok a := by
  rw [← Except.toOption_eq_some_iff, Revised.toOption_ofJson h, Except.toOption_eq_some_iff]

/-- So are the documents that list the two. -/
theorem Rearranged.decode_eq_ok_iff {shape : Shape α} {document document' : Bytes}
    {value value' : Json} (h : shape.Rearranged value value') (hd : Json.Lists document value)
    (hd' : Json.Lists document' value') {a : α} :
    shape.decode document' = .ok a ↔ shape.decode document = .ok a := by
  rw [shape.decode_eq_ok_iff hd', shape.decode_eq_ok_iff hd]
  exact h.ofJson_eq_ok_iff

end Shape

end Provisioning
