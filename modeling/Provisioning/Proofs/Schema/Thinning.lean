import Provisioning.Proofs.Schema.Refusing
import Provisioning.Proofs.Schema.Revising
import Provisioning.Proofs.Schema.RoundTrip

/-!
# Members that give no value

A field that may be absent may be `null` as well, and it has no value in either case. So a member
that only says so may be taken out of a record, or be put into one that lacks it
(`Revision.thinning`), if no name is repeated; for of two members of a name the second one is
refused, whatever it says. `Shape.Thinned` takes any of them out, at every record of a value and
nowhere else: not from a value that is kept as a tree, nor from a table, where every name is data.

As for every revision, the shape makes the same of what is left. Here that is so for documents of
any depth, because nothing but leaves is taken out (`Shape.fits_of_thinned`): two documents are
accepted alike if the values that they denote can be thinned to the same
(`Shape.decode_eq_ok_iff_of_thinned`). And nothing that is written can be thinned
(`Shape.Recovers.not_givesNull`).
-/

set_option autoImplicit false

namespace Provisioning

open Json

/-! ## Fields without a value -/

/-- A field that may be `null`, and is left out rather than written so. -/
def Shape.isOptional : {β : Type} → Shape β → Presence β → Bool
  | _, .optional _, presence => presence.omits none
  | _, _, _ => false

/-- Such a field has no value if it is `null`, and none if it is absent. -/
theorem Shape.toOption_ofJson_null {β : Type} {shape : Shape β} {presence : Presence β}
    (h : shape.isOptional presence = true) :
    (shape.ofJson .null).toOption = presence.absent? := by
  cases shape with
  | optional inner =>
    rw [ofJson, presence.absent_of_omits none h]
    rfl
  | _ => cases h

namespace Fields

variable {β σ γ : Type}

/-- The field of this name, if there is one, may be `null` or absent. -/
def isOptional : {σ γ : Type} → Fields σ γ → String → Bool
  | _, _, nil, _ => false
  | _, _, cons field presence shape rest, name =>
    if name = field then shape.isOptional presence else rest.isOptional name

/-- The member only says that a field has no value. -/
def isVoid (fields : Fields σ γ) (m : String × Json) : Bool :=
  fields.isOptional m.1 && m.2.isNull

theorem isVoid_cons_of_ne {name : String} {presence : Presence β} {shape : Shape β}
    {rest : Fields σ γ} {m : String × Json} (h : m.1 ≠ name) :
    (cons name presence shape rest).isVoid m = rest.isVoid m := by
  rw [isVoid, isVoid, isOptional, if_neg h]

/-- The field of the member's name, if there is one, makes of the member what it makes of none. -/
def Idle : {σ γ : Type} → Fields σ γ → String × Json → Prop
  | _, _, nil, _ => True
  | _, _, cons name presence shape rest, m =>
    if m.1 = name then (shape.ofJson m.2).toOption = presence.absent? else rest.Idle m

theorem idle_of_isVoid : {σ γ : Type} → {fields : Fields σ γ} → {m : String × Json} →
    fields.isVoid m = true → fields.Idle m
  | _, _, nil, _, _ => trivial
  | _, _, cons name presence shape rest, m, h => by
    rw [Idle]
    split
    · next hname =>
      rw [isVoid, isOptional, if_pos hname, Bool.and_eq_true, isNull_iff] at h
      rw [h.2]
      exact Shape.toOption_ofJson_null h.1
    · next hne =>
      rw [isVoid_cons_of_ne hne] at h
      exact idle_of_isVoid h

/-- Idle members may be left out of a record, or be put into one, as long as no name is repeated. -/
theorem gather?_filter : {σ γ : Type} → (fields : Fields σ γ) → {ms : List (String × Json)} →
    (ms.map (·.1)).Nodup → (keep : String × Json → Bool) →
    (∀ m ∈ ms, keep m = false → fields.Idle m) →
    fields.gather? (ms.filter keep) = fields.gather? ms
  | _, _, nil, _, _, _, _ => rfl
  | _, _, cons name presence shape rest, ms, hnodup, keep, hkeep => by
    have hfirst : presence.value? shape (named name (ms.filter keep)) =
        presence.value? shape (named name ms) := by
      rw [named, List.filter_comm, ← named, named_of_nodup hnodup]
      cases hlast : last? name ms with
      | none => rfl
      | some value =>
        cases hvalue : keep (name, value) with
        | true => simp [hvalue]
        | false =>
          have hidle := hkeep _ (mem_of_last? hlast) hvalue
          rw [Idle, if_pos rfl] at hidle
          simpa [hvalue, Presence.value?] using hidle.symm
    have hothers : rest.gather? (unnamed name (ms.filter keep)) =
        rest.gather? (unnamed name ms) := by
      rw [unnamed, List.filter_comm, ← unnamed]
      refine gather?_filter rest (hnodup.sublist (List.filter_sublist.map _)) keep ?_
      intro m hm hvalue
      obtain ⟨hm, hne⟩ := List.mem_filter.mp hm
      have hidle := hkeep m hm hvalue
      rwa [Idle, if_neg (of_decide_eq_true hne)] at hidle
    rw [gather?, gather?, hfirst, hothers]

end Fields

/-! ## Thinned values -/

/-- Any of the members may be left out that only say that a field has no value, as long as no name
is repeated. -/
def Revision.thinning : Revision where
  Revises fields members thinned :=
    (members.map (·.1)).Nodup ∧ ∃ keep, thinned = members.filter keep ∧
      ∀ m ∈ members, keep m = false → fields.isVoid m = true
  gather?_eq {_ _ fields members _} h := by
    obtain ⟨hnodup, keep, rfl, hvoid⟩ := h
    exact fields.gather?_filter hnodup keep fun m hm hleft =>
      Fields.idle_of_isVoid (hvoid m hm hleft)

namespace Shape

variable {α σ γ : Type}

/-- The value with any of the members without a value left out of its records, at every level. -/
abbrev Thinned (shape : Shape α) : Json → Json → Prop := shape.Revised .thinning

/-- Members without a value may be left out of a record whose other members stay as they are. -/
theorem thinned_filter {name : String} {fields : Fields σ γ} {as : Assembly γ α}
    (keep : String × Json → Bool) {members : List (String × Json)}
    (hnodup : (members.map (·.1)).Nodup)
    (h : ∀ m ∈ members, keep m = false → fields.isVoid m = true) :
    (record name fields as).Thinned (.object members) (.object (members.filter keep)) :=
  .inr (.inr ⟨members, members, _, rfl, rfl,
    .refl (fields.revisedMember_refl _) members, hnodup, keep, rfl, h⟩)

end Shape

/-! ## How deep a thinned value is -/

mutual

/-- No record in the shape has a tag beside its own fields. The members that such a record has no
field for are kept until the tag is read, so it would matter how deep they are. -/
def Shape.Untagged : {α : Type} → Shape α → Prop
  | _, .optional inner => inner.Untagged
  | _, .list inner => inner.Untagged
  | _, .table inner => inner.Untagged
  | _, .record _ fields _ => fields.Untagged
  | _, .tagged _ _ _ _ => False
  | _, .leaf _ => True
  | _, .tree => True
  | _, .choice _ => True

def Fields.Untagged : {σ γ : Type} → Fields σ γ → Prop
  | _, _, .nil => True
  | _, _, .cons _ _ shape rest => shape.Untagged ∧ rest.Untagged

end

theorem Fields.fitsMember_of_isVoid (other : Json → Bool) (depth : Nat) {m : String × Json} :
    {σ γ : Type} → {fields : Fields σ γ} → fields.isVoid m = true →
    fields.fitsMember other depth m.1 m.2 = true
  | _, _, .nil, h => by cases h
  | _, _, .cons field _ shape rest, h => by
    rw [fitsMember]
    split
    · obtain ⟨-, hnull⟩ := Bool.and_eq_true_iff.mp h
      rw [isNull_iff.mp hnull]
      exact shape.fits_scalar depth .null
    · next hne =>
      rw [isVoid_cons_of_ne hne] at h
      exact fitsMember_of_isVoid other depth h

theorem all_eq_of_forall₂ {α β : Type} {p : α → Bool} {q : β → Bool} {xs : List α} {ys : List β}
    (h : List.Forall₂ (fun x y => q y = p x) xs ys) : ys.all q = xs.all p := by
  induction h with
  | nil => rfl
  | cons hxy _ ih => rw [List.all_cons, List.all_cons, hxy, ih]

/-- What is left out decides nothing if it has the property. -/
theorem all_filter_of_forall {α : Type} {p keep : α → Bool} {xs : List α}
    (h : ∀ x ∈ xs, keep x = false → p x = true) : (xs.filter keep).all p = xs.all p := by
  rw [List.all_filter, Bool.eq_iff_iff, List.all_eq_true, List.all_eq_true]
  refine forall₂_congr fun x hx => ?_
  cases hkeep : keep x with
  | true => rfl
  | false => simp [h x hx hkeep]

mutual

/-- Only leaves are left out of a value, so what is left of it is as deep. -/
theorem Shape.fits_of_thinned : {α : Type} → (shape : Shape α) → shape.Untagged → (depth : Nat) →
    {value thinned : Json} → shape.Thinned value thinned →
    shape.fits depth thinned = shape.fits depth value
  | _, .leaf _, _, _, _, _, _ => by rw [Shape.fits, Shape.fits]
  | _, .tree, _, _, _, _, h => by rw [show _ = _ from h]
  | _, .optional inner, hu, depth, _, _, h => by
    rw [Shape.fits, Shape.fits]
    exact inner.fits_of_thinned hu depth h
  | _, .list inner, hu, depth, _, _, h => by
    obtain h | ⟨xs, ys, rfl, rfl, h⟩ := h
    · rw [h]
    · rw [Shape.fits, Shape.fits]
      refine congrArg (room depth) (funext fun depth => ?_)
      exact all_eq_of_forall₂ (h.imp fun _ _ hxy => inner.fits_of_thinned hu depth hxy)
  | _, .table inner, hu, depth, _, _, h => by
    obtain h | ⟨ms, ns, rfl, rfl, h⟩ := h
    · rw [h]
    · rw [Shape.fits, Shape.fits]
      refine congrArg (room depth) (funext fun depth => ?_)
      exact all_eq_of_forall₂ (h.imp fun _ _ hmn => inner.fits_of_thinned hu depth hmn.2)
  | _, .choice _, _, _, _, _, h => by rw [show _ = _ from h]
  | _, .record _ fields _, hu, depth, _, _, h => by
    obtain h | ⟨xs, ys, rfl, rfl, h⟩ | ⟨ms, kept, ns, rfl, rfl, hkept, -, keep, rfl, hvoid⟩ := h
    · rw [h]
    · rw [Shape.fits, Shape.fits]
      exact congrArg (room depth) (funext fun depth => fields.fitsItems_of_thinned hu depth h)
    · -- The members that stay are as deep as before, and the others are leaves.
      rw [Shape.fits, Shape.fits]
      refine congrArg (room depth) (funext fun depth => ?_)
      rw [all_filter_of_forall fun m hm hleft => Fields.fitsMember_of_isVoid _ depth
        (hvoid m hm hleft)]
      refine all_eq_of_forall₂ (hkept.imp fun m n hmn => ?_)
      rw [hmn.1]
      exact fields.fitsMember_of_thinned hu depth hmn.2

theorem Fields.fitsMember_of_thinned : {σ γ : Type} → (fields : Fields σ γ) → fields.Untagged →
    (depth : Nat) → {name : String} → {value thinned : Json} →
    fields.RevisedMember .thinning name value thinned →
    fields.fitsMember (fun _ => true) depth name thinned =
      fields.fitsMember (fun _ => true) depth name value
  | _, _, .nil, _, _, _, _, _, _ => by rw [Fields.fitsMember, Fields.fitsMember]
  | _, _, .cons field _ shape rest, hu, depth, name, _, _, h => by
    rw [Fields.RevisedMember] at h
    rw [Fields.fitsMember, Fields.fitsMember]
    by_cases hname : name = field
    · rw [if_pos hname] at h
      rw [if_pos hname, if_pos hname, shape.fits_of_thinned hu.1 depth h]
    · rw [if_neg hname] at h
      rw [if_neg hname, if_neg hname, rest.fitsMember_of_thinned hu.2 depth h]

theorem Fields.fitsItems_of_thinned : {σ γ : Type} → (fields : Fields σ γ) → fields.Untagged →
    (depth : Nat) → {xs ys : List Json} → fields.RevisedItems .thinning xs ys →
    fields.fitsItems depth ys = fields.fitsItems depth xs
  | _, _, .nil, _, _, _, _, h => by rw [show _ = _ from h]
  | _, _, .cons _ _ _ _, _, _, [], _, h => by rw [show _ = _ from h]
  | _, _, .cons _ _ _ _, _, _, _ :: _, [], h => by cases h
  | _, _, .cons _ _ shape rest, hu, depth, _ :: _, _ :: _, h => by
    rw [Fields.fitsItems, Fields.fitsItems, shape.fits_of_thinned hu.1 depth h.1,
      rest.fitsItems_of_thinned hu.2 depth h.2]

end

/-! ## Documents -/

namespace Shape

variable {α σ γ : Type}

/-- A value is accepted, and means what it means, by what is left of it. -/
theorem within?_of_thinned {shape : Shape α} (hu : shape.Untagged) (depth : Nat)
    {value thinned : Json} (h : shape.Thinned value thinned) :
    shape.within? depth thinned = shape.within? depth value := by
  rw [within?, within?, shape.fits_of_thinned hu depth h, h.toOption_ofJson]

/-- Documents are accepted alike if the same is left of what they denote. -/
theorem decode_eq_ok_iff_of_thinned {shape : Shape α} (hu : shape.Untagged)
    {document document' : Bytes} {value value' thinned : Json} (hd : Denotes document value)
    (hd' : Denotes document' value') (h : shape.Thinned value thinned)
    (h' : shape.Thinned value' thinned) (a : α) :
    shape.decode document' = .ok a ↔ shape.decode document = .ok a := by
  rw [← Except.toOption_eq_some_iff, ← Except.toOption_eq_some_iff,
    shape.toOption_decode_of_denotes hd, shape.toOption_decode_of_denotes hd',
    ← within?_of_thinned hu maxDepth h, ← within?_of_thinned hu maxDepth h']

/-- A record says the same without idle members, of which none may be too deep. -/
theorem decode_record_filter {name : String} {fields : Fields σ γ} {as : Assembly γ α}
    {document document' : Bytes} {members : List (String × Json)} {keep : String × Json → Bool}
    (hd : Denotes document (.object members))
    (hd' : Denotes document' (.object (members.filter keep)))
    (hnodup : (members.map (·.1)).Nodup)
    (hidle : ∀ m ∈ members, keep m = false → fields.Idle m ∧
      fields.fitsMember (fun _ => true) (maxDepth - 1) m.1 m.2 = true) (a : α) :
    (record name fields as).decode document' = .ok a ↔
      (record name fields as).decode document = .ok a := by
  have hfits := all_filter_of_forall fun m hm hleft => (hidle m hm hleft).2
  have hmeans := fields.gather?_filter hnodup keep fun m hm hleft => (hidle m hm hleft).1
  have hroom : ∀ fits : Nat → Bool, room maxDepth fits = fits (maxDepth - 1) := fun _ => rfl
  rw [← Except.toOption_eq_some_iff, ← Except.toOption_eq_some_iff,
    toOption_decode_of_denotes _ hd, toOption_decode_of_denotes _ hd', within?, within?,
    toOption_ofJson_record, toOption_ofJson_record, hmeans, fits, fits, hroom, hroom, hfits]

end Shape

/-! ## What is written -/

/-- The value is an object with a member that only says that a field has no value. The fields of a
tag stand among those of its record. -/
def Shape.GivesNull : {α : Type} → Shape α → Json → Prop
  | _, .record _ fields _, value =>
    ∃ ms, value = .object ms ∧ ∃ m ∈ ms, fields.isVoid m = true
  | _, .tagged _ tag own _, value =>
    ∃ ms, value = .object ms ∧ ∃ m ∈ ms, own.isVoid m = true ∨ tag.isVoid m = true
  | _, _, _ => False

namespace Fields

variable {σ γ : Type}

theorem mem_names_of_mem_members : {σ γ : Type} → (fields : Fields σ γ) → (values : γ) →
    {m : String × Json} → m ∈ fields.members values → m.1 ∈ fields.names
  | _, _, cons name presence shape rest, (value, values), m, h => by
    rw [members] at h
    split at h
    · exact List.mem_cons_of_mem _ (mem_names_of_mem_members rest values h)
    · rcases List.mem_cons.mp h with rfl | h
      · exact List.mem_cons_self
      · exact List.mem_cons_of_mem _ (mem_names_of_mem_members rest values h)

/-- Neither the member nor a part of its value only says that a field has no value. -/
def Telling (fields : Fields σ γ) (m : String × Json) : Prop :=
  fields.isVoid m = false ∧ ¬fields.SomewhereMember Shape.GivesNull m.1 m.2

theorem telling_of_not_mem : {σ γ : Type} → {fields : Fields σ γ} → {m : String × Json} →
    m.1 ∉ fields.names → fields.Telling m
  | _, _, nil, _, _ => ⟨rfl, id⟩
  | _, _, cons _ _ _ _, _, h => by
    rw [names, List.mem_cons, not_or] at h
    rw [Telling, isVoid_cons_of_ne h.1, SomewhereMember, if_neg h.1]
    exact telling_of_not_mem h.2

/-- The members of a tag tell nothing new of the fields beside it, nor the other way round. -/
theorem telling_append {τ δ : Type} {tag : Fields σ γ} {own : Fields τ δ} {tags : γ} {values : δ}
    (hdisjoint : ∀ n ∈ tag.names, n ∉ own.names)
    (htag : ∀ m ∈ tag.members tags, tag.Telling m)
    (hown : ∀ m ∈ own.members values, own.Telling m) :
    ∀ m ∈ tag.members tags ++ own.members values, own.Telling m ∧ tag.Telling m := by
  intro m hm
  rcases List.mem_append.mp hm with hm | hm
  · have hname : m.1 ∈ tag.names := tag.mem_names_of_mem_members _ hm
    exact ⟨telling_of_not_mem (hdisjoint _ hname), htag m hm⟩
  · have hname : m.1 ∈ own.names := own.mem_names_of_mem_members _ hm
    exact ⟨hown m hm, telling_of_not_mem fun hn => hdisjoint _ hn hname⟩

end Fields

/-- A value that is written under an optional name is not `null`. -/
theorem Shape.Recovers.toJson_ne_null {β : Type} {shape : Shape β} {presence : Presence β}
    (hoptional : shape.isOptional presence = true) {b : β} (h : shape.Recovers b)
    (homits : presence.omits b = false) : shape.toJson b ≠ .null := by
  cases shape with
  | optional inner =>
    cases b with
    | none =>
      have hnone : presence.omits none = true := hoptional
      rw [hnone] at homits
      cases homits
    | some a =>
      rw [toJson]
      exact h.1
  | _ => cases hoptional

mutual

/-- Nowhere in what is written of a value a member only says that a field has no value. -/
theorem Shape.Recovers.not_givesNull : {α : Type} → {shape : Shape α} → {a : α} →
    shape.Recovers a → ¬shape.Somewhere Shape.GivesNull (shape.toJson a)
  | _, .leaf _, _, _, hbad => hbad
  | _, .tree, _, _, hbad => hbad
  | _, .optional _, none, _, hbad => by
    obtain hbad | ⟨hnull, -⟩ := hbad
    · exact hbad
    · exact hnull rfl
  | _, .optional inner, some a, h, hbad => by
    obtain hbad | ⟨-, hbad⟩ := hbad
    · exact hbad
    · exact h.2.not_givesNull hbad
  | _, .list inner, items, h, hbad => by
    obtain hbad | ⟨xs, hxs, x, hx, hbad⟩ := hbad
    · exact hbad
    · rw [Shape.toJson, Json.array.injEq] at hxs
      subst hxs
      obtain ⟨a, ha, rfl⟩ := List.mem_map.mp hx
      exact (h a ha).not_givesNull hbad
  | _, .table inner, t, h, hbad => by
    obtain hbad | ⟨ms, hms, m, hm, hbad⟩ := hbad
    · exact hbad
    · rw [Shape.toJson, ofTable, Json.object.injEq] at hms
      subst hms
      obtain ⟨e, he, rfl⟩ := List.mem_map.mp hm
      exact (h e he).not_givesNull hbad
  | _, .choice _, _, _, hbad => hbad
  | _, .record _ fields as, a, h, hbad => by
    have htelling := h.2.telling_members h.1
    obtain ⟨ms, hms, m, hm, hvoid⟩ | ⟨xs, hxs, -⟩ | ⟨ms, hms, m, hm, hbad⟩ := hbad
    · cases hms
      rw [(htelling m hm).1] at hvoid
      cases hvoid
    · cases hxs
    · cases hms
      exact (htelling m hm).2 hbad
  | _, .tagged _ tag own as, a, h, hbad => by
    obtain ⟨hnodup, htag, hown⟩ := h
    obtain ⟨hnodup, hnodup', hdisjoint⟩ := List.nodup_append.mp hnodup
    have htelling := Fields.telling_append (fun n hn hn' => hdisjoint n hn n hn' rfl)
      (htag.telling_members hnodup) (hown.telling_members hnodup')
    obtain ⟨ms, hms, m, hm, hvoid⟩ | ⟨ms, hms, m, hm, hbad⟩ := hbad
    · cases hms
      rw [(htelling m hm).1.1, (htelling m hm).2.1] at hvoid
      rcases hvoid with hvoid | hvoid <;> cases hvoid
    · cases hms
      rcases hbad with hbad | ⟨-, hbad⟩
      · exact (htelling m hm).1.2 hbad
      · exact (htelling m hm).2.2 hbad

theorem Fields.Recovers.telling_members : {σ γ : Type} → {fields : Fields σ γ} →
    {values : γ} → fields.Recovers values → fields.names.Nodup →
    ∀ m ∈ fields.members values, fields.Telling m
  | _, _, .nil, (), _, _, _, hm => nomatch hm
  | _, _, .cons name presence shape rest, (value, values), h, hnodup, m, hm => by
    obtain ⟨hname, hnodup⟩ := List.nodup_cons.mp hnodup
    have hothers : m ∈ rest.members values →
        (Fields.cons name presence shape rest).Telling m := by
      intro hm
      have hne : m.1 ≠ name := fun h' => hname (h' ▸ rest.mem_names_of_mem_members values hm)
      rw [Fields.Telling, Fields.isVoid_cons_of_ne hne, Fields.SomewhereMember, if_neg hne]
      exact h.2.telling_members hnodup m hm
    rw [Fields.members] at hm
    cases homits : presence.omits value with
    | true => exact hothers (by simpa [homits] using hm)
    | false =>
      rcases List.mem_cons.mp (by simpa [homits] using hm) with rfl | hm
      · rw [Fields.Telling, Fields.SomewhereMember, if_pos rfl]
        refine ⟨?_, h.1.not_givesNull⟩
        rw [Fields.isVoid, Fields.isOptional, if_pos rfl, Bool.and_eq_false_imp]
        intro hoptional
        exact Bool.eq_false_iff.mpr fun hnull =>
          h.1.toJson_ne_null hoptional homits (isNull_iff.mp hnull)
      · exact hothers hm

end

end Provisioning
