import Provisioning.Proofs.Schema.Revising
import Provisioning.Proofs.Schema.Streaming

/-!
# Records by name and by position

A record may be written as an object or as the array of its fields, and each record in a value may
be written in its own way. `Shape.Spells` relates a value of a type to all the ways of writing it.
An object may leave out any field that has the value which its absence means, an array only if all
fields after it are left out as well.

However a value is written, it is read as the value (`Shape.ofJson_of_spells`), unless something
that is there is written as `null` and so taken for absent (`Shape.Evident`).
-/

set_option autoImplicit false

namespace Provisioning

open Json

/-! ## Ways of writing -/

/-- The fields have the values that their absence means. -/
def Fields.Absent : {σ γ : Type} → Fields σ γ → γ → Prop
  | _, _, .nil, () => True
  | _, _, .cons _ presence _ rest, (b, bs) => presence.absent? = some b ∧ rest.Absent bs

mutual

/-- The value is a way of writing `a`. -/
def Shape.Spells : {α : Type} → Shape α → α → Json → Prop
  | _, .leaf leaf, a, value => value = .scalar (leaf.give a)
  | _, .tree, a, value => value.tree = a
  | _, .optional _, none, value => value = .null
  | _, .optional inner, some a, value => inner.Spells a value
  | _, .list inner, items, value =>
    ∃ xs, value = .array xs ∧ List.Forall₂ (fun a x => inner.Spells a x) items xs
  | _, .table inner, t, value =>
    ∃ ms, value = .object ms ∧ MemberWise (fun _ a x => inner.Spells a x) t.entries ms
  | _, .choice naming, a, value => value = .string (naming.name a)
  | _, .record _ fields as, a, value =>
    (∃ ms, value = .object ms ∧ fields.SpelledByName (as.parts a) ms) ∨
      ∃ xs, value = .array xs ∧ fields.SpelledInOrder (as.parts a) xs
  | _, .tagged _ tag own as, a, value =>
    ∃ ms ns, value = .object (ms ++ ns) ∧ tag.SpelledByName (as.parts a).1 ms ∧
      own.SpelledByName (as.parts a).2 ns

/-- The members are those of the fields, of which any may be left out whose absence means its
value. -/
def Fields.SpelledByName : {σ γ : Type} → Fields σ γ → γ → List (String × Json) → Prop
  | _, _, .nil, (), ms => ms = []
  | _, _, .cons name presence shape rest, (b, bs), ms =>
    (presence.absent? = some b ∧ rest.SpelledByName bs ms) ∨
      ∃ x ns, ms = (name, x) :: ns ∧ shape.Spells b x ∧ rest.SpelledByName bs ns

/-- The items are those of the fields, of which the last may be left out if the absence of each
means its value. -/
def Fields.SpelledInOrder : {σ γ : Type} → Fields σ γ → γ → List Json → Prop
  | _, _, .nil, (), xs => xs = []
  | _, _, .cons name presence shape rest, (b, bs), xs =>
    (xs = [] ∧ (Fields.cons name presence shape rest).Absent (b, bs)) ∨
      ∃ x ys, xs = x :: ys ∧ shape.Spells b x ∧ rest.SpelledInOrder bs ys

end

mutual

/-- Whatever is there can be told from what is absent, and each field from the others. -/
def Shape.Evident : {α : Type} → Shape α → α → Prop
  | _, .leaf _, _ => True
  | _, .tree, _ => True
  | _, .optional _, none => True
  | _, .optional inner, some a => inner.toJson a ≠ .null ∧ inner.Evident a
  | _, .list inner, items => ∀ a ∈ items, inner.Evident a
  | _, .table inner, t => ∀ e ∈ t.entries, inner.Evident e.2
  | _, .choice _, _ => True
  | _, .record _ fields as, a => fields.names.Nodup ∧ fields.Evident (as.parts a)
  | _, .tagged _ tag own as, a =>
    (tag.names ++ own.names).Nodup ∧ tag.Evident (as.parts a).1 ∧ own.Evident (as.parts a).2

def Fields.Evident : {σ γ : Type} → Fields σ γ → γ → Prop
  | _, _, .nil, () => True
  | _, _, .cons _ _ shape rest, (b, bs) => shape.Evident b ∧ rest.Evident bs

end

/-- Only what is written as `null` may be spelled so. -/
theorem Shape.toJson_of_spells_null : {α : Type} → (shape : Shape α) → {a : α} →
    shape.Spells a .null → shape.toJson a = .null
  | _, .leaf _, _, h => h.symm
  | _, .tree, _, h => h.symm
  | _, .optional _, none, _ => rfl
  | _, .optional inner, some _, h => inner.toJson_of_spells_null h
  | _, .list _, _, h => by
    obtain ⟨xs, h, -⟩ := h
    cases h
  | _, .table _, _, h => by
    obtain ⟨ms, h, -⟩ := h
    cases h
  | _, .choice _, _, h => h.symm
  | _, .record _ _ _, _, h => by
    obtain ⟨ms, h, -⟩ | ⟨xs, h, -⟩ := h
    · cases h
    · cases h
  | _, .tagged _ _ _ _, _, h => by
    obtain ⟨ms, ns, h, -⟩ := h
    cases h

section

variable {β σ γ : Type} {name : String} {presence : Presence β} {shape : Shape β}
  {rest : Fields σ γ} {b : β} {bs : γ} {x : Json}

theorem Fields.SpelledByName.cons {ms : List (String × Json)} (hx : shape.Spells b x)
    (h : rest.SpelledByName bs ms) :
    (Fields.cons name presence shape rest).SpelledByName (b, bs) ((name, x) :: ms) :=
  .inr ⟨x, ms, rfl, hx, h⟩

theorem Fields.SpelledInOrder.cons {xs : List Json} (hx : shape.Spells b x)
    (h : rest.SpelledInOrder bs xs) :
    (Fields.cons name presence shape rest).SpelledInOrder (b, bs) (x :: xs) :=
  .inr ⟨x, xs, rfl, hx, h⟩

end

/-- Whatever is a way of writing `g` is one of writing `g'`. -/
structure Fields.Covers {σ γ : Type} (fields : Fields σ γ) (g g' : γ) : Prop where
  absent : fields.Absent g → fields.Absent g'
  byName : ∀ ms, fields.SpelledByName g ms → fields.SpelledByName g' ms
  inOrder : ∀ xs, fields.SpelledInOrder g xs → fields.SpelledInOrder g' xs

theorem Fields.covers_refl {σ γ : Type} (fields : Fields σ γ) (g : γ) : fields.Covers g g :=
  ⟨id, fun _ => id, fun _ => id⟩

/-- Each field may be looked at by itself. -/
theorem Fields.covers_cons {β σ γ : Type} {name : String} {presence : Presence β} {shape : Shape β}
    {rest : Fields σ γ} {b b' : β} {bs bs' : γ}
    (habsent : presence.absent? = some b → presence.absent? = some b')
    (hspells : ∀ x, shape.Spells b x → shape.Spells b' x) (hrest : rest.Covers bs bs') :
    (cons name presence shape rest).Covers (b, bs) (b', bs') where
  absent h := ⟨habsent h.1, hrest.absent h.2⟩
  byName ms h := by
    obtain ⟨hb, h⟩ | ⟨x, ns, rfl, hx, h⟩ := h
    · exact .inl ⟨habsent hb, hrest.byName ms h⟩
    · exact .cons (hspells x hx) (hrest.byName ns h)
  inOrder xs h := by
    obtain ⟨rfl, hb, h⟩ | ⟨x, ys, rfl, hx, h⟩ := h
    · exact .inl ⟨rfl, habsent hb, hrest.absent h⟩
    · exact .cons (hspells x hx) (hrest.inOrder ys h)

theorem Shape.spells_record_of_covers {α σ γ : Type} {name : String} {fields : Fields σ γ}
    {as : Assembly γ α} {a a' : α} (hcovers : fields.Covers (as.parts a) (as.parts a'))
    {value : Json} (h : (record name fields as).Spells a value) :
    (record name fields as).Spells a' value := by
  obtain ⟨ms, rfl, h⟩ | ⟨xs, rfl, h⟩ := h
  · exact .inl ⟨ms, rfl, hcovers.byName ms h⟩
  · exact .inr ⟨xs, rfl, hcovers.inOrder xs h⟩

/-! ## What is read of them -/

theorem exists_of_mem_right {α β : Type} {R : α → β → Prop} {xs : List α} {ys : List β}
    (h : List.Forall₂ R xs ys) {y : β} (hy : y ∈ ys) : ∃ x ∈ xs, R x y := by
  induction h with
  | nil => cases hy
  | cons hxy _ ih =>
    rcases List.mem_cons.mp hy with rfl | hy
    · exact ⟨_, List.mem_cons_self, hxy⟩
    · obtain ⟨x, hx, hxy⟩ := ih hy
      exact ⟨x, List.mem_cons_of_mem _ hx, hxy⟩

/-- What the two lists have last under one name. -/
theorem MemberWise.last?_cases {α β : Type} {R : String → α → β → Prop} {ms : List (String × α)}
    {ns : List (String × β)} (h : MemberWise R ms ns) (name : String) :
    (last? name ms = none ∧ last? name ns = none) ∨
      ∃ a b, last? name ms = some a ∧ last? name ns = some b ∧ R name a b := by
  induction h with
  | nil => exact .inl ⟨rfl, rfl⟩
  | @cons m n ms ns hmn _ ih =>
    obtain ⟨hname, hR⟩ := hmn
    rw [last?_cons, last?_cons, hname]
    rcases ih with ⟨hms, hns⟩ | ⟨a, b, hms, hns, hab⟩
    · rw [hms, hns]
      by_cases hn : m.1 = name
      · subst hn
        exact .inr ⟨m.2, n.2, by simp, by simp, hR⟩
      · exact .inl ⟨by simp [hn], by simp [hn]⟩
    · exact .inr ⟨a, b, by simp [hms], by simp [hns], hab⟩

namespace Shape

variable {α : Type}

/-- However a value is written, it is read as the value. -/
def Heeds (shape : Shape α) : Prop :=
  ∀ {a value}, shape.Spells a value → shape.Evident a → shape.ofJson value = .ok a

theorem heeds_leaf (leaf : Leaf α) : (Shape.leaf leaf).Heeds := by
  intro a value h _
  rw [Spells] at h
  rw [h, ofJson]
  exact leaf.accept_give a

theorem heeds_tree : Shape.tree.Heeds := by
  intro a value h _
  rw [Spells] at h
  rw [ofJson, h]

theorem heeds_optional {inner : Shape α} (ih : inner.Heeds) : inner.optional.Heeds := by
  intro a value h hevident
  cases a with
  | none =>
    rw [Spells] at h
    rw [h, ofJson]
  | some a =>
    obtain ⟨hnull, hevident⟩ := hevident
    rw [Spells] at h
    have hvalue : value ≠ .null := by
      rintro rfl
      exact hnull (inner.toJson_of_spells_null h)
    rw [ofJson_optional hvalue, ih h hevident]
    rfl

theorem heeds_list {inner : Shape α} (ih : inner.Heeds) : inner.list.Heeds := by
  intro items value h hevident
  obtain ⟨xs, rfl, h⟩ := h
  simp only [Evident] at hevident
  rw [ofJson, mapM_eq_ok_iff]
  induction h with
  | nil => rfl
  | cons hx _ ihs =>
    obtain ⟨ha, has⟩ := List.forall_mem_cons.mp hevident
    rw [List.map_cons, List.map_cons, ih hx ha, ihs has]

theorem heeds_table {inner : Shape α} (ih : inner.Heeds) : inner.table.Heeds := by
  intro t value h hevident
  obtain ⟨ms, rfl, h⟩ := h
  simp only [Evident] at hevident
  have hread : MemberWise (fun _ a x => inner.ofJson x = .ok a) t.entries ms := by
    refine List.forall₂_iff_zip.mpr ⟨h.length_eq, ?_⟩
    intro e m hem
    obtain ⟨hname, hm⟩ := List.forall₂_zip h hem
    exact ⟨hname, ih hm (hevident e (List.of_mem_zip hem).1)⟩
  refine ofJson_table_eq_ok_iff.mpr ⟨?_, ?_⟩
  · intro m hm
    obtain ⟨e, -, -, he⟩ := exists_of_mem_right hread hm
    exact ⟨e.2, he⟩
  · intro name
    rw [← Table.last?_entries]
    rcases hread.last?_cases name with ⟨ht, hms⟩ | ⟨a, x, ht, hms, hx⟩
    · rw [ht, hms]
      rfl
    · rw [ht, hms, Option.bind_some, hx]
      rfl

theorem heeds_choice (naming : Naming α) : (Shape.choice naming).Heeds := by
  intro a value h _
  rw [Spells] at h
  have hname : naming.ofName? (naming.name a) = some a := naming.ofName?_eq_some_iff.mpr rfl
  rw [h, ofJson, Naming.accept, hname]

end Shape

namespace Fields

variable {β σ γ : Type}

theorem defaults_of_absent (expected : String) : {σ γ : Type} → (fields : Fields σ γ) →
    (index : Nat) → {g : γ} → fields.Absent g → fields.defaults expected index = .ok g
  | _, _, nil, _, (), _ => rfl
  | _, _, cons _ _ _ rest, index, (_, _), h => by
    rw [defaults, h.1, defaults_of_absent expected rest (index + 1) h.2]
    rfl

/-- No member stands under a name that is no field. -/
theorem named_of_spelledByName : {σ γ : Type} → (fields : Fields σ γ) → {g : γ} →
    {ms : List (String × Json)} → fields.SpelledByName g ms → {n : String} → n ∉ fields.names →
    named n ms = []
  | _, _, nil, (), _, h, _, _ => by
    rw [SpelledByName] at h
    rw [h, named_nil]
  | _, _, cons _ _ _ rest, (_, _), _, h, n, hn => by
    simp only [names, List.mem_cons, not_or] at hn
    obtain ⟨-, h⟩ | ⟨x, ns, rfl, -, h⟩ := h
    · exact named_of_spelledByName rest h hn.2
    · rw [named_cons_of_ne (Ne.symm hn.1), named_of_spelledByName rest h hn.2]

/-- Both readings of the fields, by name and by position, give the values that are written. -/
structure Heeds (fields : Fields σ γ) : Prop where
  gather : ∀ {g ms}, fields.names.Nodup → fields.SpelledByName g ms → fields.Evident g →
    fields.gather? ms = some g
  items : ∀ {g xs} (expected : String) (index : Nat), fields.SpelledInOrder g xs →
    fields.Evident g → fields.ofItems expected index xs = .ok (g, [])

theorem heeds_nil : nil.Heeds where
  gather _ _ _ := rfl
  items expected index h _ := by
    rw [SpelledInOrder] at h
    rw [h, ofItems]

theorem heeds_cons {name : String} {presence : Presence β} {shape : Shape β} {rest : Fields σ γ}
    (hshape : shape.Heeds) (hrest : rest.Heeds) : (cons name presence shape rest).Heeds where
  gather {g ms} hnodup h hevident := by
    obtain ⟨b, bs⟩ := g
    obtain ⟨hname, hnodup⟩ := List.nodup_cons.mp hnodup
    obtain ⟨hb, hbs⟩ := hevident
    -- The other fields do not look at the member of this one.
    have hothers {ns : List (String × Json)} (h : rest.SpelledByName bs ns) :
        rest.gather? (unnamed name ns) = some bs := by
      rw [← hrest.gather hnodup h hbs]
      refine rest.gather?_congr fun n hn => ?_
      have hne : n ≠ name := fun h => hname (h ▸ hn)
      rw [named_unnamed, if_neg hne]
    obtain ⟨habsent, h⟩ | ⟨x, ns, rfl, hx, h⟩ := h
    · rw [gather?, rest.named_of_spelledByName h hname, hothers h]
      simp [Presence.value?, habsent]
    · rw [gather?, named_cons_self, unnamed_cons_self, rest.named_of_spelledByName h hname,
        hothers h]
      simp [Presence.value?, hshape hx hb]
  items {g xs} expected index h hevident := by
    obtain ⟨b, bs⟩ := g
    obtain ⟨hb, hbs⟩ := hevident
    obtain ⟨rfl, habsent⟩ | ⟨x, ys, rfl, hx, h⟩ := h
    · rw [ofItems, defaults_of_absent expected _ index habsent]
      rfl
    · rw [ofItems, hshape hx hb, Except.ok_bind, hrest.items expected (index + 1) h hbs]
      rfl

end Fields

namespace Shape

variable {α σ γ τ δ : Type}

theorem heeds_record {fields : Fields σ γ} (ih : fields.Heeds) (name : String)
    (as : Assembly γ α) : (Shape.record name fields as).Heeds := by
  intro a value h hevident
  obtain ⟨hnodup, hevident⟩ := hevident
  obtain ⟨ms, rfl, h⟩ | ⟨xs, rfl, h⟩ := h
  · rw [← Except.toOption_eq_some_iff, toOption_ofJson_record, ih.gather hnodup h hevident]
    exact congrArg some (as.build_parts a)
  · rw [ofJson, ih.items (fields.counted name) 0 h hevident]
    exact congrArg Except.ok (as.build_parts a)

/-- The fields of the tag do not look at the members of the record's own fields, nor do these look
at the members of the tag. -/
theorem heeds_tagged {tag : Fields σ γ} {own : Fields τ δ} (htag : tag.Heeds) (hown : own.Heeds)
    (name : String) (as : Assembly (γ × δ) α) : (Shape.tagged name tag own as).Heeds := by
  intro a value h hevident
  obtain ⟨ms, ns, rfl, hms, hns⟩ := h
  obtain ⟨hnodup, htags, hvalues⟩ := hevident
  obtain ⟨hnodup, hnodup', hdisjoint⟩ := List.nodup_append.mp hnodup
  have hown' : own.gather? (ms ++ ns) = some (as.parts a).2 := by
    rw [← hown.gather hnodup' hns hvalues]
    refine own.gather?_congr fun n hn => ?_
    rw [named_append, tag.named_of_spelledByName hms fun hn' => hdisjoint n hn' n hn rfl]
    rfl
  have htag' : tag.gather? ((ms ++ ns).filter fun m => m.1 ∉ own.names) = some (as.parts a).1 := by
    rw [← htag.gather hnodup hms htags]
    refine tag.gather?_congr fun n hn => ?_
    have hn' : n ∉ own.names := fun hn' => hdisjoint n hn n hn' rfl
    rw [named_filter fun n => n ∉ own.names, named_append, own.named_of_spelledByName hns hn']
    simp [hn']
  rw [← Except.toOption_eq_some_iff, toOption_ofJson_tagged, hown', Option.bind_some, htag']
  exact congrArg some (as.build_parts a)

end Shape

mutual

theorem Shape.heeds : {α : Type} → (shape : Shape α) → shape.Heeds
  | _, .leaf leaf => Shape.heeds_leaf leaf
  | _, .tree => Shape.heeds_tree
  | _, .optional inner => Shape.heeds_optional inner.heeds
  | _, .list inner => Shape.heeds_list inner.heeds
  | _, .table inner => Shape.heeds_table inner.heeds
  | _, .choice naming => Shape.heeds_choice naming
  | _, .record name fields as => Shape.heeds_record fields.heeds name as
  | _, .tagged name tag own as => Shape.heeds_tagged tag.heeds own.heeds name as

theorem Fields.heeds : {σ γ : Type} → (fields : Fields σ γ) → fields.Heeds
  | _, _, .nil => Fields.heeds_nil
  | _, _, .cons _ _ shape rest => Fields.heeds_cons shape.heeds rest.heeds

end

/-- However a value is written, it is read as the value. -/
theorem Shape.ofJson_of_spells {α : Type} (shape : Shape α) {a : α} {value : Json}
    (h : shape.Spells a value) (hevident : shape.Evident a) : shape.ofJson value = .ok a :=
  shape.heeds h hevident

/-- A document is read as the value that it is a way of writing. -/
theorem Shape.decode_of_spells {α : Type} (shape : Shape α) {a : α} {value : Json}
    {document : Bytes} (h : shape.Spells a value) (hevident : shape.Evident a)
    (hd : Lists document value) : shape.decode document = .ok a :=
  (shape.decode_eq_ok_iff hd).mpr (shape.ofJson_of_spells h hevident)

end Provisioning
