import Mathlib.Data.List.Forall2
import Provisioning.Proofs.Json.Values
import Provisioning.Proofs.Schema.Slots

/-!
# Changes that no field notices

A record looks up its fields among the members of an object, so there are changes to the members
that it does not notice. A `Revision` is a kind of such changes. It says what may be done to the
members of one record, and carries the proof that no field notices it. `Shape.Revised` applies it
throughout a value: wherever the shape has a record the members may be revised, after the values in
them have been, and nowhere else is anything changed.

The shape accepts a revised value exactly if it accepts the value, with the same answer
(`Shape.Revised.toOption_ofJson`). The proof is one lemma for each kind of shape, and what a
revision does is only asked for at records.
-/

set_option autoImplicit false

namespace Provisioning

/-! ## Members, value by value -/

/-- Members of the same names in the same order, with values that are related. -/
abbrev MemberWise {α β : Type} (R : String → α → β → Prop) :
    List (String × α) → List (String × β) → Prop :=
  List.Forall₂ fun m n => n.1 = m.1 ∧ R m.1 m.2 n.2

theorem MemberWise.refl {α : Type} {R : String → α → α → Prop} (h : ∀ name a, R name a a)
    (ms : List (String × α)) : MemberWise R ms ms :=
  List.forall₂_same.mpr fun m _ => ⟨rfl, h m.1 m.2⟩

/-- Names may be left out on both sides, and the relation need only hold of those that are left. -/
theorem MemberWise.filter {α β : Type} {R S : String → α → β → Prop} {ms : List (String × α)}
    {ns : List (String × β)} (h : MemberWise R ms ns) (p : String → Bool)
    (hS : ∀ name a b, p name → R name a b → S name a b) :
    MemberWise S (ms.filter fun m => p m.1) (ns.filter fun n => p n.1) := by
  induction h with
  | nil => exact .nil
  | @cons m n ms ns hmn _ ih =>
    obtain ⟨hname, hR⟩ := hmn
    rw [List.filter_cons, List.filter_cons, hname]
    by_cases hp : p m.1
    · rw [if_pos hp, if_pos hp]
      exact .cons ⟨hname, hS _ _ _ hp hR⟩ ih
    · rw [if_neg hp, if_neg hp]
      exact ih

/-! ## Revisions -/

/-- What may be done to the members of a record with given fields. -/
structure Revision where
  Revises : {σ γ : Type} → Fields σ γ → List (String × Json) → List (String × Json) → Prop
  gather?_eq : ∀ {σ γ : Type} {fields : Fields σ γ} {members revised : List (String × Json)},
    Revises fields members revised → fields.gather? revised = fields.gather? members

mutual

/-- The value with the members of its records revised, at every level. -/
def Shape.Revised (r : Revision) : {α : Type} → Shape α → Json → Json → Prop
  | _, .leaf _, value, revised => revised = value
  | _, .tree, value, revised => revised = value
  | _, .optional inner, value, revised => inner.Revised r value revised
  | _, .list inner, value, revised =>
    revised = value ∨ ∃ xs ys, value = .array xs ∧ revised = .array ys ∧
      List.Forall₂ (fun x y => inner.Revised r x y) xs ys
  | _, .table inner, value, revised =>
    revised = value ∨ ∃ ms ns, value = .object ms ∧ revised = .object ns ∧
      MemberWise (fun _ x y => inner.Revised r x y) ms ns
  | _, .choice _, value, revised => revised = value
  | _, .record _ fields _, value, revised =>
    revised = value ∨
      (∃ xs ys, value = .array xs ∧ revised = .array ys ∧ fields.RevisedItems r xs ys) ∨
      ∃ ms kept ns, value = .object ms ∧ revised = .object ns ∧
        MemberWise (fun name x y => fields.RevisedMember r name x y) ms kept ∧
        r.Revises fields kept ns
  | _, .tagged _ tag own _, value, revised =>
    revised = value ∨
      ∃ ms kept ns, value = .object ms ∧ revised = .object ns ∧
        MemberWise (fun name x y => own.RevisedMember r name x y ∧ tag.RevisedMember r name x y)
          ms kept ∧
        r.Revises own kept ns ∧
        r.Revises tag (kept.filter fun m => m.1 ∉ own.names) (ns.filter fun m => m.1 ∉ own.names)

/-- The value of a member is revised as its field says. What no field reads may be anything. -/
def Fields.RevisedMember (r : Revision) : {σ γ : Type} → Fields σ γ → String → Json → Json → Prop
  | _, _, .nil, _, _, _ => True
  | _, _, .cons field _ shape rest, name, value, revised =>
    if name = field then shape.Revised r value revised else rest.RevisedMember r name value revised

/-- The items of a record that is written as an array are revised as its fields say, in order. -/
def Fields.RevisedItems (r : Revision) : {σ γ : Type} → Fields σ γ → List Json → List Json → Prop
  | _, _, .cons _ _ shape rest, x :: xs, y :: ys => shape.Revised r x y ∧ rest.RevisedItems r xs ys
  | _, _, _, xs, ys => ys = xs

end

variable {r : Revision}

/-- Nothing has to be revised. -/
theorem Shape.revised_refl (r : Revision) : {α : Type} → (shape : Shape α) → (value : Json) →
    shape.Revised r value value
  | _, .leaf _, _ => rfl
  | _, .tree, _ => rfl
  | _, .optional inner, value => inner.revised_refl r value
  | _, .list _, _ => .inl rfl
  | _, .table _, _ => .inl rfl
  | _, .choice _, _ => rfl
  | _, .record _ _ _, _ => .inl rfl
  | _, .tagged _ _ _ _, _ => .inl rfl

theorem Fields.revisedMember_refl (r : Revision) : {σ γ : Type} → (fields : Fields σ γ) →
    (name : String) → (value : Json) → fields.RevisedMember r name value value
  | _, _, .nil, _, _ => trivial
  | _, _, .cons field _ shape rest, name, value => by
    rw [Fields.RevisedMember]
    split
    · exact shape.revised_refl r value
    · exact rest.revisedMember_refl r name value

/-- A revised value begins as the value does. -/
theorem Shape.found_eq_of_revised : {α : Type} → (shape : Shape α) → {value revised : Json} →
    shape.Revised r value revised → revised.found = value.found
  | _, .leaf _, _, _, h => congrArg Json.found h
  | _, .tree, _, _, h => congrArg Json.found h
  | _, .optional inner, _, _, h => inner.found_eq_of_revised h
  | _, .choice _, _, _, h => congrArg Json.found h
  | _, .list _, value, revised, h => by
    obtain h | ⟨xs, ys, rfl, rfl, -⟩ := h
    · rw [h]
    · rfl
  | _, .table _, value, revised, h => by
    obtain h | ⟨ms, ns, rfl, rfl, -⟩ := h
    · rw [h]
    · rfl
  | _, .record _ _ _, value, revised, h => by
    obtain h | ⟨xs, ys, rfl, rfl, -⟩ | ⟨ms, kept, ns, rfl, rfl, -⟩ := h
    · rw [h]
    · rfl
    · rfl
  | _, .tagged _ _ _ _, value, revised, h => by
    obtain h | ⟨ms, kept, ns, rfl, rfl, -⟩ := h
    · rw [h]
    · rfl

theorem Shape.Revised.eq_null_iff {α : Type} {shape : Shape α} {value revised : Json}
    (h : shape.Revised r value revised) : revised = .null ↔ value = .null :=
  Json.eq_null_iff_of_found (shape.found_eq_of_revised h)

/-! ## What a revised value means -/

namespace Shape

variable {α : Type}

/-- The shape makes the same of a value and of the revised one. -/
def Unmoved (r : Revision) (shape : Shape α) : Prop :=
  ∀ {value revised}, shape.Revised r value revised →
    (shape.ofJson revised).toOption = (shape.ofJson value).toOption

theorem unmoved_leaf (leaf : Leaf α) : (Shape.leaf leaf).Unmoved r := by
  intro value revised h
  rw [Revised] at h
  rw [h]

theorem unmoved_tree : Shape.tree.Unmoved r := by
  intro value revised h
  rw [Revised] at h
  rw [h]

theorem unmoved_choice (naming : Naming α) : (Shape.choice naming).Unmoved r := by
  intro value revised h
  rw [Revised] at h
  rw [h]

theorem unmoved_optional {inner : Shape α} (ih : inner.Unmoved r) : inner.optional.Unmoved r := by
  intro value revised h
  by_cases hnull : value = .null
  · rw [hnull, h.eq_null_iff.mpr hnull]
  · rw [ofJson_optional hnull, ofJson_optional fun h' => hnull (h.eq_null_iff.mp h'),
      Except.toOption_bind, Except.toOption_bind, ih h]

theorem unmoved_list {inner : Shape α} (ih : inner.Unmoved r) : inner.list.Unmoved r := by
  intro value revised h
  obtain h | ⟨xs, ys, rfl, rfl, h⟩ := h
  · rw [h]
  · rw [ofJson, ofJson, toOption_mapM, toOption_mapM]
    induction h with
    | nil => rfl
    | cons hxy _ ihs => rw [List.mapM_cons, List.mapM_cons, ih hxy, ihs]

theorem unmoved_table {inner : Shape α} (ih : inner.Unmoved r) : inner.table.Unmoved r := by
  intro value revised h
  obtain h | ⟨ms, ns, rfl, rfl, h⟩ := h
  · rw [h]
  · rw [ofJson, ofJson, toOption_foldlM, toOption_foldlM]
    generalize Table.empty = start
    induction h generalizing start with
    | nil => rfl
    | @cons m n ms ns hmn _ ihs =>
      obtain ⟨name, x⟩ := m
      obtain ⟨_, y⟩ := n
      obtain ⟨rfl, hxy⟩ := hmn
      simp only [List.foldlM_cons, ihs]
      rw [Except.toOption_bind, Except.toOption_bind, ih hxy]

end Shape

namespace Fields

variable {β σ γ : Type}

/-- Both readings of the fields, by name and by position, make the same of revised values. -/
structure Unmoved (r : Revision) (fields : Fields σ γ) : Prop where
  gather : ∀ {ms ns}, MemberWise (fun name x y => fields.RevisedMember r name x y) ms ns →
    fields.gather? ns = fields.gather? ms
  items : ∀ {expected index xs ys}, fields.RevisedItems r xs ys →
    (fields.ofItems expected index ys).toOption = (fields.ofItems expected index xs).toOption

theorem unmoved_nil : nil.Unmoved r where
  gather _ := rfl
  items {_ _ xs ys} h := by
    rw [show ys = xs from h]

/-- A field has the same value if the members of its name have revised values. -/
theorem value?_eq_of_memberWise {presence : Presence β} {shape : Shape β} (ih : shape.Unmoved r)
    {ms ns : List (String × Json)} (h : MemberWise (fun _ x y => shape.Revised r x y) ms ns) :
    presence.value? shape ns = presence.value? shape ms := by
  cases h with
  | nil => rfl
  | cons hmn hs =>
    cases hs with
    | nil => exact ih hmn.2
    | cons _ _ => rfl

theorem unmoved_cons {name : String} {presence : Presence β} {shape : Shape β}
    {rest : Fields σ γ} (hshape : shape.Unmoved r) (hrest : rest.Unmoved r) :
    (cons name presence shape rest).Unmoved r where
  gather {ms ns} h := by
    have hname : MemberWise (fun _ x y => shape.Revised r x y) (named name ms) (named name ns) := by
      refine h.filter (fun n => n = name) fun n x y hn hxy => ?_
      rw [RevisedMember, if_pos (of_decide_eq_true hn)] at hxy
      exact hxy
    have hothers : MemberWise (fun n x y => rest.RevisedMember r n x y) (unnamed name ms)
        (unnamed name ns) := by
      refine h.filter (fun n => n ≠ name) fun n x y hn hxy => ?_
      rw [RevisedMember, if_neg (of_decide_eq_true hn)] at hxy
      exact hxy
    rw [gather?, gather?, value?_eq_of_memberWise hshape hname, hrest.gather hothers]
  items {expected index xs ys} h := by
    cases xs with
    | nil =>
      cases h
      rfl
    | cons x xs =>
      cases ys with
      | nil => cases h
      | cons y ys =>
        obtain ⟨hxy, hs⟩ := h
        rw [ofItems, ofItems, Except.toOption_bind, Except.toOption_bind, hshape hxy]
        refine Option.bind_congr fun a _ => ?_
        rw [Except.toOption_bind, Except.toOption_bind, hrest.items hs]

end Fields

namespace Shape

variable {α σ γ τ δ : Type}

theorem unmoved_record {fields : Fields σ γ} (ih : fields.Unmoved r) (name : String)
    (as : Assembly γ α) : (Shape.record name fields as).Unmoved r := by
  intro value revised h
  obtain h | ⟨xs, ys, rfl, rfl, h⟩ | ⟨ms, kept, ns, rfl, rfl, hkept, hns⟩ := h
  · rw [h]
  · rw [ofJson, ofJson, Except.toOption_bind, Except.toOption_bind, ih.items h]
    refine Option.bind_congr fun read _ => ?_
    obtain ⟨values, left⟩ := read
    cases left <;> rfl
  · rw [toOption_ofJson_record, toOption_ofJson_record, r.gather?_eq hns, ih.gather hkept]

/-- The fields of the record's own do not see what is done to the tag, nor the other way round. -/
theorem unmoved_tagged {tag : Fields σ γ} {own : Fields τ δ} (htag : tag.Unmoved r)
    (hown : own.Unmoved r) (name : String) (as : Assembly (γ × δ) α) :
    (Shape.tagged name tag own as).Unmoved r := by
  intro value revised h
  obtain h | ⟨ms, kept, ns, rfl, rfl, hkept, hns, hothers⟩ := h
  · rw [h]
  · have hown' : own.gather? kept = own.gather? ms :=
      hown.gather (hkept.imp fun _ _ hmn => ⟨hmn.1, hmn.2.1⟩)
    have htag' : tag.gather? (kept.filter fun m => m.1 ∉ own.names) =
        tag.gather? (ms.filter fun m => m.1 ∉ own.names) :=
      htag.gather (hkept.filter (fun n => n ∉ own.names) fun _ _ _ _ hmn => hmn.2)
    rw [toOption_ofJson_tagged, toOption_ofJson_tagged, r.gather?_eq hns, hown',
      r.gather?_eq hothers, htag']

end Shape

mutual

theorem Shape.unmoved (r : Revision) : {α : Type} → (shape : Shape α) → shape.Unmoved r
  | _, .leaf leaf => Shape.unmoved_leaf leaf
  | _, .tree => Shape.unmoved_tree
  | _, .optional inner => Shape.unmoved_optional (inner.unmoved r)
  | _, .list inner => Shape.unmoved_list (inner.unmoved r)
  | _, .table inner => Shape.unmoved_table (inner.unmoved r)
  | _, .choice naming => Shape.unmoved_choice naming
  | _, .record name fields as => Shape.unmoved_record (fields.unmoved r) name as
  | _, .tagged name tag own as => Shape.unmoved_tagged (tag.unmoved r) (own.unmoved r) name as

theorem Fields.unmoved (r : Revision) : {σ γ : Type} → (fields : Fields σ γ) → fields.Unmoved r
  | _, _, .nil => Fields.unmoved_nil
  | _, _, .cons _ _ shape rest => Fields.unmoved_cons (shape.unmoved r) (rest.unmoved r)

end

/-- A shape accepts a revised value exactly if it accepts the value, and makes the same of both. -/
theorem Shape.Revised.toOption_ofJson {α : Type} {shape : Shape α} {value revised : Json}
    (h : shape.Revised r value revised) :
    (shape.ofJson revised).toOption = (shape.ofJson value).toOption :=
  shape.unmoved r h

end Provisioning
