import Provisioning.Proofs.Schema.Parts
import Provisioning.Proofs.Schema.Surveying

/-!
# A fault in a part

A value is read part by part, each by a shape of its own, and it is accepted only if every part is.
So a fault that one shape refuses is a fault of the whole value, however deep it lies. What counts
as a fault is left open: it is a property of a value together with the shape that reads it, and
`Shape.Somewhere` says that a value has a part with the property.

Members that nobody asks for are no parts in this sense, nor is anything inside a value that is
kept as a tree. The values that a table does not keep, because a later one has their name, are.
-/

set_option autoImplicit false

namespace Provisioning

open Json

/-! ## Parts with a property -/

mutual

/-- The property holds of the value and the shape that reads it, or of a part of the value and the
shape that reads the part. -/
def Shape.Somewhere (P : {β : Type} → Shape β → Json → Prop) : {α : Type} → Shape α → Json → Prop
  | _, .leaf leaf, value => P (.leaf leaf) value
  | _, .tree, value => P .tree value
  | _, .optional inner, value =>
    P (.optional inner) value ∨ value ≠ .null ∧ inner.Somewhere P value
  | _, .list inner, value =>
    P (.list inner) value ∨ ∃ xs, value = .array xs ∧ ∃ x ∈ xs, inner.Somewhere P x
  | _, .table inner, value =>
    P (.table inner) value ∨ ∃ ms, value = .object ms ∧ ∃ m ∈ ms, inner.Somewhere P m.2
  | _, .choice naming, value => P (.choice naming) value
  | _, .record name fields as, value =>
    P (.record name fields as) value ∨ (∃ xs, value = .array xs ∧ fields.SomewhereItems P xs) ∨
      ∃ ms, value = .object ms ∧ ∃ m ∈ ms, fields.SomewhereMember P m.1 m.2
  | _, .tagged name tag own as, value =>
    P (.tagged name tag own as) value ∨ ∃ ms, value = .object ms ∧ ∃ m ∈ ms,
      own.SomewhereMember P m.1 m.2 ∨ m.1 ∉ own.names ∧ tag.SomewhereMember P m.1 m.2

/-- The member is that of a field, and has such a part in its value. -/
def Fields.SomewhereMember (P : {β : Type} → Shape β → Json → Prop) :
    {σ γ : Type} → Fields σ γ → String → Json → Prop
  | _, _, .nil, _, _ => False
  | _, _, .cons field _ shape rest, name, value =>
    if name = field then shape.Somewhere P value else rest.SomewhereMember P name value

/-- One of the items that are read as the fields has such a part. -/
def Fields.SomewhereItems (P : {β : Type} → Shape β → Json → Prop) :
    {σ γ : Type} → Fields σ γ → List Json → Prop
  | _, _, .cons _ _ shape rest, x :: xs => shape.Somewhere P x ∨ rest.SomewhereItems P xs
  | _, _, _, _ => False

end

/-- No shape accepts a value that has the property for it. -/
def Faulty (P : {β : Type} → Shape β → Json → Prop) : Prop :=
  ∀ {β : Type} {shape : Shape β} {value : Json}, P shape value → ∀ b, shape.ofJson value ≠ .ok b

/-! ## Nothing with a faulty part is accepted -/

variable {P : {β : Type} → Shape β → Json → Prop}

namespace Shape

variable {α : Type}

/-- What the shape accepts has no part with the property. -/
def Refuses (P : {β : Type} → Shape β → Json → Prop) (shape : Shape α) : Prop :=
  ∀ {value a}, shape.ofJson value = .ok a → ¬shape.Somewhere P value

theorem refuses_leaf (hP : Faulty P) (leaf : Leaf α) : (Shape.leaf leaf).Refuses P := by
  intro value a h hbad
  rw [Somewhere] at hbad
  exact hP hbad a h

theorem refuses_tree (hP : Faulty P) : Shape.tree.Refuses P := by
  intro value a h hbad
  rw [Somewhere] at hbad
  exact hP hbad a h

theorem refuses_choice (hP : Faulty P) (naming : Naming α) : (Shape.choice naming).Refuses P := by
  intro value a h hbad
  rw [Somewhere] at hbad
  exact hP hbad a h

theorem refuses_optional (hP : Faulty P) {inner : Shape α} (ih : inner.Refuses P) :
    inner.optional.Refuses P := by
  intro value a h hbad
  obtain hbad | ⟨hnull, hbad⟩ := hbad
  · exact hP hbad a h
  · rw [ofJson_optional hnull] at h
    obtain ⟨b, hb, -⟩ := Except.bind_eq_ok.mp h
    exact ih hb hbad

theorem refuses_list (hP : Faulty P) {inner : Shape α} (ih : inner.Refuses P) :
    inner.list.Refuses P := by
  intro value a h hbad
  obtain hbad | ⟨xs, rfl, x, hx, hbad⟩ := hbad
  · exact hP hbad a h
  · rw [ofJson, mapM_eq_ok_iff] at h
    have hx := List.mem_map_of_mem (f := inner.ofJson) hx
    rw [h] at hx
    obtain ⟨b, -, hb⟩ := List.mem_map.mp hx
    exact ih hb.symm hbad

theorem refuses_table (hP : Faulty P) {inner : Shape α} (ih : inner.Refuses P) :
    inner.table.Refuses P := by
  intro value t h hbad
  obtain hbad | ⟨ms, rfl, m, hm, hbad⟩ := hbad
  · exact hP hbad t h
  · obtain ⟨a, ha⟩ := (ofJson_table_eq_ok_iff.mp h).1 m hm
    exact ih ha hbad

end Shape

namespace Fields

variable {β σ γ : Type}

/-- Both readings of the fields, by name and by position, refuse a value with such a part. -/
structure Refuses (P : {β : Type} → Shape β → Json → Prop) (fields : Fields σ γ) : Prop where
  gather : ∀ {ms g}, fields.gather? ms = some g → ∀ m ∈ ms, ¬fields.SomewhereMember P m.1 m.2
  items : ∀ {expected index xs r}, fields.ofItems expected index xs = .ok r →
    ¬fields.SomewhereItems P xs

theorem refuses_nil : nil.Refuses P where
  gather _ _ _ hbad := hbad
  items _ hbad := hbad

/-- Of a field that has a value each member has been read. -/
theorem exists_of_value? {presence : Presence β} {shape : Shape β} {ms : List (String × Json)}
    {b : β} (h : presence.value? shape ms = some b) {m : String × Json} (hm : m ∈ ms) :
    shape.ofJson m.2 = .ok b :=
  (Presence.reads_of_value? h).of_mem (List.mem_map_of_mem hm) |>.2

theorem refuses_cons {name : String} {presence : Presence β} {shape : Shape β}
    {rest : Fields σ γ} (hshape : shape.Refuses P) (hrest : rest.Refuses P) :
    (cons name presence shape rest).Refuses P where
  gather {ms g} h m hm hbad := by
    obtain ⟨b, hb, h⟩ := Option.bind_eq_some_iff.mp h
    obtain ⟨bs, hbs, h⟩ := Option.bind_eq_some_iff.mp h
    rw [SomewhereMember] at hbad
    split at hbad
    · next hname =>
      have hm' : m ∈ named name ms := List.mem_filter.mpr ⟨hm, decide_eq_true hname⟩
      exact hshape (exists_of_value? hb hm') hbad
    · next hname =>
      have hm' : m ∈ unnamed name ms := List.mem_filter.mpr ⟨hm, decide_eq_true hname⟩
      exact hrest.gather hbs m hm' hbad
  items {expected index xs r} h hbad := by
    cases xs with
    | nil => exact hbad
    | cons x xs =>
      rw [ofItems] at h
      obtain ⟨b, hb, h⟩ := Except.bind_eq_ok.mp h
      obtain ⟨⟨bs, left⟩, hbs, h⟩ := Except.bind_eq_ok.mp h
      obtain hbad | hbad := hbad
      · exact hshape hb hbad
      · exact hrest.items hbs hbad

end Fields

namespace Shape

variable {α σ γ τ δ : Type}

theorem refuses_record (hP : Faulty P) {fields : Fields σ γ} (ih : fields.Refuses P)
    (name : String) (as : Assembly γ α) : (Shape.record name fields as).Refuses P := by
  intro value a h hbad
  obtain hbad | ⟨xs, rfl, hbad⟩ | ⟨ms, rfl, m, hm, hbad⟩ := hbad
  · exact hP hbad a h
  · rw [ofJson] at h
    obtain ⟨r, hr, -⟩ := Except.bind_eq_ok.mp h
    exact ih.items hr hbad
  · rw [← Except.toOption_eq_some_iff, toOption_ofJson_record] at h
    obtain ⟨values, hvalues, -⟩ := Option.map_eq_some_iff.mp h
    exact ih.gather hvalues m hm hbad

theorem refuses_tagged (hP : Faulty P) {tag : Fields σ γ} {own : Fields τ δ}
    (htag : tag.Refuses P) (hown : own.Refuses P) (name : String) (as : Assembly (γ × δ) α) :
    (Shape.tagged name tag own as).Refuses P := by
  intro value a h hbad
  obtain hbad | ⟨ms, rfl, m, hm, hbad⟩ := hbad
  · exact hP hbad a h
  · rw [← Except.toOption_eq_some_iff, toOption_ofJson_tagged] at h
    obtain ⟨values, hvalues, h⟩ := Option.bind_eq_some_iff.mp h
    obtain ⟨tags, htags, -⟩ := Option.map_eq_some_iff.mp h
    obtain hbad | ⟨hn, hbad⟩ := hbad
    · exact hown.gather hvalues m hm hbad
    · exact htag.gather htags m (List.mem_filter.mpr ⟨hm, decide_eq_true hn⟩) hbad

end Shape

mutual

theorem Shape.refuses (hP : Faulty P) : {α : Type} → (shape : Shape α) → shape.Refuses P
  | _, .leaf leaf => Shape.refuses_leaf hP leaf
  | _, .tree => Shape.refuses_tree hP
  | _, .optional inner => Shape.refuses_optional hP (inner.refuses hP)
  | _, .list inner => Shape.refuses_list hP (inner.refuses hP)
  | _, .table inner => Shape.refuses_table hP (inner.refuses hP)
  | _, .choice naming => Shape.refuses_choice hP naming
  | _, .record name fields as => Shape.refuses_record hP (fields.refuses hP) name as
  | _, .tagged name tag own as =>
    Shape.refuses_tagged hP (tag.refuses hP) (own.refuses hP) name as

theorem Fields.refuses (hP : Faulty P) : {σ γ : Type} → (fields : Fields σ γ) → fields.Refuses P
  | _, _, .nil => Fields.refuses_nil
  | _, _, .cons _ _ shape rest => Fields.refuses_cons (shape.refuses hP) (rest.refuses hP)

end

/-- A document is not accepted if its survey, should it have one, has a faulty part. -/
theorem Shape.decode_ne_ok_of_somewhere {α : Type} {shape : Shape α} (hP : Faulty P)
    {document : Bytes} (h : ∀ value, Surveys document value → shape.Somewhere P value) (a : α) :
    shape.decode document ≠ .ok a := by
  intro ha
  obtain ⟨value, hvalue, hmeans⟩ := shape.exists_survey_of_decode ha
  exact shape.refuses hP hmeans (h value hvalue)

end Provisioning
