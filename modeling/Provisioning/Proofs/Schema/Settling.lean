import Mathlib.Data.List.Forall2
import Provisioning.Proofs.Json.Values
import Provisioning.Proofs.Schema.Slots

/-!
# Members in another order, or said twice

Two values can say the same with other members: in another order, or with a name that one of them
repeats. `Json.Settled value settled` says that `settled` is such a value that repeats no name and
has the last member of each, at every level. Whatever shape accepts the first also accepts the
second, with the same answer (`Shape.ofJson_settled`).

A tree is settled in this sense (`Json.settled_tree`). And a value in which no name is repeated is
itself a settled form of its tree (`Json.Distinct.settled`), so the two are accepted alike. Without
that condition the tree may be accepted where the value is not: a repeated field is refused, and the
tree does not have it.
-/

set_option autoImplicit false

namespace Provisioning

/-! ## Members -/

/-- The members on the right repeat no name, have the names of those on the left, and a value that
is related to the last one there. -/
structure Settle {α β : Type} (R : α → β → Prop) (members : List (String × α))
    (settled : List (String × β)) : Prop where
  once : (settled.map (·.1)).Nodup
  absent_iff : ∀ name, last? name settled = none ↔ last? name members = none
  related : ∀ {name a b}, last? name members = some a → last? name settled = some b → R a b

namespace Settle

variable {α β : Type} {R : α → β → Prop} {members : List (String × α)}
  {settled : List (String × β)}

/-- What the two lists say about one name. -/
theorem named_cases (h : Settle R members settled) (name : String) :
    (named name members = [] ∧ named name settled = []) ∨
      ∃ a b, last? name members = some a ∧ named name settled = [(name, b)] ∧ R a b := by
  cases hb : last? name settled with
  | none => exact .inl ⟨last?_eq_none_iff.mp ((h.absent_iff name).mp hb), last?_eq_none_iff.mp hb⟩
  | some b =>
    cases ha : last? name members with
    | none => rw [(h.absent_iff name).mpr ha] at hb; cases hb
    | some a => exact .inr ⟨a, b, rfl, by rw [named_of_nodup h.once, hb]; rfl, h.related ha hb⟩

theorem exists_of_mem (h : Settle R members settled) {name : String} {b : β}
    (hb : (name, b) ∈ settled) : ∃ a, (name, a) ∈ members ∧ R a b := by
  have hmem : (name, b) ∈ named name settled := List.mem_filter.mpr ⟨hb, by simp⟩
  rcases h.named_cases name with ⟨-, hnil⟩ | ⟨a, b', ha, hone, hR⟩
  · rw [hnil] at hmem
    cases hmem
  · rw [hone, List.mem_singleton] at hmem
    cases hmem
    exact ⟨a, mem_of_last? ha, hR⟩

theorem eq_singleton {name : String} {a : α} (h : Settle R [(name, a)] settled) :
    ∃ b, settled = [(name, b)] ∧ R a b := by
  have hnames : ∀ m ∈ settled, m.1 = name := by
    rintro ⟨n, b⟩ hm
    obtain ⟨a', ha', -⟩ := h.exists_of_mem hm
    cases List.mem_singleton.mp ha'
    rfl
  have hall : named name settled = settled :=
    List.filter_eq_self.mpr fun m hm => decide_eq_true (hnames m hm)
  rcases h.named_cases name with ⟨hnil, -⟩ | ⟨a', b, ha', hone, hR⟩
  · simp [named] at hnil
  · have : a' = a := by simpa [last?, named] using ha'.symm
    exact ⟨b, hall.symm.trans hone, this ▸ hR⟩

/-- Names may be left out on both sides. -/
theorem filter (h : Settle R members settled) (p : String → Bool) :
    Settle R (members.filter fun m => p m.1) (settled.filter fun m => p m.1) where
  once := h.once.sublist (List.filter_sublist.map _)
  absent_iff name := by
    rw [last?_filter, last?_filter]
    by_cases hp : p name
    · simpa [hp] using h.absent_iff name
    · simp [hp]
  related {name a b} ha hb := by
    rw [last?_filter] at ha hb
    by_cases hp : p name
    · exact h.related (by simpa [hp] using ha) (by simpa [hp] using hb)
    · simp [hp] at ha

end Settle

namespace Json

/-- The value on the right has the members of the one on the left, at every level, in any order and
each name once. -/
inductive Settled : Json → Json → Prop where
  | scalar (value : Scalar) : Settled (scalar value) (scalar value)
  | array {xs ys : List Json} (h : List.Forall₂ Settled xs ys) : Settled (array xs) (array ys)
  | object {ms ns : List (String × Json)} (once : (ns.map (·.1)).Nodup)
    (absent_iff : ∀ name, last? name ns = none ↔ last? name ms = none)
    (related : ∀ {name x y}, last? name ms = some x → last? name ns = some y → Settled x y) :
    Settled (object ms) (object ns)

/-- The settled form of an object is an object. -/
theorem Settled.exists_object {ms : List (String × Json)} {settled : Json}
    (h : Settled (.object ms) settled) : ∃ ns, settled = .object ns ∧ Settle Settled ms ns := by
  cases h with
  | @object _ ns once absent_iff related => exact ⟨ns, rfl, once, absent_iff, related⟩

theorem Settled.found_eq {value settled : Json} (h : Settled value settled) :
    settled.found = value.found := by
  cases h <;> rfl

/-- A value and its settled form have one tree. -/
theorem Settled.tree_eq {value settled : Json} (h : Settled value settled) :
    settled.tree = value.tree := by
  induction value generalizing settled with
  | scalar value =>
    cases h
    rfl
  | array xs ih =>
    cases h with
    | @array _ ys h =>
      rw [tree, tree, treeItems_eq_map, treeItems_eq_map]
      congr 1
      induction h with
      | nil => rfl
      | cons hx _ ihs =>
        rw [List.map_cons, List.map_cons, ih _ List.mem_cons_self hx,
          ihs fun x hx => ih x (List.mem_cons_of_mem _ hx)]
  | object ms ih =>
    cases h with
    | @object _ ns once absent_iff related =>
      rw [tree, tree, treeMembers_eq_map, treeMembers_eq_map]
      congr 1
      -- Two tables with the last values of the same names are one table.
      refine Table.ext_get? ?_
      intro name
      rw [Table.get?_ofList, Table.get?_ofList, last?_map, last?_map]
      cases hx : last? name ms with
      | none => rw [(absent_iff name).mpr hx]
      | some x =>
        cases hy : last? name ns with
        | none => rw [(absent_iff name).mp hy] at hx; cases hx
        | some y => exact congrArg some (ih _ (mem_of_last? hx) (related hx hy))

/-- The tree of a value is a settled form of it. -/
theorem settled_tree (value : Json) : Settled value value.tree := by
  induction value with
  | scalar value => exact .scalar value
  | array xs ih =>
    rw [tree, treeItems_eq_map]
    refine .array (List.forall₂_map_right_iff.mpr (List.forall₂_same.mpr ih))
  | object ms ih =>
    rw [tree, treeMembers_eq_map]
    refine .object (Table.nodup_names _) ?_ ?_
    · intro name
      rw [Table.last?_entries, Table.get?_ofList, last?_map, Option.map_eq_none_iff]
    · intro name x y hx hy
      rw [Table.last?_entries, Table.get?_ofList, last?_map, hx] at hy
      cases hy
      exact ih _ (mem_of_last? hx)

/-! ## Values without repeated names -/

/-- A value that repeats no name is a settled form of its tree. -/
theorem Distinct.settled {value : Json} (h : value.Distinct) : Settled value.tree value := by
  induction value with
  | scalar value => exact .scalar value
  | array xs ih =>
    rw [tree, treeItems_eq_map]
    refine .array (List.forall₂_map_left_iff.mpr (List.forall₂_same.mpr ?_))
    intro x hx
    exact ih x hx ((everywhere_array.mp h).2 x hx)
  | object ms ih =>
    rw [tree, treeMembers_eq_map]
    obtain ⟨honce, hvalues⟩ := everywhere_object.mp h
    refine .object honce ?_ ?_
    · intro name
      rw [Table.last?_entries, Table.get?_ofList, last?_map, Option.map_eq_none_iff]
    · intro name x y hx hy
      rw [Table.last?_entries, Table.get?_ofList, last?_map, hy] at hx
      cases hx
      have hmem := mem_of_last? hy
      exact ih _ hmem (hvalues _ hmem)

end Json

/-! ## What a settled form means -/

open Json

namespace Shape

variable {α β σ γ τ δ : Type}

/-- What the shape accepts, it accepts of a settled form. -/
def Settles (shape : Shape α) : Prop :=
  ∀ {value settled a}, Settled value settled → shape.ofJson value = .ok a →
    shape.ofJson settled = .ok a

theorem settles_leaf (leaf : Leaf α) : (Shape.leaf leaf).Settles := by
  intro value settled a h ha
  rw [Shape.ofJson] at ha ⊢
  rw [h.found_eq, ha]

theorem settles_tree : Shape.tree.Settles := by
  intro value settled a h ha
  rw [Shape.ofJson] at ha ⊢
  rw [h.tree_eq, ha]

theorem settles_optional {inner : Shape α} (ih : inner.Settles) : inner.optional.Settles := by
  intro value settled a h ha
  by_cases hnull : value = .null
  · subst hnull
    cases h
    exact ha
  · have hnull' : settled ≠ .null := by
      rintro rfl
      cases h
      exact hnull rfl
    rw [ofJson_optional hnull] at ha
    rw [ofJson_optional hnull']
    obtain ⟨b, hb, ha⟩ := Except.bind_eq_ok.mp ha
    rw [ih h hb]
    exact ha

theorem settles_list {inner : Shape α} (ih : inner.Settles) : inner.list.Settles := by
  intro value settled a h ha
  cases h with
  | scalar _ => cases ha
  | object _ _ _ => cases ha
  | @array xs ys hs =>
    rw [Shape.ofJson] at ha ⊢
    induction hs generalizing a with
    | nil => exact ha
    | @cons x y xs ys hxy _ ihs =>
      rw [List.mapM_cons] at ha ⊢
      obtain ⟨b, hb, ha⟩ := Except.bind_eq_ok.mp ha
      obtain ⟨bs, hbs, ha⟩ := Except.bind_eq_ok.mp ha
      rw [ih hxy hb, Except.ok_bind, ihs hbs]
      exact ha

theorem settles_table {inner : Shape α} (ih : inner.Settles) : inner.table.Settles := by
  intro value settled t h ht
  cases value with
  | scalar _ => cases ht
  | array _ => cases ht
  | object ms =>
    obtain ⟨ns, rfl, hs⟩ := h.exists_object
    obtain ⟨hvalues, hnames⟩ := ofJson_table_eq_ok_iff.mp ht
    refine ofJson_table_eq_ok_iff.mpr ⟨?_, ?_⟩
    · intro m hm
      obtain ⟨x, hx, hxm⟩ := hs.exists_of_mem hm
      obtain ⟨a, ha⟩ := hvalues _ hx
      exact ⟨a, ih hxm ha⟩
    · intro name
      rw [hnames]
      rcases hs.named_cases name with ⟨hms, hns⟩ | ⟨x, y, hx, hy, hxy⟩
      · rw [last?_eq_none_iff.mpr hms, last?_eq_none_iff.mpr hns]
      · obtain ⟨a, ha⟩ := hvalues _ (mem_of_last? hx)
        have hy' : last? name ns = some y := by rw [last?, hy]; rfl
        rw [hx, hy', Option.bind_some, Option.bind_some, ha, ih hxy ha]

/-- A name in an object has to be alone there, and so it is in the settled form. -/
theorem settles_choice (naming : Naming α) : (Shape.choice naming).Settles := by
  intro value settled a h ha
  cases value with
  | scalar _ =>
    cases h
    exact ha
  | array _ => cases ha
  | object ms =>
    match ms, ha with
    | [(name, x)], ha =>
      obtain ⟨ns, rfl, hs⟩ := h.exists_object
      obtain ⟨y, rfl, hxy⟩ := hs.eq_singleton
      rw [Shape.ofJson] at ha ⊢
      rw [hxy.found_eq]
      exact ha

end Shape

namespace Fields

variable {β σ γ : Type}

/-- Both readings of the fields, by name and by position, go over to a settled form. -/
structure Settles (fields : Fields σ γ) : Prop where
  gather : ∀ {ms ns g}, Settle Settled ms ns → fields.gather? ms = some g →
    fields.gather? ns = some g
  items : ∀ {expected index xs ys g}, List.Forall₂ Settled xs ys →
    fields.ofItems expected index xs = .ok (g, []) → fields.ofItems expected index ys = .ok (g, [])

theorem settles_nil : nil.Settles where
  gather _ hg := hg
  items h hg := by
    cases h with
    | nil => exact hg
    | cons _ _ => cases hg

theorem settles_cons {name : String} {presence : Presence β} {shape : Shape β}
    {rest : Fields σ γ} (hshape : shape.Settles) (hrest : rest.Settles) :
    (cons name presence shape rest).Settles where
  gather {ms ns g} h hg := by
    obtain ⟨b, hb, hg⟩ := Option.bind_eq_some_iff.mp hg
    obtain ⟨bs, hbs, hg⟩ := Option.bind_eq_some_iff.mp hg
    have hfield : presence.value? shape (named name ns) = some b := by
      rcases h.named_cases name with ⟨hms, hns⟩ | ⟨x, y, hx, hns, hxy⟩
      · rw [hns]
        rwa [hms] at hb
      · -- A field is accepted when it has one member, which is then the last one.
        rw [last?] at hx
        cases hms : named name ms with
        | nil => rw [hms] at hx; cases hx
        | cons m others =>
          cases others with
          | nil =>
            rw [hms] at hx hb
            cases hx
            rw [hns]
            exact Except.toOption_eq_some_iff.mpr
              (hshape hxy (Except.toOption_eq_some_iff.mp hb))
          | cons _ _ => rw [hms] at hb; cases hb
    have hothers : rest.gather? (unnamed name ns) = some bs :=
      hrest.gather (h.filter fun n => n ≠ name) hbs
    rw [gather?, hfield, hothers]
    exact hg
  items {expected index xs ys g} h hg := by
    cases h with
    | nil => exact hg
    | @cons x y xs ys hxy hs =>
      rw [ofItems] at hg ⊢
      obtain ⟨b, hb, hg⟩ := Except.bind_eq_ok.mp hg
      obtain ⟨⟨bs, left⟩, hbs, hg⟩ := Except.bind_eq_ok.mp hg
      cases hg
      rw [hshape hxy hb, Except.ok_bind, hrest.items hs hbs]
      rfl

end Fields

namespace Shape

variable {α σ γ τ δ : Type}

theorem settles_record {fields : Fields σ γ} (ih : fields.Settles) (name : String)
    (as : Assembly γ α) : (Shape.record name fields as).Settles := by
  intro value settled a h ha
  cases value with
  | scalar _ => cases ha
  | array xs =>
    cases h with
    | array hs =>
      rw [Shape.ofJson] at ha ⊢
      obtain ⟨⟨values, left⟩, hvalues, ha⟩ := Except.bind_eq_ok.mp ha
      cases left with
      | nil =>
        rw [ih.items hs hvalues]
        exact ha
      | cons _ _ => cases ha
  | object ms =>
    obtain ⟨ns, rfl, hs⟩ := h.exists_object
    rw [← Except.toOption_eq_some_iff, toOption_ofJson_record] at ha ⊢
    obtain ⟨values, hvalues, ha⟩ := Option.map_eq_some_iff.mp ha
    rw [ih.gather hs hvalues]
    exact congrArg some ha

theorem settles_tagged {tag : Fields σ γ} {own : Fields τ δ} (htag : tag.Settles)
    (hown : own.Settles) (name : String) (as : Assembly (γ × δ) α) :
    (Shape.tagged name tag own as).Settles := by
  intro value settled a h ha
  cases value with
  | scalar _ => cases ha
  | array _ => cases ha
  | object ms =>
    obtain ⟨ns, rfl, hs⟩ := h.exists_object
    rw [← Except.toOption_eq_some_iff, toOption_ofJson_tagged] at ha ⊢
    obtain ⟨values, hvalues, ha⟩ := Option.bind_eq_some_iff.mp ha
    obtain ⟨tags, htags, ha⟩ := Option.map_eq_some_iff.mp ha
    have hothers := htag.gather (hs.filter fun n => n ∉ own.names) htags
    rw [hown.gather hs hvalues, Option.bind_some, hothers]
    exact congrArg some ha

end Shape

mutual

theorem Shape.settles : {α : Type} → (shape : Shape α) → shape.Settles
  | _, .leaf leaf => Shape.settles_leaf leaf
  | _, .tree => Shape.settles_tree
  | _, .optional inner => Shape.settles_optional inner.settles
  | _, .list inner => Shape.settles_list inner.settles
  | _, .table inner => Shape.settles_table inner.settles
  | _, .choice naming => Shape.settles_choice naming
  | _, .record name fields as => Shape.settles_record fields.settles name as
  | _, .tagged name tag own as => Shape.settles_tagged tag.settles own.settles name as

theorem Fields.settles : {σ γ : Type} → (fields : Fields σ γ) → fields.Settles
  | _, _, .nil => Fields.settles_nil
  | _, _, .cons _ _ shape rest => Fields.settles_cons shape.settles rest.settles

end

/-- Whatever a shape accepts, it accepts of the settled form, with the same answer. -/
theorem Shape.ofJson_settled {α : Type} (shape : Shape α) {value settled : Json} {a : α}
    (h : Settled value settled) (ha : shape.ofJson value = .ok a) : shape.ofJson settled = .ok a :=
  shape.settles h ha

end Provisioning
