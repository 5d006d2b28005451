import Provisioning.Proofs.Schema.Refusing
import Provisioning.Proofs.Schema.Settling

/-!
# Repeated names

What an object means if it repeats a name depends on who reads it. A record refuses a field that it
is given twice, whatever the values are and wherever the two stand (`Shape.RepeatsField`). A table
and a value that is kept as a tree have the last value of the name. A name out of a list has to be
alone in its object.

So a value is accepted if and only if its settled form is, which has the last member of each name at
every level, and the value spoils nothing by a member that is not there (`Shape.Spoils`): no field
and no name out of a list is given twice, and in a table also the values that are not kept could
have been (`Shape.ofJson_eq_ok_iff_of_settled`).
-/

set_option autoImplicit false

namespace Provisioning

open Json

/-! ## What must not be repeated -/

/-- The value is an object with two members of the name of one field. The fields of a tag stand
among those of its record. -/
def Shape.RepeatsField : {α : Type} → Shape α → Json → Prop
  | _, .record _ fields _, value =>
    ∃ ms, value = .object ms ∧ ∃ name ∈ fields.names, 1 < (named name ms).length
  | _, .tagged _ tag own _, value =>
    ∃ ms, value = .object ms ∧ ∃ name ∈ tag.names ++ own.names, 1 < (named name ms).length
  | _, _, _ => False

/-- The value has members that its settled form has not, and that are a fault all the same. -/
def Shape.Spoils : {α : Type} → Shape α → Json → Prop
  | _, .table inner, value => ∃ ms, value = .object ms ∧ ∃ m ∈ ms, ∀ a, inner.ofJson m.2 ≠ .ok a
  | _, .choice _, value => ∃ ms, value = .object ms ∧ 1 < ms.length
  | _, shape, value => shape.RepeatsField value

namespace Fields

theorem length_named_of_value? {β : Type} {presence : Presence β} {shape : Shape β}
    {ms : List (String × Json)} {b : β} (h : presence.value? shape ms = some b) :
    ms.length ≤ 1 := by
  match ms with
  | [] => exact Nat.zero_le 1
  | [_] => exact Nat.le_refl 1
  | _ :: _ :: _ => cases h

/-- Of each field there is one member at most. -/
theorem length_named_of_gather? : {σ γ : Type} → {fields : Fields σ γ} →
    {ms : List (String × Json)} → {g : γ} → fields.gather? ms = some g →
    ∀ name ∈ fields.names, (named name ms).length ≤ 1
  | _, _, nil, _, _, _ => nofun
  | _, _, cons field presence shape rest, ms, _, h => by
    obtain ⟨b, hb, h⟩ := Option.bind_eq_some_iff.mp h
    obtain ⟨bs, hbs, -⟩ := Option.bind_eq_some_iff.mp h
    intro name hname
    by_cases hn : name = field
    · subst hn
      exact length_named_of_value? hb
    · have hrest := length_named_of_gather? hbs name ((List.mem_cons.mp hname).resolve_left hn)
      rwa [named_unnamed, if_neg hn] at hrest

end Fields

theorem faulty_repeatsField : Faulty Shape.RepeatsField := by
  intro β shape value hbad b h
  cases shape with
  | record _ fields _ =>
    obtain ⟨ms, rfl, name, hname, htwice⟩ := hbad
    rw [← Except.toOption_eq_some_iff, Shape.toOption_ofJson_record] at h
    obtain ⟨g, hg, -⟩ := Option.map_eq_some_iff.mp h
    exact Nat.not_le.mpr htwice (Fields.length_named_of_gather? hg name hname)
  | tagged _ tag own _ =>
    obtain ⟨ms, rfl, name, hname, htwice⟩ := hbad
    rw [← Except.toOption_eq_some_iff, Shape.toOption_ofJson_tagged] at h
    obtain ⟨g, hg, h⟩ := Option.bind_eq_some_iff.mp h
    obtain ⟨tags, htags, -⟩ := Option.map_eq_some_iff.mp h
    by_cases hown : name ∈ own.names
    · exact Nat.not_le.mpr htwice (Fields.length_named_of_gather? hg name hown)
    · -- A field of the tag is looked up among the members that the record has no field for.
      have htag := (List.mem_append.mp hname).resolve_right hown
      have hone := Fields.length_named_of_gather? htags name htag
      rw [named_filter (fun n => n ∉ own.names) name ms, if_pos (decide_eq_true hown)] at hone
      exact Nat.not_le.mpr htwice hone
  | _ => exact hbad

theorem faulty_spoils : Faulty Shape.Spoils := by
  intro β shape value hbad b h
  cases shape with
  | table inner =>
    obtain ⟨ms, rfl, m, hm, hbad⟩ := hbad
    obtain ⟨a, ha⟩ := (Shape.ofJson_table_eq_ok_iff.mp h).1 m hm
    exact hbad a ha
  | choice _ =>
    obtain ⟨ms, rfl, htwice⟩ := hbad
    match ms, htwice with
    | _ :: _ :: _, _ => cases h
  | record name fields as =>
    have hbad : (Shape.record name fields as).RepeatsField value := hbad
    exact faulty_repeatsField hbad b h
  | tagged name tag own as =>
    have hbad : (Shape.tagged name tag own as).RepeatsField value := hbad
    exact faulty_repeatsField hbad b h
  | _ => exact hbad

/-! ## What may be repeated -/

namespace Shape

variable {α : Type}

/-- What the shape accepts of a settled form, it accepts of a value that spoils nothing. -/
def Unsettles (shape : Shape α) : Prop :=
  ∀ {value settled a}, Settled value settled → ¬shape.Somewhere Spoils value →
    shape.ofJson settled = .ok a → shape.ofJson value = .ok a

theorem unsettles_leaf (leaf : Leaf α) : (Shape.leaf leaf).Unsettles := by
  intro value settled a h _ ha
  rw [ofJson] at ha ⊢
  rw [← h.found_eq, ha]

theorem unsettles_tree : Shape.tree.Unsettles := by
  intro value settled a h _ ha
  rw [ofJson] at ha ⊢
  rw [← h.tree_eq, ha]

theorem unsettles_optional {inner : Shape α} (ih : inner.Unsettles) :
    inner.optional.Unsettles := by
  intro value settled a h hgood ha
  by_cases hnull : value = .null
  · subst hnull
    cases h
    exact ha
  · have hnull' : settled ≠ .null := by
      rintro rfl
      cases h
      exact hnull rfl
    rw [ofJson_optional hnull'] at ha
    rw [ofJson_optional hnull]
    obtain ⟨b, hb, ha⟩ := Except.bind_eq_ok.mp ha
    rw [ih h (fun hbad => hgood (.inr ⟨hnull, hbad⟩)) hb]
    exact ha

theorem unsettles_list {inner : Shape α} (ih : inner.Unsettles) : inner.list.Unsettles := by
  intro value settled a h hgood ha
  cases h with
  | scalar _ => cases ha
  | object _ _ _ => cases ha
  | @array xs ys hs =>
    have hitems : ∀ x ∈ xs, ¬inner.Somewhere Spoils x := fun x hx hbad =>
      hgood (.inr ⟨xs, rfl, x, hx, hbad⟩)
    rw [ofJson] at ha ⊢
    clear hgood
    induction hs generalizing a with
    | nil => exact ha
    | @cons x y xs ys hxy _ ihs =>
      obtain ⟨hx, hxs⟩ := List.forall_mem_cons.mp hitems
      rw [List.mapM_cons] at ha ⊢
      obtain ⟨b, hb, ha⟩ := Except.bind_eq_ok.mp ha
      obtain ⟨bs, hbs, ha⟩ := Except.bind_eq_ok.mp ha
      rw [ih hxy hx hb, Except.ok_bind, ihs hbs hxs]
      exact ha

theorem unsettles_table {inner : Shape α} (ih : inner.Unsettles) : inner.table.Unsettles := by
  intro value settled t h hgood ht
  cases value with
  | scalar _ =>
    cases h
    cases ht
  | array _ =>
    cases h
    cases ht
  | object ms =>
    obtain ⟨ns, rfl, hs⟩ := h.exists_object
    obtain ⟨hvalues, hnames⟩ := ofJson_table_eq_ok_iff.mp ht
    refine ofJson_table_eq_ok_iff.mpr ⟨?_, ?_⟩
    · intro m hm
      by_contra hnone
      exact hgood (.inl ⟨ms, rfl, m, hm, not_exists.mp hnone⟩)
    · intro name
      rw [hnames]
      rcases hs.named_cases name with ⟨hms, hns⟩ | ⟨x, y, hx, hy, hxy⟩
      · rw [last?_eq_none_iff.mpr hms, last?_eq_none_iff.mpr hns]
      · have hy' : last? name ns = some y := by rw [last?, hy]; rfl
        obtain ⟨a, ha⟩ := hvalues _ (mem_of_last? hy')
        have hx' : ¬inner.Somewhere Spoils x := fun hbad =>
          hgood (.inr ⟨ms, rfl, _, mem_of_last? hx, hbad⟩)
        rw [hx, hy', Option.bind_some, Option.bind_some, ha, ih hxy hx' ha]

theorem unsettles_choice (naming : Naming α) : (Shape.choice naming).Unsettles := by
  intro value settled a h hgood ha
  cases value with
  | scalar _ =>
    cases h
    exact ha
  | array _ =>
    cases h
    cases ha
  | object ms =>
    obtain ⟨ns, rfl, hs⟩ := h.exists_object
    match ms, hgood with
    | [], _ =>
      have hns : ns = [] := List.eq_nil_iff_forall_not_mem.mpr fun m hm => by
        obtain ⟨_, hnone, -⟩ := hs.exists_of_mem hm
        cases hnone
      subst hns
      exact ha
    | [(name, x)], _ =>
      obtain ⟨y, rfl, hxy⟩ := hs.eq_singleton
      rw [ofJson] at ha ⊢
      rw [← hxy.found_eq]
      exact ha
    | _ :: _ :: _, hgood =>
      exact absurd ⟨_, rfl, Nat.succ_lt_succ (Nat.succ_pos _)⟩ hgood

end Shape

namespace Fields

variable {β σ γ : Type}

/-- Both readings of the fields, by name and by position, go back from a settled form. -/
structure Unsettles (fields : Fields σ γ) : Prop where
  gather : ∀ {ms ns g}, Settle Settled ms ns →
    (∀ m ∈ ms, ¬fields.SomewhereMember Shape.Spoils m.1 m.2) →
    (∀ name ∈ fields.names, (named name ms).length ≤ 1) →
    fields.gather? ns = some g → fields.gather? ms = some g
  items : ∀ {expected index xs ys g}, List.Forall₂ Settled xs ys →
    ¬fields.SomewhereItems Shape.Spoils xs →
    fields.ofItems expected index ys = .ok (g, []) → fields.ofItems expected index xs = .ok (g, [])

theorem unsettles_nil : nil.Unsettles where
  gather _ _ _ hg := hg
  items h _ hg := by
    cases h with
    | nil => exact hg
    | cons _ _ => cases hg

/-- A member that has its name for itself is the last one of the name. -/
theorem exists_named_eq_singleton {name : String} {ms : List (String × Json)} {x : Json}
    (hone : (named name ms).length ≤ 1) (hx : last? name ms = some x) :
    ∃ n, named name ms = [(n, x)] := by
  rw [last?] at hx
  cases hms : named name ms with
  | nil =>
    rw [hms] at hx
    cases hx
  | cons m others =>
    cases others with
    | nil =>
      rw [hms] at hx
      cases hx
      exact ⟨m.1, rfl⟩
    | cons _ _ =>
      rw [hms] at hone
      exact absurd hone (Nat.not_le.mpr (Nat.succ_lt_succ (Nat.succ_pos _)))

theorem unsettles_cons {name : String} {presence : Presence β} {shape : Shape β}
    {rest : Fields σ γ} (hshape : shape.Unsettles) (hrest : rest.Unsettles) :
    (cons name presence shape rest).Unsettles where
  gather {ms ns g} h hgood hone hg := by
    obtain ⟨b, hb, hg⟩ := Option.bind_eq_some_iff.mp hg
    obtain ⟨bs, hbs, hg⟩ := Option.bind_eq_some_iff.mp hg
    obtain ⟨hfirst, hothers⟩ := List.forall_mem_cons.mp hone
    have hfield : presence.value? shape (named name ms) = some b := by
      rcases h.named_cases name with ⟨hms, hns⟩ | ⟨x, y, hx, hns, hxy⟩
      · rw [hms]
        rwa [hns] at hb
      · obtain ⟨n, hms⟩ := exists_named_eq_singleton hfirst hx
        have hx' : ¬shape.Somewhere Shape.Spoils x := by
          have h := hgood _ (mem_of_last? hx)
          rwa [SomewhereMember, if_pos rfl] at h
        rw [hns] at hb
        rw [hms]
        exact Except.toOption_eq_some_iff.mpr (hshape hxy hx' (Except.toOption_eq_some_iff.mp hb))
    have hgather : rest.gather? (unnamed name ms) = some bs := by
      refine hrest.gather (h.filter fun n => n ≠ name) ?_ ?_ hbs
      · intro m hm
        obtain ⟨hm, hn⟩ := List.mem_filter.mp hm
        have h := hgood m hm
        rwa [SomewhereMember, if_neg (of_decide_eq_true hn)] at h
      · intro n hn
        exact Nat.le_trans (List.filter_sublist.filter _).length_le (hothers n hn)
    rw [gather?, hfield, hgather]
    exact hg
  items {expected index xs ys g} h hgood hg := by
    cases h with
    | nil => exact hg
    | @cons x y xs ys hxy hs =>
      rw [ofItems] at hg ⊢
      obtain ⟨b, hb, hg⟩ := Except.bind_eq_ok.mp hg
      obtain ⟨⟨bs, left⟩, hbs, hg⟩ := Except.bind_eq_ok.mp hg
      cases hg
      rw [hshape hxy (fun hbad => hgood (.inl hbad)) hb, Except.ok_bind,
        hrest.items hs (fun hbad => hgood (.inr hbad)) hbs]
      rfl

end Fields

namespace Shape

variable {α σ γ τ δ : Type}

theorem unsettles_record {fields : Fields σ γ} (ih : fields.Unsettles) (name : String)
    (as : Assembly γ α) : (Shape.record name fields as).Unsettles := by
  intro value settled a h hgood ha
  cases value with
  | scalar _ =>
    cases h
    cases ha
  | array xs =>
    cases h with
    | array hs =>
      rw [ofJson] at ha ⊢
      obtain ⟨⟨values, left⟩, hvalues, ha⟩ := Except.bind_eq_ok.mp ha
      cases left with
      | nil =>
        rw [ih.items hs (fun hbad => hgood (.inr (.inl ⟨xs, rfl, hbad⟩))) hvalues]
        exact ha
      | cons _ _ => cases ha
  | object ms =>
    obtain ⟨ns, rfl, hs⟩ := h.exists_object
    rw [← Except.toOption_eq_some_iff, toOption_ofJson_record] at ha ⊢
    obtain ⟨values, hvalues, ha⟩ := Option.map_eq_some_iff.mp ha
    have hone : ∀ name ∈ fields.names, (named name ms).length ≤ 1 := fun name hname =>
      Nat.not_lt.mp fun htwice => hgood (.inl ⟨ms, rfl, name, hname, htwice⟩)
    rw [ih.gather hs (fun m hm hbad => hgood (.inr (.inr ⟨ms, rfl, m, hm, hbad⟩))) hone hvalues]
    exact congrArg some ha

theorem unsettles_tagged {tag : Fields σ γ} {own : Fields τ δ} (htag : tag.Unsettles)
    (hown : own.Unsettles) (name : String) (as : Assembly (γ × δ) α) :
    (Shape.tagged name tag own as).Unsettles := by
  intro value settled a h hgood ha
  cases value with
  | scalar _ =>
    cases h
    cases ha
  | array _ =>
    cases h
    cases ha
  | object ms =>
    obtain ⟨ns, rfl, hs⟩ := h.exists_object
    rw [← Except.toOption_eq_some_iff, toOption_ofJson_tagged] at ha ⊢
    obtain ⟨values, hvalues, ha⟩ := Option.bind_eq_some_iff.mp ha
    obtain ⟨tags, htags, ha⟩ := Option.map_eq_some_iff.mp ha
    have hone : ∀ name ∈ tag.names ++ own.names, (named name ms).length ≤ 1 :=
      fun name hname => Nat.not_lt.mp fun htwice => hgood (.inl ⟨ms, rfl, name, hname, htwice⟩)
    have hown' : own.gather? ms = some values :=
      hown.gather hs (fun m hm hbad => hgood (.inr ⟨ms, rfl, m, hm, .inl hbad⟩))
        (fun name hname => hone name (List.mem_append_right _ hname)) hvalues
    have hothers : tag.gather? (ms.filter fun m => m.1 ∉ own.names) = some tags := by
      refine htag.gather (hs.filter fun n => n ∉ own.names) ?_ ?_ htags
      · intro m hm hbad
        obtain ⟨hm, hn⟩ := List.mem_filter.mp hm
        exact hgood (.inr ⟨ms, rfl, m, hm, .inr ⟨of_decide_eq_true hn, hbad⟩⟩)
      · intro n hn
        exact Nat.le_trans (List.filter_sublist.filter _).length_le
          (hone n (List.mem_append_left _ hn))
    rw [hown', Option.bind_some, hothers]
    exact congrArg some ha

end Shape

mutual

theorem Shape.unsettles : {α : Type} → (shape : Shape α) → shape.Unsettles
  | _, .leaf leaf => Shape.unsettles_leaf leaf
  | _, .tree => Shape.unsettles_tree
  | _, .optional inner => Shape.unsettles_optional inner.unsettles
  | _, .list inner => Shape.unsettles_list inner.unsettles
  | _, .table inner => Shape.unsettles_table inner.unsettles
  | _, .choice naming => Shape.unsettles_choice naming
  | _, .record name fields as => Shape.unsettles_record fields.unsettles name as
  | _, .tagged name tag own as => Shape.unsettles_tagged tag.unsettles own.unsettles name as

theorem Fields.unsettles : {σ γ : Type} → (fields : Fields σ γ) → fields.Unsettles
  | _, _, .nil => Fields.unsettles_nil
  | _, _, .cons _ _ shape rest => Fields.unsettles_cons shape.unsettles rest.unsettles

end

/-- A value is accepted if and only if its settled form is, with the same answer, and none of its
parts spoils anything. -/
theorem Shape.ofJson_eq_ok_iff_of_settled {α : Type} {shape : Shape α} {value settled : Json}
    (h : Settled value settled) {a : α} :
    shape.ofJson value = .ok a ↔
      shape.ofJson settled = .ok a ∧ ¬shape.Somewhere Spoils value :=
  ⟨fun ha => ⟨shape.ofJson_settled h ha, shape.refuses faulty_spoils ha⟩,
    fun ⟨ha, hgood⟩ => shape.unsettles h hgood ha⟩

end Provisioning
