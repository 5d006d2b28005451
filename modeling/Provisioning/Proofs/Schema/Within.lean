import Provisioning.Proofs.Schema.Surveying
import Provisioning.Proofs.Schema.Settling

/-!
# What is read within a depth

A reader is told how many containers may be open, and a record passes one less on to its fields. So
of a record that has been read each field has the value that its absence means, or one that has been
read one level further in (`Shape.taken_of_read`), wherever in the document it stood and whatever
stood beside it. Members that are passed over are not counted, and nothing is said of them.

A value of unknown shape nests no deeper than it was read, and neither does its tree, which may have
lost members (`Json.depth_tree_le`).
-/

set_option autoImplicit false

namespace Provisioning

open Ascii Container Json

/-! ## Loops -/

namespace Container

variable {α σ κ : Type}

/-- What every member preserves holds at the end of an object. -/
theorem members_invariant {care : Care} {name : Reader κ} {member : κ → σ → Reader σ}
    {I : σ → Prop}
    (hmember : ∀ {k state s state' rest}, I state → member k state s = .ok (state', rest) →
      I state') {n : Nat} {first : Bool} {state state' : σ} {s rest : Bytes} (hstate : I state)
    (h : members care name member n first state s = .ok (state', rest)) : I state' := by
  induction n generalizing first state s with
  | zero => cases h
  | succ n ih =>
    obtain ⟨step, -, h⟩ := Except.bind_eq_ok.mp h
    cases step with
    | closed t =>
      cases h
      exact hstate
    | part t =>
      obtain ⟨⟨k, s₁⟩, -, h⟩ := Except.bind_eq_ok.mp h
      obtain ⟨⟨state₁, s₂⟩, hm, h⟩ := Except.bind_eq_ok.mp h
      exact ih (hmember hstate hm) h

end Container

/-! ## Fields -/

/-- The value has been read off some bytes, with no more containers open than the depth allows. -/
def Shape.Gave {β : Type} (shape : Shape β) (depth : Nat) (b : β) : Prop :=
  ∃ s rest, shape.read depth s = .ok (b, rest)

theorem Shape.gave_of_decode {β : Type} {shape : Shape β} {document : Bytes} {b : β}
    (h : shape.decode document = .ok b) : shape.Gave maxDepth b := by
  obtain ⟨rest, hread, -⟩ := Shape.decode_eq_ok_iff_readEnd.mp h
  exact ⟨document, rest, hread⟩

namespace Fields

/-- Every slot that is filled holds a value that has been read. -/
def Filled (depth : Nat) : {σ γ : Type} → Fields σ γ → σ → Prop
  | _, _, nil, () => True
  | _, _, cons _ _ shape rest, (slot, slots) =>
    (∀ b, slot = some b → shape.Gave depth b) ∧ rest.Filled depth slots

/-- Every value is the one that the absence of its field means, or has been read. -/
def Taken (depth : Nat) : {σ γ : Type} → Fields σ γ → γ → Prop
  | _, _, nil, () => True
  | _, _, cons _ presence shape rest, (b, bs) =>
    (presence.absent? = some b ∨ shape.Gave depth b) ∧ rest.Taken depth bs

theorem filled_empty : {σ γ : Type} → (fields : Fields σ γ) → (depth : Nat) →
    fields.Filled depth fields.empty
  | _, _, nil, _ => trivial
  | _, _, cons _ _ _ rest, depth => by
    refine ⟨?_, rest.filled_empty depth⟩
    intro b hb
    cases hb

theorem Filled.readMember? {depth : Nat} {name : String} {s rest : Bytes} : {σ γ : Type} →
    {fields : Fields σ γ} → {slots slots' : σ} → fields.Filled depth slots →
    fields.readMember? name slots depth s = some (.ok (slots', rest)) →
    fields.Filled depth slots'
  | _, _, nil, _, _, _, h => nomatch h
  | _, _, cons field presence shape others, (slot, slots), slots', hslots, h => by
    rw [Fields.readMember?] at h
    split at h
    · split at h
      · cases h
      · obtain ⟨s₁, -, h⟩ := Except.bind_eq_ok.mp (Option.some.inj h)
        obtain ⟨⟨b, s₂⟩, hb, h⟩ := Except.bind_eq_ok.mp h
        cases h
        refine ⟨?_, hslots.2⟩
        intro b' hb'
        cases hb'
        exact ⟨s₁, rest, hb⟩
    · obtain ⟨result, hresult, h⟩ := Option.map_eq_some_iff.mp h
      obtain ⟨⟨slots'', s₂⟩, rfl, h⟩ := Except.map_eq_ok.mp h
      cases h
      exact ⟨hslots.1, hslots.2.readMember? hresult⟩

/-- A member that is passed over fills no slot. -/
theorem Filled.member_or_skip {σ γ : Type} {fields : Fields σ γ} {depth : Nat} {name : String}
    {slots slots' : σ} {s rest : Bytes} (hslots : fields.Filled depth slots)
    (h : ((fields.readMember? name slots depth s).getD do
      return (slots, ← Json.skip (← readColon s))) = .ok (slots', rest)) :
    fields.Filled depth slots' := by
  cases hr : fields.readMember? name slots depth s with
  | none =>
    rw [hr] at h
    obtain ⟨s₁, -, h⟩ := Except.bind_eq_ok.mp h
    obtain ⟨s₂, -, h⟩ := Except.bind_eq_ok.mp h
    cases h
    exact hslots
  | some result =>
    rw [hr] at h
    exact hslots.readMember? (hr.trans (congrArg some h))

theorem Filled.collect {depth : Nat} : {σ γ : Type} → {fields : Fields σ γ} → {slots : σ} →
    {values : γ} → fields.Filled depth slots → fields.collect slots = .ok values →
    fields.Taken depth values
  | _, _, nil, _, (), _, _ => trivial
  | _, _, cons name presence shape rest, (slot, slots), (b, bs), hslots, h => by
    rw [Fields.collect] at h
    split at h
    · cases h
    · next b' hb =>
      obtain ⟨bs', hbs, h⟩ := Except.bind_eq_ok.mp h
      cases h
      refine ⟨?_, hslots.2.collect hbs⟩
      cases slot with
      | none => exact .inl hb
      | some b' =>
        cases hb
        exact .inr (hslots.1 _ rfl)

theorem taken_of_defaults {depth : Nat} {expected : String} : {σ γ : Type} →
    (fields : Fields σ γ) → {index : Nat} → {values : γ} →
    fields.defaults expected index = .ok values → fields.Taken depth values
  | _, _, nil, _, (), _ => trivial
  | _, _, cons name presence shape rest, index, (b, bs), h => by
    rw [defaults] at h
    split at h
    · cases h
    · next b' hb =>
      obtain ⟨bs', hbs, h⟩ := Except.bind_eq_ok.mp h
      cases h
      exact ⟨.inl hb, rest.taken_of_defaults hbs⟩

theorem taken_of_readItems {depth : Nat} {expected : String} : {σ γ : Type} →
    (fields : Fields σ γ) → {index : Nat} → {s rest : Bytes} → {values : γ} →
    fields.readItems expected depth index s = .ok (values, rest) → fields.Taken depth values
  | _, _, nil, _, _, _, (), _ => trivial
  | _, _, cons name presence shape others, index, s, rest, (b, bs), h => by
    rw [readItems] at h
    obtain ⟨step, -, h⟩ := Except.bind_eq_ok.mp h
    cases step with
    | closed t => exact taken_of_defaults _ (Fault.check_eq_ok.mp h).1
    | part t =>
      obtain ⟨⟨b', s₁⟩, hb, h⟩ := Except.bind_eq_ok.mp h
      obtain ⟨⟨bs', s₂⟩, hbs, h⟩ := Except.bind_eq_ok.mp h
      cases h
      exact ⟨.inr ⟨t, s₁, hb⟩, others.taken_of_readItems hbs⟩

end Fields

/-! ## Records -/

/-- The fields of a record are read one level further in, if they are read at all. -/
theorem Shape.taken_of_read {α σ γ : Type} {name : String} {fields : Fields σ γ}
    {as : Assembly γ α} {depth : Nat} {a : α} (h : (Shape.record name fields as).Gave depth a) :
    ∃ depth', depth = depth' + 1 ∧ fields.Taken depth' (as.parts a) := by
  obtain ⟨s, rest, h⟩ := h
  rw [Shape.read] at h
  split at h
  · obtain ⟨depth', henter, h⟩ := Except.bind_eq_ok.mp h
    obtain ⟨⟨values, rest'⟩, hvalues, h⟩ := Except.bind_eq_ok.mp h
    cases h
    rw [as.parts_build]
    exact ⟨depth', eq_succ_of_enter henter, fields.taken_of_readItems hvalues⟩
  · obtain ⟨depth', henter, h⟩ := Except.bind_eq_ok.mp h
    obtain ⟨⟨slots, rest'⟩, hloop, h⟩ := Except.bind_eq_ok.mp h
    obtain ⟨⟨values, rest''⟩, hcheck, h⟩ := Except.bind_eq_ok.mp h
    obtain ⟨hcollect, rfl⟩ := Fault.check_eq_ok.mp hcheck
    cases h
    rw [as.parts_build]
    have hslots : fields.Filled depth' slots :=
      members_invariant (fun hslots hm => hslots.member_or_skip hm) (fields.filled_empty depth')
        hloop
    exact ⟨depth', eq_succ_of_enter henter, hslots.collect hcollect⟩
  · cases h

/-! ## Lists and tables -/

namespace Shape

variable {α : Type}

/-- The items of a list are read one level further in. -/
theorem gave_of_list {inner : Shape α} {depth : Nat} {items : List α}
    (h : inner.list.Gave depth items) :
    ∃ depth', depth = depth' + 1 ∧ ∀ a ∈ items, inner.Gave depth' a := by
  obtain ⟨s, rest, h⟩ := h
  rw [Shape.read] at h
  split at h
  · obtain ⟨depth', henter, h⟩ := Except.bind_eq_ok.mp h
    obtain ⟨as, has, hsome⟩ := items_of_loop (fun _ a _ => inner.Gave depth' a) some
      (fun hread => ⟨_, ⟨_, _, hread⟩, rfl⟩) h
    rw [mapM_some] at hsome
    cases hsome
    exact ⟨depth', eq_succ_of_enter henter,
      has.forall_mem (P := inner.Gave depth') fun _ _ _ ha => ha⟩
  · cases h

/-- The values of a table are read one level further in. -/
theorem gave_of_table {inner : Shape α} {depth : Nat} {t : Table α}
    (h : inner.table.Gave depth t) :
    ∃ depth', depth = depth' + 1 ∧ ∀ name a, t.get? name = some a → inner.Gave depth' a := by
  obtain ⟨s, rest, h⟩ := h
  rw [Shape.read] at h
  split at h
  · obtain ⟨depth', henter, h⟩ := Except.bind_eq_ok.mp h
    have hvalues : ∀ name a, t.get? name = some a → inner.Gave depth' a := by
      refine members_invariant (I := fun t : Table α => ∀ name a, t.get? name = some a →
        inner.Gave depth' a) ?_ ?_ h
      · intro k t s t' rest ht hm name a ha
        obtain ⟨s₁, -, hm⟩ := Except.bind_eq_ok.mp hm
        obtain ⟨⟨b, s₂⟩, hb, hm⟩ := Except.bind_eq_ok.mp hm
        cases hm
        rw [Table.get?_insert] at ha
        split at ha
        · cases ha
          exact ⟨s₁, rest, hb⟩
        · exact ht name a ha
      · intro name a ha
        cases ha
    exact ⟨depth', eq_succ_of_enter henter, hvalues⟩
  · cases h

end Shape

/-! ## Values of unknown shape -/

namespace Json

theorem tree_tree (value : Json) : value.tree.tree = value.tree :=
  (settled_tree value).tree_eq

/-- A settled form has no more members than the value, and those are no deeper. -/
theorem Settled.depth_le {value settled : Json} (h : Settled value settled) {n : Nat}
    (hn : value.depth ≤ n) : settled.depth ≤ n := by
  induction value generalizing settled n with
  | scalar _ =>
    cases h
    exact hn
  | array xs ih =>
    obtain ⟨n, rfl, hxs⟩ := exists_of_depth_array_le hn
    cases h with
    | @array _ ys hs =>
      refine depth_array_le.mpr ?_
      clear hn
      induction hs with
      | nil => exact List.forall_mem_nil _
      | @cons x y xs ys hxy _ ihs =>
        have hy : y.depth ≤ n := ih x List.mem_cons_self hxy (hxs x List.mem_cons_self)
        have hys : ∀ y ∈ ys, y.depth ≤ n := ihs (fun x hx => ih x (List.mem_cons_of_mem _ hx))
          fun x hx => hxs x (List.mem_cons_of_mem _ hx)
        exact List.forall_mem_cons.mpr ⟨hy, hys⟩
  | object ms ih =>
    obtain ⟨n, rfl, hms⟩ := exists_of_depth_object_le hn
    obtain ⟨ns, rfl, hs⟩ := h.exists_object
    refine depth_object_le.mpr ?_
    rintro ⟨name, y⟩ hy
    obtain ⟨x, hx, hxy⟩ := hs.exists_of_mem hy
    exact ih _ hx hxy (hms _ hx)

theorem depth_tree_le {value : Json} {n : Nat} (h : value.depth ≤ n) : value.tree.depth ≤ n :=
  (settled_tree value).depth_le h

theorem tree_eq_scalar_iff {value : Json} {leaf : Scalar} :
    value.tree = .scalar leaf ↔ value = .scalar leaf := by
  cases value with
  | scalar _ => rw [tree]
  | array _ => simp [tree]
  | object _ => simp [tree, ofTable]

theorem tree_eq_null_iff {value : Json} : value.tree = .null ↔ value = .null := tree_eq_scalar_iff

end Json

namespace Shape

/-- What has been read as a value of unknown shape is a tree. -/
theorem tree_of_read {depth : Nat} {value : Json} (h : Shape.tree.Gave depth value) :
    value.depth ≤ depth ∧ value.tree = value := by
  obtain ⟨s, rest, h⟩ := h
  rw [Shape.read] at h
  obtain ⟨⟨listed, rest'⟩, hlisted, h⟩ := Except.bind_eq_ok.mp h
  cases h
  exact ⟨depth_tree_le (depth_of_readListed hlisted), tree_tree listed⟩

theorem of_read_optional {α : Type} {inner : Shape α} {depth : Nat} {a : α}
    (h : inner.optional.Gave depth (some a)) : inner.Gave depth a := by
  obtain ⟨s, rest, h⟩ := h
  rw [Shape.read] at h
  split at h
  · obtain ⟨rest', -, h⟩ := Except.bind_eq_ok.mp h
    cases h
  · obtain ⟨⟨b, rest'⟩, hb, h⟩ := Except.bind_eq_ok.mp h
    cases h
    exact ⟨s, rest, hb⟩

/-- A tree that may be absent is never `null`, because that is how absence is written. -/
theorem ne_null_of_read_optional_tree {depth : Nat} {value : Json}
    (h : Shape.tree.optional.Gave depth (some value)) : value ≠ .null := by
  rintro rfl
  obtain ⟨s, rest, h⟩ := h
  obtain ⟨survey, -, hmeans⟩ := Shape.surveyable _ h
  by_cases hnull : survey = .null
  · subst hnull
    rw [ofJson] at hmeans
    cases hmeans
  · rw [ofJson_optional hnull, ofJson] at hmeans
    have htree : survey.tree = .null := Option.some.inj (Except.ok.inj hmeans)
    exact hnull (tree_eq_null_iff.mp htree)

end Shape

end Provisioning
