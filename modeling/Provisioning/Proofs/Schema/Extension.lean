import Provisioning.Proofs.Json.Extension
import Provisioning.Proofs.Schema.Surveying

/-!
# What stands behind a document

Whatever a shape reads off the front of some bytes it reads off the same bytes with more behind
them, if anything was left (`Shape.extends`). A record needs no such condition, because it ends with
its bracket (`Shape.record_stops`, `Shape.tagged_stops`). All that is decoded from a whole document
is a record, and after a record only blanks may follow: hence a document that is accepted is
accepted with blanks behind it and with nothing else (`Shape.decode_append_iff`), and what it says
does not depend on them.
-/

set_option autoImplicit false

namespace Provisioning

open Ascii Container Json

/-! ## Leaves -/

/-- Something that can be surveyed begins somewhere. -/
theorem Json.Surveyed.exists_begin {s rest : Bytes} {value : Json} (h : Surveyed s value rest) :
    ∃ b u, skipBlank s = b :: u := by
  cases h with
  | @scalar _ u _ _ hs hx =>
    rw [skipBlank_of_other hs]
    cases u with
    | nil => cases hx
    | cons b u => exact ⟨b, u, rfl⟩
  | array hs _ => exact ⟨_, _, skipBlank_of_array hs⟩
  | object hs _ => exact ⟨_, _, skipBlank_of_object hs⟩

theorem Leaf.read_extends {α : Type} (leaf : Leaf α) : Reader.Extends leaf.read leaf.read := by
  intro s a rest h hrest t
  obtain ⟨⟨found, rest'⟩, hfound, h⟩ := Except.bind_eq_ok.mp h
  obtain ⟨haccept, rfl⟩ := Fault.check_eq_ok.mp h
  unfold Found.read at hfound
  split at hfound
  · cases hfound
    exact absurd haccept (leaf.refuses_sequence a)
  · cases hfound
    exact absurd haccept (leaf.refuses_map a)
  · next u hs =>
    obtain ⟨⟨x, rest'⟩, hx, hfound⟩ := Except.bind_eq_ok.mp hfound
    cases hfound
    have hs' := opening_append_other hs (ne_nil_of_read hx) t
    simp [Leaf.read, Found.read, hs', Scalar.read_extends hx hrest t, haccept, Fault.check]

theorem enter_append {s : Bytes} {depth depth' : Nat} (h : enter s depth = .ok depth') (t : Bytes) :
    enter (s ++ t) depth = .ok depth' := by
  cases depth with
  | zero => cases h
  | succ depth => exact h

/-- A name in an object has a brace behind it, and so its `null` has something behind it. -/
theorem Naming.read_stops {α : Type} (naming : Naming α) (depth : Nat) :
    Reader.Stops (naming.read depth) := by
  intro s a rest h t
  rw [Naming.read] at h ⊢
  split at h
  · cases h
  · next b u hs =>
    rw [skipBlank_append hs]
    dsimp only
    split at h
    · next hb =>
      obtain ⟨⟨name, rest'⟩, hname, h⟩ := Except.bind_eq_ok.mp h
      obtain ⟨haccept, rfl⟩ := Fault.check_eq_ok.mp h
      rw [if_pos hb, Literal.read_stops hname t, Except.ok_bind, haccept]
      rfl
    · next hb =>
      rw [if_neg hb]
      split at h
      · next hb' =>
        obtain ⟨depth', henter, h⟩ := Except.bind_eq_ok.mp h
        rw [if_pos hb', enter_append henter, Except.ok_bind]
        split at h
        · cases h
        · next c v hu =>
          rw [skipBlank_append hu]
          dsimp only
          split at h
          · next hc =>
            obtain ⟨⟨name, s₁⟩, hname, h⟩ := Except.bind_eq_ok.mp h
            obtain ⟨⟨a', s₂⟩, hcheck, h⟩ := Except.bind_eq_ok.mp h
            obtain ⟨haccept, rfl⟩ := Fault.check_eq_ok.mp hcheck
            obtain ⟨s₃, hcolon, h⟩ := Except.bind_eq_ok.mp h
            obtain ⟨⟨⟨⟩, s₄⟩, hunit, h⟩ := Except.bind_eq_ok.mp h
            dsimp only at h
            split at h
            · cases h
            · next d w hs₄ =>
              split at h
              · next hd =>
                cases h
                have hne : s₄ ≠ [] := by
                  rintro rfl
                  cases hs₄
                have hunit' := Leaf.unit.read_extends hunit hne t
                simp [hc, Literal.read_stops hname t, haccept, Fault.check, readColon_append hcolon,
                  hunit', skipBlank_append hs₄, hd]
              · cases h
          · split at h <;> cases h
      · cases h

/-! ## Shapes with one part -/

namespace Shape

variable {α : Type}

/-- What the shape reads, it reads with more bytes behind it, if something was left. -/
def Extends (shape : Shape α) : Prop :=
  ∀ depth, Reader.Extends (shape.read depth) (shape.read depth)

theorem extends_leaf (leaf : Leaf α) : (Shape.leaf leaf).Extends := by
  intro depth s a rest h hrest t
  rw [Shape.read] at h ⊢
  exact leaf.read_extends h hrest t

theorem extends_tree : Shape.tree.Extends := by
  intro depth s a rest h hrest t
  rw [Shape.read] at h ⊢
  obtain ⟨⟨value, rest'⟩, hvalue, h⟩ := Except.bind_eq_ok.mp h
  cases h
  simp [Json.read, readListed_extends depth hvalue hrest t]

theorem extends_optional {inner : Shape α} (ih : inner.Extends) : inner.optional.Extends := by
  intro depth s a rest h hrest t
  rw [Shape.read] at h ⊢
  split at h
  · next u hu =>
    obtain ⟨rest', hword, h⟩ := Except.bind_eq_ok.mp h
    cases h
    -- The letter of `null` is the first byte that is no blank.
    have hs : after? lowerN (skipBlank (s ++ t)) = some (u ++ t) := by
      obtain ⟨b, v, hv⟩ : ∃ b v, skipBlank s = b :: v := by
        cases hv : skipBlank s with
        | nil => rw [hv] at hu; cases hu
        | cons b v => exact ⟨b, v, rfl⟩
      rw [skipBlank_append hv, ← List.cons_append, ← hv]
      exact after?_append hu t
    rw [hs]
    simp [readWord_append hword]
  · next hnone =>
    obtain ⟨⟨b, rest'⟩, hb, h⟩ := Except.bind_eq_ok.mp h
    cases h
    -- A value has been read, so something other than a blank is there.
    have hs : after? lowerN (skipBlank (s ++ t)) = none := by
      obtain ⟨value, hvalue, -⟩ := inner.surveyable hb
      obtain ⟨c, v, hv⟩ := hvalue.exists_begin
      rw [skipBlank_append hv, ← List.cons_append, ← hv]
      exact after?_append_eq_none hnone (by simp [hv]) t
    rw [hs]
    simp [ih depth hb hrest t]

theorem extends_list {inner : Shape α} (ih : inner.Extends) : inner.list.Extends := by
  intro depth s a rest h hrest t
  rw [Shape.read] at h ⊢
  split at h
  · next u hs =>
    obtain ⟨depth', henter, h⟩ := Except.bind_eq_ok.mp h
    simp [opening_append_array hs, enter_append henter, readItems_stops (ih depth') h t]
  · cases h

theorem extends_table {inner : Shape α} (ih : inner.Extends) : inner.table.Extends := by
  intro depth s a rest h hrest t
  rw [Shape.read] at h ⊢
  split at h
  · next u hs =>
    obtain ⟨depth', henter, h⟩ := Except.bind_eq_ok.mp h
    have hread := readMembers_stops Literal.read_stops (readEntry_extends (ih depth')) _ h t
    simp [opening_append_object hs, enter_append henter, hread]
  · cases h

theorem extends_choice (naming : Naming α) : (Shape.choice naming).Extends := by
  intro depth s a rest h _ t
  rw [Shape.read] at h ⊢
  exact naming.read_stops depth h t

end Shape

/-! ## Fields -/

namespace Fields

variable {β σ γ : Type}

theorem readBracket_append {s rest : Bytes} (h : readBracket s = .ok rest) (t : Bytes) :
    readBracket (s ++ t) = .ok (rest ++ t) := by
  rw [readBracket, skipBlank_append (skipBlank_of_readBracket h)]
  rfl

/-- The items of a record are read up to a bracket, so there is something in front of it. -/
theorem ne_nil_of_readItems {fields : Fields σ γ} {expected : String} {depth index : Nat}
    {s rest : Bytes} {g : γ} (h : fields.readItems expected depth index s = .ok (g, rest)) :
    s ≠ [] := by
  rintro rfl
  cases fields <;> cases h

/-- Both readings of the fields, by name and by position, do not depend on what stands behind. -/
structure Extends (fields : Fields σ γ) : Prop where
  member : ∀ {name slots depth s slots' rest},
    fields.readMember? name slots depth s = some (.ok (slots', rest)) → rest ≠ [] → ∀ t,
      fields.readMember? name slots depth (s ++ t) = some (.ok (slots', rest ++ t))
  items : ∀ {expected depth index s g rest},
    fields.readItems expected depth index s = .ok (g, rest) → ∀ t,
      fields.readItems expected depth index (s ++ t) = .ok (g, rest ++ t)

theorem extends_nil : nil.Extends where
  member h := nomatch h
  items {expected depth index s g rest} h t := by
    rw [readItems] at h ⊢
    obtain ⟨rest', hbracket, h⟩ := Except.bind_eq_ok.mp h
    cases h
    simp [readBracket_append hbracket]

theorem extends_cons {name : String} {presence : Presence β} {shape : Shape β}
    {rest : Fields σ γ} (hshape : shape.Extends) (hrest : rest.Extends) :
    (cons name presence shape rest).Extends where
  member {n slots depth s slots' tail} h htail t := by
    obtain ⟨slot, slots⟩ := slots
    rw [readMember?] at h ⊢
    split at h
    · next hn =>
      rw [if_pos hn]
      split at h
      · cases h
      · next hslot =>
        obtain ⟨s₁, hcolon, h⟩ := Except.bind_eq_ok.mp (Option.some.inj h)
        obtain ⟨⟨b, s₂⟩, hb, h⟩ := Except.bind_eq_ok.mp h
        cases h
        simp [hslot, readColon_append hcolon, hshape depth hb htail t]
    · next hn =>
      rw [if_neg hn]
      obtain ⟨result, hresult, h⟩ := Option.map_eq_some_iff.mp h
      obtain ⟨⟨slots'', s₂⟩, rfl, h⟩ := Except.map_eq_ok.mp h
      cases h
      rw [hrest.member hresult htail t]
      rfl
  items {expected depth index s g tail} h t := by
    rw [readItems] at h ⊢
    obtain ⟨step, hstep, h⟩ := Except.bind_eq_ok.mp h
    rw [nextItem_append hstep]
    cases step with
    | closed u =>
      obtain ⟨hdefaults, rfl⟩ := Fault.check_eq_ok.mp h
      simp [Step.extend, hdefaults, Fault.check]
    | part u =>
      obtain ⟨⟨b, s₁⟩, hb, h⟩ := Except.bind_eq_ok.mp h
      obtain ⟨⟨bs, s₂⟩, hbs, h⟩ := Except.bind_eq_ok.mp h
      cases h
      simp [Step.extend, hshape depth hb (ne_nil_of_readItems hbs) t, hrest.items hbs t]

/-- A member that no field reads is passed over, with more bytes behind it as without. -/
theorem Extends.member_or_skip {fields : Fields σ γ} (h : fields.Extends) (name : String)
    (slots : σ) (depth : Nat) :
    let member := fun s => (fields.readMember? name slots depth s).getD do
      return (slots, ← Json.skip (← readColon s))
    Reader.Extends member member := by
  intro member s slots' rest hread hrest t
  dsimp only [member] at hread ⊢
  cases hr : fields.readMember? name slots depth s with
  | none =>
    rw [hr] at hread
    obtain ⟨s₁, hcolon, hread⟩ := Except.bind_eq_ok.mp hread
    obtain ⟨rest', hskip, hread⟩ := Except.bind_eq_ok.mp hread
    cases hread
    rw [readMember?_eq_none_iff] at hr
    simp [readMember?_eq_none_iff.mpr hr, readColon_append hcolon, skip_append hskip hrest t]
  | some result =>
    rw [hr] at hread
    rw [h.member (hr.trans (congrArg some hread)) hrest t]
    rfl

/-- A member that no field of the record's own reads is kept for its tag. -/
theorem Extends.member_or_keep {fields : Fields σ γ} (h : fields.Extends) (name : String)
    (seen : σ × List (String × Json)) (depth : Nat) :
    let member := fun s =>
      match fields.readMember? name seen.1 depth s with
      | some result => result.map fun (slots, rest) => ((slots, seen.2), rest)
      | none =>
        (readMember (Json.readListed depth) name seen.2 s).map fun (others, rest) =>
          ((seen.1, others), rest)
    Reader.Extends member member := by
  intro member s seen' rest hread hrest t
  dsimp only [member] at hread ⊢
  cases hr : fields.readMember? name seen.1 depth s with
  | none =>
    rw [hr] at hread
    obtain ⟨⟨others, rest'⟩, hother, hread⟩ := Except.map_eq_ok.mp hread
    cases hread
    rw [readMember?_eq_none_iff] at hr
    rw [readMember?_eq_none_iff.mpr hr]
    dsimp only
    rw [readMember_extends (readListed_extends depth) _ _ hother hrest t]
    rfl
  | some result =>
    rw [hr] at hread
    obtain ⟨⟨slots, rest'⟩, rfl, hread⟩ := Except.map_eq_ok.mp hread
    cases hread
    rw [h.member hr hrest t]
    rfl

end Fields

/-! ## Records -/

namespace Shape

variable {σ γ τ δ α : Type}

/-- A record ends with its bracket, and what stands behind it is not looked at. -/
theorem record_stops {fields : Fields σ γ} (ih : fields.Extends) (name : String)
    (as : Assembly γ α) (depth : Nat) :
    Reader.Stops ((Shape.record name fields as).read depth) := by
  intro s a rest h t
  rw [Shape.read] at h ⊢
  split at h
  · next u hs =>
    obtain ⟨depth', henter, h⟩ := Except.bind_eq_ok.mp h
    obtain ⟨⟨values, rest'⟩, hvalues, h⟩ := Except.bind_eq_ok.mp h
    cases h
    simp [opening_append_array hs, enter_append henter, ih.items hvalues t]
  · next u hs =>
    obtain ⟨depth', henter, h⟩ := Except.bind_eq_ok.mp h
    obtain ⟨⟨slots, rest'⟩, hslots, h⟩ := Except.bind_eq_ok.mp h
    obtain ⟨⟨values, rest''⟩, hcheck, h⟩ := Except.bind_eq_ok.mp h
    obtain ⟨hcollect, rfl⟩ := Fault.check_eq_ok.mp hcheck
    cases h
    have hread := readMembers_stops Literal.read_stops
      (fun name slots => ih.member_or_skip name slots depth') _ hslots t
    simp only [opening_append_object hs, enter_append henter, Except.ok_bind, hread, hcollect]
    rfl
  · cases h

/-- Neither is what stands behind a tagged record, although its tag is only looked for when all
members have been read. -/
theorem tagged_stops {tag : Fields σ γ} {own : Fields τ δ} (ih : own.Extends) (name : String)
    (as : Assembly (γ × δ) α) (depth : Nat) :
    Reader.Stops ((Shape.tagged name tag own as).read depth) := by
  intro s a rest h t
  rw [Shape.read] at h ⊢
  split at h
  · next u hs =>
    obtain ⟨depth', henter, h⟩ := Except.bind_eq_ok.mp h
    obtain ⟨⟨seen, rest'⟩, hseen, h⟩ := Except.bind_eq_ok.mp h
    obtain ⟨hcheck, rfl⟩ := Fault.check_eq_ok.mp h
    have hread := readMembers_stops Literal.read_stops
      (fun name seen => ih.member_or_keep name seen depth') _ hseen t
    simp only [opening_append_object hs, enter_append henter, Except.ok_bind, hread]
    exact Fault.check_eq_ok.mpr ⟨hcheck, rfl⟩
  · cases h

theorem extends_record {fields : Fields σ γ} (ih : fields.Extends) (name : String)
    (as : Assembly γ α) : (Shape.record name fields as).Extends :=
  fun depth => Reader.Stops.extends (record_stops ih name as depth)

theorem extends_tagged {tag : Fields σ γ} {own : Fields τ δ} (ih : own.Extends) (name : String)
    (as : Assembly (γ × δ) α) : (Shape.tagged name tag own as).Extends :=
  fun depth => Reader.Stops.extends (tagged_stops ih name as depth)

end Shape

mutual

theorem Shape.extends : {α : Type} → (shape : Shape α) → shape.Extends
  | _, .leaf leaf => Shape.extends_leaf leaf
  | _, .tree => Shape.extends_tree
  | _, .optional inner => Shape.extends_optional inner.extends
  | _, .list inner => Shape.extends_list inner.extends
  | _, .table inner => Shape.extends_table inner.extends
  | _, .choice naming => Shape.extends_choice naming
  | _, .record name fields as => Shape.extends_record fields.extends name as
  | _, .tagged name _ own as => Shape.extends_tagged own.extends name as

theorem Fields.extends : {σ γ : Type} → (fields : Fields σ γ) → fields.Extends
  | _, _, .nil => Fields.extends_nil
  | _, _, .cons _ _ shape rest => Fields.extends_cons shape.extends rest.extends

end

/-! ## Documents -/

namespace Ascii

/-- Blanks and nothing else. -/
def Blank (s : Bytes) : Prop := ∀ b ∈ s, b = space ∨ b = tab ∨ b = lineFeed ∨ b = carriageReturn

instance (s : Bytes) : Decidable (Blank s) := List.decidableBAll _ s

theorem blank_append {s t : Bytes} : Blank (s ++ t) ↔ Blank s ∧ Blank t :=
  List.forall_mem_append

theorem skipBlank_eq_nil_iff {s : Bytes} : skipBlank s = [] ↔ Blank s := by
  fun_induction skipBlank s with
  | case1 => simp [Blank]
  | case2 b s hb ih =>
    have hb' : b = space ∨ b = tab ∨ b = lineFeed ∨ b = carriageReturn := by
      rcases hb with hb | hb | hb | hb <;> simp [hb]
    rw [ih]
    exact ⟨fun h => List.forall_mem_cons.mpr ⟨hb', h⟩, fun h => (List.forall_mem_cons.mp h).2⟩
  | case3 b s hb =>
    constructor
    · intro h
      cases h
    · intro h
      rcases (List.forall_mem_cons.mp h).1 with hb' | hb' | hb' | hb' <;> simp [hb'] at hb

end Ascii

theorem readEnd_eq_ok_iff {s : Bytes} : readEnd s = .ok () ↔ Blank s := by
  rw [← skipBlank_eq_nil_iff, readEnd]
  split
  · next hs => simp [hs]
  · next hs => simpa using hs

namespace Shape

variable {α : Type} {shape : Shape α}

/-- A document is a value and the blanks behind it. -/
theorem decode_eq_ok_iff_read {document : Bytes} {a : α} :
    shape.decode document = .ok a ↔
      ∃ rest, shape.read maxDepth document = .ok (a, rest) ∧ Blank rest := by
  simp only [decode_eq_ok_iff_readEnd, readEnd_eq_ok_iff]

/-- Behind a document that ends with a bracket there may be blanks and nothing else. -/
theorem decode_append_iff (hstops : Reader.Stops (shape.read maxDepth)) {document : Bytes} {a : α}
    (h : shape.decode document = .ok a) (s : Bytes) (b : α) :
    shape.decode (document ++ s) = .ok b ↔ Blank s ∧ b = a := by
  obtain ⟨rest, hread, hblank⟩ := decode_eq_ok_iff_read.mp h
  rw [decode_eq_ok_iff_read, hstops hread s]
  constructor
  · rintro ⟨rest', heq, hblank'⟩
    cases heq
    exact ⟨(blank_append.mp hblank').2, rfl⟩
  · rintro ⟨hs, rfl⟩
    exact ⟨rest ++ s, rfl, blank_append.mpr ⟨hblank, hs⟩⟩

end Shape

end Provisioning
