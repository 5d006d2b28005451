import Provisioning.Proofs.Schema.Skimming

/-!
# Where a value ends

A value that a shape skims and a value that is passed over are walked by different readers: the one
goes by the shape and keeps what it looks at, the other knows brackets only and keeps nothing. They
agree about where a value ends (`Shape.skippable`). So the end of a value can be found before it is
known what the value should be.
-/

set_option autoImplicit false

namespace Provisioning

open Ascii Container Json

/-! ## Containers -/

namespace Container

variable {α β : Type}

theorem Items.exists_of {R : Bytes → α → Bytes → Prop} {S : Bytes → β → Bytes → Prop}
    (hR : ∀ {s x rest}, R s x rest → ∃ y, S s y rest) {first : Bool} {s rest : Bytes} {xs : List α}
    (h : Items R first s xs rest) : ∃ ys, Items S first s ys rest := by
  induction h with
  | closed h => exact ⟨[], .closed h⟩
  | part h hx _ ih =>
    obtain ⟨y, hy⟩ := hR hx
    obtain ⟨ys, hys⟩ := ih
    exact ⟨y :: ys, .part h hy hys⟩

theorem Members.exists_of {readName readName' : Reader String} {R : Bytes → α → Bytes → Prop}
    {S : Bytes → β → Bytes → Prop}
    (hname : ∀ {s name rest}, readName s = .ok (name, rest) → readName' s = .ok (name, rest))
    (hR : ∀ {s x rest}, R s x rest → ∃ y, S s y rest) {first : Bool} {s rest : Bytes}
    {ms : List (String × α)} (h : Members readName R first s ms rest) :
    ∃ ns, Members readName' S first s ns rest := by
  induction h with
  | closed h => exact ⟨[], .closed h⟩
  | part h hn hcolon hx _ ih =>
    obtain ⟨y, hy⟩ := hR hx
    obtain ⟨ns, hns⟩ := ih
    exact ⟨(_, y) :: ns, .part h (hname hn) hcolon hy hns⟩

end Container

namespace Json

/-- A value ends where passing over it ends. -/
def PassedOver {α : Type} (s : Bytes) (_ : α) (rest : Bytes) : Prop := skip s = .ok rest

theorem skip_array {α : Type} {s t rest : Bytes} {xs : List α} (hs : opening s = .array t)
    (hxs : Items PassedOver true t xs rest) : skip s = .ok rest := by
  obtain ⟨vs, hvs⟩ := hxs.exists_of fun h => skip_eq_ok_iff.mp h
  exact skip_eq_ok_iff.mpr ⟨_, .array hs hvs⟩

theorem skip_object {α : Type} {s t rest : Bytes} {ms : List (String × α)}
    (hs : opening s = .object t) (hms : Members Literal.read PassedOver true t ms rest) :
    skip s = .ok rest := by
  obtain ⟨vs, hvs⟩ := hms.exists_of Literal.survey_of_read fun h => skip_eq_ok_iff.mp h
  exact skip_eq_ok_iff.mpr ⟨_, .object hs hvs⟩

/-- What is read member by member, each ending where passing over it ends. -/
theorem skip_of_readMembers {α : Type} {value : String → Reader α}
    (hvalue : ∀ {name s x rest}, value name s = .ok (x, rest) → skip s = .ok rest)
    {s t rest : Bytes} {seen : List (String × α)} (hs : opening s = .object t)
    (h : readMembers .decoded Literal.read (fun name => readMember (value name) name) [] t =
      .ok (seen, rest)) : skip s = .ok rest := by
  obtain ⟨ms, hms, -⟩ := members_of_loop Literal.read id (fun h => ⟨_, h, rfl⟩) PassedOver
    (fun seen m => some (m :: seen)) (fun {name seen s seen' rest} h => by
      obtain ⟨s₁, hcolon, h⟩ := Except.bind_eq_ok.mp h
      obtain ⟨⟨x, rest'⟩, hx, h⟩ := Except.bind_eq_ok.mp h
      cases h
      exact ⟨s₁, x, hcolon, hvalue hx, rfl⟩) h
  exact skip_object hs hms

theorem skip_of_passOver {s rest : Bytes} {value : Json} (h : passOver s = .ok (value, rest)) :
    skip s = .ok rest := by
  obtain ⟨rest', hskip, h⟩ := Except.bind_eq_ok.mp h
  cases h
  exact hskip

end Json

/-! ## Shapes with one part -/

namespace Shape

variable {α : Type}

/-- What is skimmed ends where passing over it ends. -/
def Skippable (shape : Shape α) : Prop :=
  ∀ {depth s value rest}, shape.skim depth s = .ok (value, rest) → skip s = .ok rest

theorem skippable_optional {inner : Shape α} (ih : inner.Skippable) : inner.optional.Skippable := by
  intro depth s value rest h
  rw [skim] at h
  split at h
  · next t ht =>
    obtain ⟨rest', hword, h⟩ := Except.bind_eq_ok.mp h
    cases h
    have hread : Scalar.read (lowerN :: t) = .ok (.null, rest) := by simp [Scalar.read, hword]
    exact skip_eq_ok_iff.mpr
      ⟨_, .scalar (opening_of_after ht) (Scalar.survey_of_read hread)⟩
  · exact ih h

theorem skippable_list {inner : Shape α} (ih : inner.Skippable) : inner.list.Skippable := by
  intro depth s value rest h
  rw [skim] at h
  split at h
  · next t hs =>
    obtain ⟨depth', -, h⟩ := Except.bind_eq_ok.mp h
    obtain ⟨⟨xs, rest'⟩, hxs, h⟩ := Except.bind_eq_ok.mp h
    cases h
    obtain ⟨xs', hitems, -⟩ := items_of_loop PassedOver some (fun h => ⟨_, ih h, rfl⟩) hxs
    exact skip_array hs hitems
  · cases h

theorem skippable_table {inner : Shape α} (ih : inner.Skippable) : inner.table.Skippable := by
  intro depth s value rest h
  rw [skim] at h
  split at h
  · next t hs =>
    obtain ⟨depth', -, h⟩ := Except.bind_eq_ok.mp h
    obtain ⟨⟨seen, rest'⟩, hseen, h⟩ := Except.bind_eq_ok.mp h
    cases h
    exact skip_of_readMembers (fun h => ih h) hs hseen
  · cases h

end Shape

/-! ## Records -/

namespace Fields

variable {β σ γ : Type}

/-- The same of both ways to skim fields, by name and by position. -/
structure Skippable (fields : Fields σ γ) : Prop where
  member : ∀ {other : Reader Json},
    (∀ {s value rest}, other s = .ok (value, rest) → skip s = .ok rest) →
    ∀ {depth name s value rest}, fields.skimMember other depth name s = .ok (value, rest) →
      skip s = .ok rest
  items : ∀ {depth first s xs rest}, fields.skimItems depth first s = .ok (xs, rest) →
    Items PassedOver first s xs rest

theorem skippable_nil : nil.Skippable where
  member {_} hother {depth name s value rest} h := by
    rw [skimMember] at h
    exact hother h
  items {depth first s xs rest} h := by
    rw [skimItems] at h
    obtain ⟨rest', hbracket, h⟩ := Except.bind_eq_ok.mp h
    cases h
    refine .closed ?_
    rw [nextItem, skipBlank_of_readBracket hbracket]
    rfl

theorem skippable_cons {name : String} {presence : Presence β} {shape : Shape β}
    {rest : Fields σ γ} (hshape : shape.Skippable) (hrest : rest.Skippable) :
    (cons name presence shape rest).Skippable where
  member {_} hother {depth n s value tail} h := by
    rw [skimMember] at h
    split at h
    · exact hshape h
    · exact hrest.member hother h
  items {depth first s xs tail} h := by
    rw [skimItems] at h
    obtain ⟨step, hstep, h⟩ := Except.bind_eq_ok.mp h
    cases step with
    | closed t =>
      cases h
      exact .closed hstep
    | part t =>
      obtain ⟨⟨x, s₁⟩, hx, h⟩ := Except.bind_eq_ok.mp h
      obtain ⟨⟨xs', s₂⟩, hxs, h⟩ := Except.bind_eq_ok.mp h
      cases h
      exact .part hstep (hshape hx) (hrest.items hxs)

end Fields

namespace Shape

variable {σ γ τ δ α : Type}

theorem skippable_record {fields : Fields σ γ} (ih : fields.Skippable) (name : String)
    (as : Assembly γ α) : (Shape.record name fields as).Skippable := by
  intro depth s value rest h
  rw [skim] at h
  split at h
  · next t hs =>
    obtain ⟨depth', -, h⟩ := Except.bind_eq_ok.mp h
    obtain ⟨⟨xs, rest'⟩, hxs, h⟩ := Except.bind_eq_ok.mp h
    cases h
    exact skip_array hs (ih.items hxs)
  · next t hs =>
    obtain ⟨depth', -, h⟩ := Except.bind_eq_ok.mp h
    obtain ⟨⟨seen, rest'⟩, hseen, h⟩ := Except.bind_eq_ok.mp h
    cases h
    exact skip_of_readMembers (fun h => ih.member skip_of_passOver h) hs hseen
  · cases h

theorem skippable_tagged {tag : Fields σ γ} {own : Fields τ δ} (ih : own.Skippable) (name : String)
    (as : Assembly (γ × δ) α) : (Shape.tagged name tag own as).Skippable := by
  intro depth s value rest h
  rw [skim] at h
  split at h
  · next t hs =>
    obtain ⟨depth', -, h⟩ := Except.bind_eq_ok.mp h
    obtain ⟨⟨seen, rest'⟩, hseen, h⟩ := Except.bind_eq_ok.mp h
    cases h
    exact skip_of_readMembers (fun h => ih.member skip_of_readListed h) hs hseen
  · cases h

end Shape

/-! ## All shapes -/

mutual

theorem Shape.skippable : {α : Type} → (shape : Shape α) → shape.Skippable
  | _, .leaf _ => fun h => skip_of_readListed (by rwa [Shape.skim] at h)
  | _, .tree => fun h => skip_of_readListed (by rwa [Shape.skim] at h)
  | _, .choice _ => fun h => skip_of_readListed (by rwa [Shape.skim] at h)
  | _, .optional inner => Shape.skippable_optional inner.skippable
  | _, .list inner => Shape.skippable_list inner.skippable
  | _, .table inner => Shape.skippable_table inner.skippable
  | _, .record name fields as => Shape.skippable_record fields.skippable name as
  | _, .tagged name _ own as => Shape.skippable_tagged own.skippable name as

theorem Fields.skippable : {σ γ : Type} → (fields : Fields σ γ) → fields.Skippable
  | _, _, .nil => Fields.skippable_nil
  | _, _, .cons _ _ shape rest => Fields.skippable_cons shape.skippable rest.skippable

end

end Provisioning
