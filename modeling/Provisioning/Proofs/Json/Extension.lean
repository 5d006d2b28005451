import Provisioning.Proofs.Json.Listing
import Provisioning.Proofs.Json.Spelling

/-!
# What stands behind a value

A document that has been cut short, or that something has been appended to, begins with the same
bytes as the whole one. A reader cannot know that, so what it makes of the bytes it has seen must
not depend on the bytes behind them. For most values this is plain: a string ends with its quote
and a container with its bracket. A number is the exception, since it goes on as long as there are
digits; it is settled once a byte has been seen that does not belong to it.

Hence a reader is said to *extend* (`Reader.Extends`) if it reads the same value whatever is
appended, as long as something was left behind the value before. Inside a container something always
is left, the closing bracket at least, and so a container itself needs no such condition: it *stops*
(`Reader.Stops`). The loops count down from the number of bytes, and more bytes give them more to
count down from; that is why two readers are compared and not one with itself.
-/

set_option autoImplicit false

namespace Provisioning

open Ascii Container

/-- What the first reader reads, the second reads with more bytes behind it, as long as the first
has left something. -/
def Reader.Extends {α : Type} (read read' : Reader α) : Prop :=
  ∀ {s a rest}, read s = .ok (a, rest) → rest ≠ [] → ∀ t, read' (s ++ t) = .ok (a, rest ++ t)

/-- What is read is read with more bytes behind it, even if nothing was left. -/
def Reader.Stops {α : Type} (read : Reader α) : Prop :=
  ∀ {s a rest}, read s = .ok (a, rest) → ∀ t, read (s ++ t) = .ok (a, rest ++ t)

theorem Reader.Stops.extends {α : Type} {read : Reader α} (h : read.Stops) : read.Extends read :=
  fun hread _ t => h hread t

/-! ## Blanks, digits and words -/

namespace Ascii

theorem skipBlank_append {s u : Bytes} {b : UInt8} (h : skipBlank s = b :: u) (t : Bytes) :
    skipBlank (s ++ t) = b :: (u ++ t) := by
  fun_induction skipBlank s with
  | case1 => cases h
  | case2 c s hc ih =>
    rw [List.cons_append, skipBlank, if_pos hc]
    exact ih h
  | case3 c s hc =>
    cases h
    rw [List.cons_append, skipBlank, if_neg hc]

theorem digits_append {s rest : Bytes} {ds : List Nat} (h : digits s = (ds, rest))
    (hrest : rest ≠ []) (t : Bytes) : digits (s ++ t) = (ds, rest ++ t) := by
  fun_induction digits s generalizing ds with
  | case1 =>
    cases h
    exact absurd rfl hrest
  | case2 b s d hd ds' rest' hds ih =>
    cases h
    rw [List.cons_append, digits, hd, ih hds]
  | case3 b s hd =>
    cases h
    rw [List.cons_append, digits, hd]

theorem after?_append {b : UInt8} {s rest : Bytes} (h : after? b s = some rest) (t : Bytes) :
    after? b (s ++ t) = some (rest ++ t) := by
  cases s with
  | nil => cases h
  | cons c s =>
    rw [after?] at h
    rw [List.cons_append, after?]
    split at h
    · next hc =>
      cases h
      rw [if_pos hc]
    · cases h

theorem after?_append_eq_none {b : UInt8} {s : Bytes} (h : after? b s = none) (hs : s ≠ [])
    (t : Bytes) : after? b (s ++ t) = none := by
  cases s with
  | nil => exact absurd rfl hs
  | cons c s =>
    rw [after?] at h
    rw [List.cons_append, after?]
    split at h
    · cases h
    · next hc => rw [if_neg hc]

end Ascii

theorem readWord_append {word s rest : Bytes} (h : readWord word s = .ok rest) (t : Bytes) :
    readWord word (s ++ t) = .ok (rest ++ t) := by
  fun_induction readWord word s with
  | case1 =>
    cases h
    rfl
  | case3 w word s ih =>
    rw [List.cons_append, readWord, if_pos rfl]
    exact ih h
  | _ => cases h

/-! ## Numbers -/

namespace Numeral

theorem readMinus_append {s : Bytes} (hs : s ≠ []) (t : Bytes) :
    readMinus (s ++ t) = ((readMinus s).1, (readMinus s).2 ++ t) := by
  unfold readMinus
  cases h : after? minus s with
  | some u => rw [after?_append h]
  | none => rw [after?_append_eq_none h hs]

theorem readSign_append {s : Bytes} (hs : s ≠ []) (t : Bytes) :
    readSign (s ++ t) = ((readSign s).1, (readSign s).2 ++ t) := by
  unfold readSign
  cases h : after? plus s with
  | some u => rw [after?_append h]
  | none => rw [after?_append_eq_none h hs, readMinus_append hs]

theorem readWhole_extends (cut : Malformed) : Reader.Extends (readWhole cut) (readWhole cut) := by
  intro s ds rest h hrest t
  cases s with
  | nil => cases h
  | cons b s =>
    rw [readWhole] at h
    rw [List.cons_append, readWhole]
    split at h
    · cases h
    · cases h
    · next d ds _ hzero hd hds =>
      cases h
      rw [hd, digits_append hds hrest]
      -- A zero is followed by no digit, with or without the bytes behind.
      cases d with
      | zero =>
        cases ds with
        | nil => rfl
        | cons d' ds => exact (hzero d' ds rfl rfl).elim
      | succ d => rfl

theorem readFraction_extends (cut : Malformed) :
    Reader.Extends (readFraction cut) (readFraction cut) := by
  intro s ds rest h hrest t
  unfold readFraction at h ⊢
  cases hs : after? point s with
  | none =>
    rw [hs] at h
    cases h
    rw [after?_append_eq_none hs hrest]
  | some u =>
    rw [hs] at h
    rw [after?_append hs]
    dsimp only at h ⊢
    split at h
    · cases h
    · cases h
    · next _ hne hds =>
      cases h
      rw [digits_append hds hrest]
      cases ds with
      | nil => exact (hne rfl).elim
      | cons d ds => rfl

theorem readExponent_extends (cut : Malformed) :
    Reader.Extends (readExponent cut) (readExponent cut) := by
  intro s exponent? rest h hrest t
  cases s with
  | nil =>
    cases h
    exact absurd rfl hrest
  | cons b s =>
    rw [readExponent] at h
    rw [List.cons_append, readExponent]
    split at h
    · next hb =>
      rw [if_pos hb]
      dsimp only at h ⊢
      split at h
      · cases h
      · cases h
      · next ds _ _ hne hds =>
        cases h
        -- A sign needs a byte, and there is one: the digits come after it.
        have hs : s ≠ [] := by
          rintro rfl
          exact hne (congrArg Prod.fst hds).symm
        rw [readSign_append hs]
        dsimp only
        rw [digits_append hds hrest]
        cases ds with
        | nil => exact (hne rfl).elim
        | cons d ds => rfl
    · next hb =>
      cases h
      rw [if_neg hb]
      rfl

theorem read_extends (cut : Malformed) : Reader.Extends (read cut) (read cut) := by
  intro s numeral rest h hrest t
  simp only [read, Except.bind_eq_ok, Prod.exists] at h ⊢
  obtain ⟨whole, s₁, h₁, fraction, s₂, h₂, exponent?, s₃, h₃, h⟩ := h
  cases h
  -- Each part leaves what the next one begins with, and the last one leaves something.
  have hs₂ : s₂ ≠ [] := by
    rintro rfl
    cases h₃
    exact hrest rfl
  have hs₁ : s₁ ≠ [] := by
    rintro rfl
    cases h₂
    exact hs₂ rfl
  have hs : s ≠ [] := by
    rintro rfl
    cases h₁
  refine ⟨whole, s₁ ++ t, ?_, fraction, s₂ ++ t, ?_, exponent?, rest ++ t, ?_, ?_⟩
  · rw [readMinus_append hs]
    exact readWhole_extends cut h₁ hs₁ t
  · exact readFraction_extends cut h₂ hs₂ t
  · exact readExponent_extends cut h₃ hrest t
  · rw [readMinus_append hs]
    rfl

end Numeral

/-! ## Leaves -/

namespace Literal

theorem Body.append {s bytes rest : Bytes} (h : Body s bytes rest) (t : Bytes) :
    Body (s ++ t) bytes (rest ++ t) := by
  induction h with
  | closed => exact .closed
  | piece hp _ ih =>
    rw [List.append_assoc]
    exact .piece hp ih

theorem read_stops : Reader.Stops read := by
  intro s text rest h t
  obtain ⟨bytes, hbody, hdecode⟩ := read_eq_ok_iff.mp h
  exact read_eq_ok_iff.mpr ⟨bytes, hbody.append t, hdecode⟩

/-- A literal that is passed over ends at its quote as well, whatever it spells. -/
theorem skip_append {s rest : Bytes} (h : skip s = .ok rest) (t : Bytes) :
    skip (s ++ t) = .ok (rest ++ t) := by
  -- The named cases are the ways to pass over a literal; each of the others is a fault.
  fun_induction skip s with
  | case2 s =>
    cases h
    rw [List.cons_append, skip.eq_def]
    exact if_pos rfl
  | case4 b s hq hc hb ih =>
    rw [List.cons_append, skip.eq_def]
    simpa [hq, hc, hb] using ih h
  | case7 b hq hc hb a' b' c' d' s unit hunit ih =>
    rw [List.cons_append, skip.eq_def]
    simpa [hq, hc, hb, hunit] using ih h
  | case9 b hq hc hb letter s hu byte hbyte ih =>
    rw [List.cons_append, skip.eq_def]
    simpa [hq, hc, hb, hu, hbyte] using ih h
  | _ => cases h

end Literal

namespace Scalar

theorem readNumber_extends : Reader.Extends readNumber readNumber := by
  intro s value rest h hrest t
  obtain ⟨numeral, hread, hvalue⟩ := readNumber_eq_ok h
  exact readNumber_of_read (Numeral.read_extends _ hread hrest t) hvalue

theorem read_extends : Reader.Extends read read := by
  intro s value rest h hrest t
  cases s with
  | nil => cases h
  | cons b s =>
    by_cases hnumber : b = minus ∨ (digit? b).isSome
    · rw [read_eq_readNumber hnumber] at h
      exact (read_eq_readNumber hnumber _).trans (readNumber_extends h hrest t)
    · rcases read_cases h with
        ⟨rfl, rfl, hword⟩ | ⟨rfl, rfl, hword⟩ | ⟨rfl, rfl, hword⟩ | ⟨rfl, text, rfl, htext⟩ |
        ⟨hb, -⟩
      · show (do return (Scalar.null, ← readWord nullTail (s ++ t))) = _
        rw [readWord_append hword]
        rfl
      · show (do return (Scalar.bool true, ← readWord trueTail (s ++ t))) = _
        rw [readWord_append hword]
        rfl
      · show (do return (Scalar.bool false, ← readWord falseTail (s ++ t))) = _
        rw [readWord_append hword]
        rfl
      · rw [List.cons_append, read_quote, Literal.read_stops htext]
        rfl
      · exact absurd hb hnumber

/-- What is passed over as a value without parts, by the byte it begins with. -/
theorem skip_extends {s rest : Bytes} (h : skip s = .ok rest) (hrest : rest ≠ []) (t : Bytes) :
    skip (s ++ t) = .ok (rest ++ t) := by
  cases s with
  | nil => cases h
  | cons b s =>
    rw [List.cons_append]
    simp only [skip] at h ⊢
    split at h
    · next hb =>
      rw [if_pos hb]
      exact readWord_append h t
    · next hn =>
      rw [if_neg hn]
      split at h
      · next hb =>
        rw [if_pos hb]
        exact readWord_append h t
      · next ht =>
        rw [if_neg ht]
        split at h
        · next hb =>
          rw [if_pos hb]
          exact readWord_append h t
        · next hf =>
          rw [if_neg hf]
          split at h
          · next hb =>
            rw [if_pos hb]
            exact Literal.skip_append h t
          · next hq =>
            rw [if_neg hq]
            split at h
            · next hb =>
              obtain ⟨⟨numeral, rest'⟩, hread, h⟩ := Except.bind_eq_ok.mp h
              cases h
              have hread' := Numeral.read_extends _ hread hrest t
              rw [List.cons_append] at hread'
              rw [if_pos hb, hread']
              rfl
            · cases h

end Scalar

/-! ## Containers -/

namespace Container

variable {α σ κ : Type}

theorem opening_append_array {s u : Bytes} (h : opening s = .array u) (t : Bytes) :
    opening (s ++ t) = .array (u ++ t) := by
  rw [opening, skipBlank_append (skipBlank_of_array h)]
  rfl

theorem opening_append_object {s u : Bytes} (h : opening s = .object u) (t : Bytes) :
    opening (s ++ t) = .object (u ++ t) := by
  rw [opening, skipBlank_append (skipBlank_of_object h)]
  rfl

theorem opening_append_other {s u : Bytes} (h : opening s = .other u) (hu : u ≠ []) (t : Bytes) :
    opening (s ++ t) = .other (u ++ t) := by
  have hs := skipBlank_of_other h
  cases u with
  | nil => exact absurd rfl hu
  | cons b u =>
    rw [opening, hs] at h
    rw [opening, skipBlank_append hs]
    dsimp only at h ⊢
    split at h
    · cases h
    · next hb =>
      rw [if_neg hb]
      split at h
      · cases h
      · next hb' =>
        rw [if_neg hb']
        rfl

/-- The step with more bytes behind it. -/
def Step.extend (t : Bytes) : Step → Step
  | .closed rest => .closed (rest ++ t)
  | .part rest => .part (rest ++ t)

theorem nextItem_append {care : Care} {first : Bool} {s : Bytes} {step : Step}
    (h : nextItem care first s = .ok step) (t : Bytes) :
    nextItem care first (s ++ t) = .ok (step.extend t) := by
  rcases nextItem_cases h with
    ⟨u, hs, rfl⟩ | ⟨b, u, hs, hb, rfl, rfl⟩ | ⟨u, c, v, hs, rfl, hu, hc, rfl⟩
  · rw [nextItem, skipBlank_append hs]
    rfl
  · rw [nextItem, skipBlank_append hs]
    simp [hb, Step.extend]
  · have hcomma : comma ≠ rightBracket := by decide
    rw [nextItem, skipBlank_append hs]
    simp [hcomma, skipBlank_append hu, hc, Step.extend]

theorem nextMember_append {care : Care} {first : Bool} {s : Bytes} {step : Step}
    (h : nextMember care first s = .ok step) (t : Bytes) :
    nextMember care first (s ++ t) = .ok (step.extend t) := by
  rcases nextMember_cases h with ⟨u, hs, rfl⟩ | ⟨u, hs, rfl, rfl⟩ | ⟨u, v, hs, rfl, hu, rfl⟩
  · rw [nextMember, skipBlank_append hs]
    rfl
  · rw [nextMember, skipBlank_append hs]
    rfl
  · have hcomma : comma ≠ rightBrace := by decide
    rw [nextMember, skipBlank_append hs]
    simp [hcomma, skipBlank_append hu, Step.extend]

theorem readColon_append {s rest : Bytes} (h : readColon s = .ok rest) (t : Bytes) :
    readColon (s ++ t) = .ok (rest ++ t) := by
  unfold readColon at h ⊢
  split at h
  · cases h
  · next b u hs =>
    split at h
    · next hb =>
      cases h
      rw [skipBlank_append hs]
      exact if_pos hb
    · cases h

/-- A loop that goes on has something in front of it. -/
theorem ne_nil_of_items {care : Care} {item : Reader α} {n : Nat} {first : Bool} {s rest : Bytes}
    {xs : List α} (h : items care item n first s = .ok (xs, rest)) : s ≠ [] := by
  rintro rfl
  cases n <;> cases h

theorem ne_nil_of_members {care : Care} {name : Reader κ} {member : κ → σ → Reader σ} {n : Nat}
    {first : Bool} {state state' : σ} {s rest : Bytes}
    (h : members care name member n first state s = .ok (state', rest)) : s ≠ [] := by
  rintro rfl
  cases n <;> cases h

theorem items_append {care : Care} {item item' : Reader α} (hitem : item.Extends item') {n m : Nat}
    (hle : n ≤ m) {first : Bool} {s rest : Bytes} {xs : List α}
    (h : items care item n first s = .ok (xs, rest)) (t : Bytes) :
    items care item' m first (s ++ t) = .ok (xs, rest ++ t) := by
  induction n generalizing m first s xs with
  | zero => cases h
  | succ n ih =>
    obtain ⟨m, rfl⟩ : ∃ k, m = k + 1 := ⟨m - 1, by omega⟩
    obtain ⟨step, hstep, h⟩ := Except.bind_eq_ok.mp h
    rw [items, nextItem_append hstep]
    cases step with
    | closed u =>
      cases h
      rfl
    | part u =>
      obtain ⟨⟨x, s₁⟩, hx, h⟩ := Except.bind_eq_ok.mp h
      obtain ⟨⟨xs', rest'⟩, hxs, h⟩ := Except.bind_eq_ok.mp h
      cases h
      simp [Step.extend, hitem hx (ne_nil_of_items hxs) t, ih (Nat.le_of_succ_le_succ hle) hxs]

theorem members_append {care : Care} {name : Reader κ} (hname : name.Stops)
    {member member' : κ → σ → Reader σ}
    (hmember : ∀ k state, (member k state).Extends (member' k state)) {n m : Nat} (hle : n ≤ m)
    {first : Bool} {state state' : σ} {s rest : Bytes}
    (h : members care name member n first state s = .ok (state', rest)) (t : Bytes) :
    members care name member' m first state (s ++ t) = .ok (state', rest ++ t) := by
  induction n generalizing m first s state with
  | zero => cases h
  | succ n ih =>
    obtain ⟨m, rfl⟩ : ∃ k, m = k + 1 := ⟨m - 1, by omega⟩
    obtain ⟨step, hstep, h⟩ := Except.bind_eq_ok.mp h
    rw [members, nextMember_append hstep]
    cases step with
    | closed u =>
      cases h
      rfl
    | part u =>
      obtain ⟨⟨k, s₁⟩, hk, h⟩ := Except.bind_eq_ok.mp h
      obtain ⟨⟨state₁, s₂⟩, hstate, h⟩ := Except.bind_eq_ok.mp h
      simp [Step.extend, hname hk t, hmember k state hstate (ne_nil_of_members h) t,
        ih (Nat.le_of_succ_le_succ hle) h]

theorem readItems_stops {care : Care} {item : Reader α} (hitem : item.Extends item) :
    Reader.Stops (readItems care item) := by
  intro s xs rest h t
  exact items_append hitem (by simp) h t

theorem readMembers_stops {care : Care} {name : Reader κ} (hname : name.Stops)
    {member : κ → σ → Reader σ} (hmember : ∀ k state, (member k state).Extends (member k state))
    (start : σ) : Reader.Stops (readMembers care name member start) := by
  intro s state rest h t
  exact members_append hname hmember (by simp) h t

theorem readEntry_extends {value : Reader α} (h : value.Extends value) (name : String)
    (seen : Table α) : Reader.Extends (readEntry value name seen) (readEntry value name seen) := by
  intro s seen' rest hread hrest t
  obtain ⟨s₁, hcolon, hread⟩ := Except.bind_eq_ok.mp hread
  obtain ⟨⟨a, rest'⟩, ha, hread⟩ := Except.bind_eq_ok.mp hread
  cases hread
  simp [readEntry, readColon_append hcolon, h ha hrest t]

theorem readMember_extends {value : Reader α} (h : value.Extends value) (name : String)
    (seen : List (String × α)) :
    Reader.Extends (readMember value name seen) (readMember value name seen) := by
  intro s seen' rest hread hrest t
  obtain ⟨s₁, hcolon, hread⟩ := Except.bind_eq_ok.mp hread
  obtain ⟨⟨a, rest'⟩, ha, hread⟩ := Except.bind_eq_ok.mp hread
  cases hread
  simp [readMember, readColon_append hcolon, h ha hrest t]

end Container

/-! ## Values -/

namespace Json

theorem ne_nil_of_read {s rest : Bytes} {x : Scalar} (h : Scalar.read s = .ok (x, rest)) :
    s ≠ [] := by
  rintro rfl
  cases h

theorem readListed_extends (depth : Nat) :
    Reader.Extends (readListed depth) (readListed depth) := by
  induction depth with
  | zero =>
    intro s value rest h hrest t
    cases listed_of_readListed h with
    | scalar hs hx =>
      have hx' := Scalar.read_extends hx hrest t
      exact readListed_of_listed (.scalar (opening_append_other hs (ne_nil_of_read hx) t) hx')
  | succ depth ih =>
    intro s value rest h hrest t
    unfold readListed at h ⊢
    split at h
    · next hs =>
      obtain ⟨⟨xs, rest'⟩, hxs, h⟩ := Except.bind_eq_ok.mp h
      cases h
      simp [opening_append_array hs, readItems_stops ih hxs t]
    · next hs =>
      obtain ⟨⟨seen, rest'⟩, hseen, h⟩ := Except.bind_eq_ok.mp h
      cases h
      simp [opening_append_object hs,
        readMembers_stops Literal.read_stops (readMember_extends ih) [] hseen t]
    · next hs =>
      obtain ⟨⟨x, rest'⟩, hx, h⟩ := Except.bind_eq_ok.mp h
      cases h
      simp [opening_append_other hs (ne_nil_of_read hx), Scalar.read_extends hx hrest t]

theorem skipName_stops : Reader.Stops skipName := by
  intro s u rest h t
  obtain ⟨rest', hskip, h⟩ := Except.bind_eq_ok.mp h
  cases h
  simp [skipName, Literal.skip_append hskip]

theorem skipWithin_extends {n m : Nat} (hle : n ≤ m) :
    Reader.Extends (skipWithin n) (skipWithin m) := by
  induction n generalizing m with
  | zero =>
    intro s u rest h
    cases h
  | succ n ih =>
    intro s u rest h hrest t
    obtain ⟨m, rfl⟩ : ∃ k, m = k + 1 := ⟨m - 1, by omega⟩
    have hle : n ≤ m := Nat.le_of_succ_le_succ hle
    unfold skipWithin at h ⊢
    split at h
    · next hs =>
      obtain ⟨⟨xs, rest'⟩, hxs, h⟩ := Except.bind_eq_ok.mp h
      cases h
      simp [opening_append_array hs, items_append (ih hle) hle hxs t]
    · next hs =>
      rw [opening_append_object hs]
      refine members_append skipName_stops ?_ hle h t
      intro _ _ s state rest hmember hrest t
      obtain ⟨s₁, hcolon, hmember⟩ := Except.bind_eq_ok.mp hmember
      simp [readColon_append hcolon, ih hle hmember hrest t]
    · next u hs =>
      obtain ⟨rest', hskip, h⟩ := Except.bind_eq_ok.mp h
      cases h
      have hu : u ≠ [] := by
        rintro rfl
        cases hskip
      simp [opening_append_other hs hu, Scalar.skip_extends hskip hrest t]

/-- What is passed over is passed over with more bytes behind it, as long as something was left. -/
theorem skip_append {s rest : Bytes} (h : skip s = .ok rest) (hrest : rest ≠ []) (t : Bytes) :
    skip (s ++ t) = .ok (rest ++ t) := by
  obtain ⟨⟨⟨⟩, rest'⟩, hskip, h⟩ := Except.bind_eq_ok.mp h
  cases h
  have hle : s.length ≤ (s ++ t).length := by simp
  rw [skip, skipWithin_extends hle hskip hrest t]
  rfl

end Json

end Provisioning
