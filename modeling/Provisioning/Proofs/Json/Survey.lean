import Provisioning.Proofs.Json.Listing

/-!
# What can be told of any document

A document may be accepted although part of it cannot be kept: a member that nobody asked for may
hold a number that is too large, bytes that are no text, or more open containers than a reader goes
into. Such a document lists no value (`Json.Lists`), and what it says has to be told in another way.

A *survey* goes into every container, and a leaf or a name that cannot be kept stands as an empty
text (`Json.Surveyed`). What can be passed over is what has a survey, and it has only one
(`Json.skip_eq_ok_iff`). Where a document lists a value, that is its survey.
-/

set_option autoImplicit false

namespace Provisioning

open Ascii Container

/-! ## Leaves and names -/

/-- The text of a literal, which is the empty one if the literal is no text. -/
def Literal.survey : Reader String := fun s =>
  match read s with
  | .ok result => .ok result
  | .error _ => do return ("", ← skip s)

/-- A value without parts, which is the empty text if the value cannot be kept. -/
def Scalar.survey : Reader Scalar := fun s =>
  match read s with
  | .ok result => .ok result
  | .error _ => do return (.string "", ← skip s)

theorem Literal.survey_of_read {s rest : Bytes} {text : String}
    (h : read s = .ok (text, rest)) : survey s = .ok (text, rest) := by
  simp [survey, h]

theorem Scalar.survey_of_read {s rest : Bytes} {value : Scalar}
    (h : read s = .ok (value, rest)) : survey s = .ok (value, rest) := by
  simp [survey, h]

theorem Literal.skip_of_survey {s rest : Bytes} {text : String}
    (h : survey s = .ok (text, rest)) : skip s = .ok rest := by
  unfold survey at h
  split at h
  · next hread =>
    cases h
    exact skip_of_read hread
  · obtain ⟨rest', hskip, h⟩ := Except.bind_eq_ok.mp h
    cases h
    exact hskip

theorem Scalar.skip_of_survey {s rest : Bytes} {value : Scalar}
    (h : survey s = .ok (value, rest)) : skip s = .ok rest := by
  unfold survey at h
  split at h
  · next hread =>
    cases h
    exact skip_of_read hread
  · obtain ⟨rest', hskip, h⟩ := Except.bind_eq_ok.mp h
    cases h
    exact hskip

theorem Literal.survey_of_skip {s rest : Bytes} (h : skip s = .ok rest) :
    ∃ text, survey s = .ok (text, rest) := by
  cases hread : read s with
  | ok result =>
    obtain ⟨text, rest'⟩ := result
    rw [skip_of_read hread] at h
    cases h
    exact ⟨text, survey_of_read hread⟩
  | error fault => exact ⟨"", by simp [survey, hread, h]⟩

theorem Scalar.survey_of_skip {s rest : Bytes} (h : skip s = .ok rest) :
    ∃ value, survey s = .ok (value, rest) := by
  cases hread : read s with
  | ok result =>
    obtain ⟨value, rest'⟩ := result
    rw [skip_of_read hread] at h
    cases h
    exact ⟨value, survey_of_read hread⟩
  | error fault => exact ⟨.string "", by simp [survey, hread, h]⟩

theorem Literal.survey_advances : Reader.Advances Literal.survey :=
  fun h => skip_advances (skip_of_survey h)

/-- Only what begins like `null` is surveyed as `null`. -/
theorem Scalar.survey_null {s rest : Bytes} (h : survey s = .ok (.null, rest)) :
    read s = .ok (.null, rest) := by
  unfold survey at h
  split at h
  · next hread => rw [hread, h]
  · obtain ⟨rest', -, h⟩ := Except.bind_eq_ok.mp h
    cases h

/-! ## Values -/

namespace Json

/-- How a value at the front of a document is surveyed. -/
inductive Surveyed : Bytes → Json → Bytes → Prop where
  | scalar {s t rest : Bytes} {x : Scalar} (h : opening s = .other t)
      (hx : Scalar.survey t = .ok (x, rest)) : Surveyed s (scalar x) rest
  | array {s t rest : Bytes} {xs : List Json} (h : opening s = .array t)
      (hxs : Items Surveyed true t xs rest) : Surveyed s (array xs) rest
  | object {s t rest : Bytes} {ms : List (String × Json)} (h : opening s = .object t)
      (hms : Members Literal.survey Surveyed true t ms rest) : Surveyed s (object ms) rest

mutual

/-- A document has no two surveys. -/
theorem Surveyed.unique : {s : Bytes} → {value : Json} → {rest : Bytes} → Surveyed s value rest →
    ∀ {value' rest'}, Surveyed s value' rest' → value = value' ∧ rest = rest'
  | _, _, _, .scalar h hx, _, _, h' => by
    -- What opens the value decides the constructor, here and in the other cases.
    cases h' with
    | scalar h' hx' =>
      rw [h] at h'
      cases h'
      rw [hx] at hx'
      cases hx'
      exact ⟨rfl, rfl⟩
    | array h' _ => rw [h] at h'; cases h'
    | object h' _ => rw [h] at h'; cases h'
  | _, _, _, .array h hxs, _, _, h' => by
    cases h' with
    | scalar h' _ => rw [h] at h'; cases h'
    | array h' hxs' =>
      rw [h] at h'
      cases h'
      obtain ⟨rfl, rfl⟩ := unique_items hxs hxs'
      exact ⟨rfl, rfl⟩
    | object h' _ => rw [h] at h'; cases h'
  | _, _, _, .object h hms, _, _, h' => by
    cases h' with
    | scalar h' _ => rw [h] at h'; cases h'
    | array h' _ => rw [h] at h'; cases h'
    | object h' hms' =>
      rw [h] at h'
      cases h'
      obtain ⟨rfl, rfl⟩ := unique_members hms hms'
      exact ⟨rfl, rfl⟩

theorem Surveyed.unique_items : {first : Bool} → {s : Bytes} → {xs : List Json} → {rest : Bytes} →
    Items Surveyed first s xs rest →
    ∀ {xs' rest'}, Items Surveyed first s xs' rest' → xs = xs' ∧ rest = rest'
  | _, _, _, _, .closed h, _, _, h' => by
    cases h' with
    | closed h' => rw [h] at h'; cases h'; exact ⟨rfl, rfl⟩
    | part h' _ _ => rw [h] at h'; cases h'
  | _, _, _, _, .part h hx hxs, _, _, h' => by
    cases h' with
    | closed h' => rw [h] at h'; cases h'
    | part h' hx' hxs' =>
      rw [h] at h'
      cases h'
      obtain ⟨rfl, rfl⟩ := unique hx hx'
      obtain ⟨rfl, rfl⟩ := unique_items hxs hxs'
      exact ⟨rfl, rfl⟩

theorem Surveyed.unique_members : {first : Bool} → {s : Bytes} → {ms : List (String × Json)} →
    {rest : Bytes} → Members Literal.survey Surveyed first s ms rest →
    ∀ {ms' rest'}, Members Literal.survey Surveyed first s ms' rest' → ms = ms' ∧ rest = rest'
  | _, _, _, _, .closed h, _, _, h' => by
    cases h' with
    | closed h' => rw [h] at h'; cases h'; exact ⟨rfl, rfl⟩
    | part h' _ _ _ _ => rw [h] at h'; cases h'
  | _, _, _, _, .part h hname hcolon hx hms, _, _, h' => by
    cases h' with
    | closed h' => rw [h] at h'; cases h'
    | part h' hname' hcolon' hx' hms' =>
      rw [h] at h'
      cases h'
      rw [hname] at hname'
      cases hname'
      rw [hcolon] at hcolon'
      cases hcolon'
      obtain ⟨rfl, rfl⟩ := unique hx hx'
      obtain ⟨rfl, rfl⟩ := unique_members hms hms'
      exact ⟨rfl, rfl⟩

end

mutual

theorem Surveyed.advances : {s : Bytes} → {value : Json} → {rest : Bytes} →
    Surveyed s value rest → rest.length < s.length
  | _, _, _, .scalar h hx =>
    Nat.lt_of_lt_of_le (Scalar.skip_advances (Scalar.skip_of_survey hx)) (length_of_other h)
  | _, _, _, .array h hxs => Nat.lt_trans (advances_items hxs) (length_of_array h)
  | _, _, _, .object h hms => Nat.lt_trans (advances_members hms) (length_of_object h)

theorem Surveyed.advances_items : {first : Bool} → {s : Bytes} → {xs : List Json} →
    {rest : Bytes} → Items Surveyed first s xs rest → rest.length < s.length
  | _, _, _, _, .closed h => length_of_closed_item h
  | _, _, _, _, .part h hx hxs => by
    have := length_of_next_item h
    have := advances hx
    have := advances_items hxs
    omega

theorem Surveyed.advances_members : {first : Bool} → {s : Bytes} → {ms : List (String × Json)} →
    {rest : Bytes} → Members Literal.survey Surveyed first s ms rest → rest.length < s.length
  | _, _, _, _, .closed h => length_of_closed_member h
  | _, _, _, _, .part h hname hcolon hx hms => by
    have := length_of_next_member h
    have := Literal.survey_advances hname
    have := length_of_readColon hcolon
    have := advances hx
    have := advances_members hms
    omega

end

theorem surveyed_advances : Advancing Surveyed := fun h => Surveyed.advances h

/-- A value that can be kept is surveyed as it is. -/
theorem surveyed_of_readListed {depth : Nat} {s rest : Bytes} {value : Json}
    (h : readListed depth s = .ok (value, rest)) : Surveyed s value rest := by
  induction depth generalizing s value rest with
  | zero =>
    cases listed_of_readListed h with
    | scalar hs hx => exact .scalar hs (Scalar.survey_of_read hx)
  | succ depth ih =>
    cases listed_of_readListed h with
    | scalar hs hx => exact .scalar hs (Scalar.survey_of_read hx)
    | array hs hxs => exact .array hs (hxs.imp ih)
    | object hs hms => exact .object hs (hms.imp Literal.survey_of_read ih)

/-- Whatever can be passed over can be surveyed. -/
theorem surveyed_of_skipWithin {n : Nat} {s rest : Bytes} (h : skipWithin n s = .ok ((), rest)) :
    ∃ value, Surveyed s value rest := by
  -- Every level of nesting takes one off the countdown.
  induction n generalizing s rest with
  | zero => cases h
  | succ n ih =>
    unfold skipWithin at h
    split at h
    · next hs =>
      obtain ⟨⟨units, rest'⟩, hloop, h⟩ := Except.bind_eq_ok.mp h
      cases h
      obtain ⟨xs, hxs, -⟩ := items_of_loop Surveyed (fun _ => some ()) (fun {s b rest} hx => by
        obtain ⟨x, hx⟩ := ih hx
        exact ⟨x, hx, rfl⟩) hloop
      exact ⟨_, .array hs hxs⟩
    · next hs =>
      obtain ⟨ms, hms, -⟩ := members_of_loop Literal.survey (fun _ => ())
        (fun {s k rest} hname => by
          obtain ⟨rest', hskip, h⟩ := Except.bind_eq_ok.mp hname
          cases h
          obtain ⟨name, hname⟩ := Literal.survey_of_skip hskip
          exact ⟨name, hname, rfl⟩)
        Surveyed (fun _ _ => some ())
        (fun {name state s state' rest} hmember => by
          obtain ⟨s₁, hcolon, hx⟩ := Except.bind_eq_ok.mp hmember
          obtain ⟨x, hx⟩ := ih hx
          exact ⟨s₁, x, hcolon, hx, rfl⟩) h
      exact ⟨_, .object hs hms⟩
    · next hs =>
      obtain ⟨rest', hskip, h⟩ := Except.bind_eq_ok.mp h
      cases h
      obtain ⟨x, hx⟩ := Scalar.survey_of_skip hskip
      exact ⟨_, .scalar hs hx⟩

theorem surveyed_of_skip {s rest : Bytes} (h : skip s = .ok rest) :
    ∃ value, Surveyed s value rest := by
  obtain ⟨⟨⟨⟩, rest'⟩, hskip, h⟩ := Except.bind_eq_ok.mp h
  cases h
  exact surveyed_of_skipWithin hskip

/-- Whatever has a survey can be passed over, in as many bytes as it has. -/
theorem skipWithin_of_surveyed {n : Nat} {s rest : Bytes} {value : Json}
    (h : Surveyed s value rest) (hn : s.length ≤ n) : skipWithin n s = .ok ((), rest) := by
  induction n generalizing s rest value with
  | zero =>
    have := h.advances
    omega
  | succ n ih =>
    unfold skipWithin
    cases h with
    | scalar hs hx => simp [hs, Scalar.skip_of_survey hx]
    | @array s t _ xs hs hxs =>
      have ht := length_of_array hs
      have hitems := hxs.toOption_items surveyed_advances (skipWithin n) (fun _ => some ()) n
        (by omega) (fun hs hx => by rw [ih hx hs]; rfl) .skipped (n := n) (by omega)
      rw [show xs.mapM (fun _ => some ()) = some (xs.map fun _ => ()) from List.mapM_pure] at hitems
      simp [hs, Except.toOption_eq_some_iff.mp hitems]
    | @object s t _ ms hs hms =>
      have ht := length_of_object hs
      have hmembers := hms.toOption_members Literal.survey_advances surveyed_advances skipName
        (fun _ => ()) (fun h => by simp [skipName, Literal.skip_of_survey h])
        (fun _ _ s => do skipWithin n (← readColon s)) (fun _ _ => some ())
        n (by omega) (fun hs hc hx => by simp [hc, ih hx hs]) .skipped
        (n := n) (by omega) ()
      rw [show ms.foldlM (fun _ _ => some ()) () = some (ms.foldl (fun _ _ => ()) ())
        from List.foldlM_pure] at hmembers
      simpa [hs] using Except.toOption_eq_some_iff.mp hmembers

/-- What can be passed over is what has a survey. -/
theorem skip_eq_ok_iff {s rest : Bytes} : skip s = .ok rest ↔ ∃ value, Surveyed s value rest := by
  constructor
  · exact surveyed_of_skip
  · rintro ⟨value, h⟩
    simp [skip, skipWithin_of_surveyed h (Nat.le_refl _)]

theorem skip_advances {s rest : Bytes} (h : skip s = .ok rest) : rest.length < s.length := by
  obtain ⟨value, h⟩ := skip_eq_ok_iff.mp h
  exact h.advances

/-- A value that can be read can be passed over, up to the same byte. -/
theorem skip_of_readListed {depth : Nat} {s rest : Bytes} {value : Json}
    (h : readListed depth s = .ok (value, rest)) : skip s = .ok rest :=
  skip_eq_ok_iff.mpr ⟨value, surveyed_of_readListed h⟩

/-- The survey of a whole document. -/
def Surveys (document : Bytes) (value : Json) : Prop :=
  ∃ rest, Surveyed document value rest ∧ readEnd rest = .ok ()

/-- What a document lists, it surveys. -/
theorem Lists.surveys {document : Bytes} {value : Json} (h : Lists document value) :
    Surveys document value := by
  obtain ⟨rest, hread, hend⟩ := h
  exact ⟨rest, surveyed_of_readListed hread, hend⟩

theorem Surveys.unique {document : Bytes} {value value' : Json} (h : Surveys document value)
    (h' : Surveys document value') : value = value' := by
  obtain ⟨rest, h, -⟩ := h
  obtain ⟨rest', h', -⟩ := h'
  exact (h.unique h').1

end Json

end Provisioning
