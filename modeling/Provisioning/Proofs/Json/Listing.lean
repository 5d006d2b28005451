import Provisioning.Proofs.Json.Progress
import Provisioning.Proofs.Json.Values

/-!
# What a container lists

The two loops over the parts of a container count down, carry a state and report faults. What they
accept is a list of parts, and this file says it as a relation between the bytes and the list:
`Items` for arrays, `Members` for objects. Each is the loop without the countdown and the state.

Two loops that walk over the same container are compared through the relation, and the comparison
needs no more than that they agree on each part (`Items.toOption_items`,
`Members.toOption_members`). So the typed reader, the one that passes over and the one that keeps
everything are compared part by part, and never loop against loop.
-/

set_option autoImplicit false

namespace Provisioning

namespace Container

open Ascii

variable {α β σ κ : Type}

/-! ## Brackets -/

theorem skipBlank_of_other {s t : Bytes} (h : opening s = .other t) : skipBlank s = t := by
  unfold opening at h
  split at h
  · next hs => cases h; exact hs
  · next hs =>
    split at h
    · cases h
    · split at h
      · cases h
      · cases h
        exact hs

theorem skipBlank_of_array {s t : Bytes} (h : opening s = .array t) :
    skipBlank s = leftBracket :: t := by
  unfold opening at h
  split at h
  · cases h
  · next hs =>
    split at h
    · next hb =>
      cases h
      rw [hs, hb]
    · split at h <;> cases h

theorem skipBlank_of_object {s t : Bytes} (h : opening s = .object t) :
    skipBlank s = leftBrace :: t := by
  unfold opening at h
  split at h
  · cases h
  · next hs =>
    split at h
    · cases h
    · split at h
      · next hb =>
        cases h
        rw [hs, hb]
      · cases h

theorem length_of_array {s t : Bytes} (h : opening s = .array t) : t.length < s.length := by
  have hs := length_skipBlank s
  rwa [skipBlank_of_array h] at hs

theorem length_of_object {s t : Bytes} (h : opening s = .object t) : t.length < s.length := by
  have hs := length_skipBlank s
  rwa [skipBlank_of_object h] at hs

theorem length_of_other {s t : Bytes} (h : opening s = .other t) : t.length ≤ s.length := by
  have hs := length_skipBlank s
  rwa [skipBlank_of_other h] at hs

/-! ## Steps -/

/-- What comes next in an array: its end, the first item, or a comma and another item. -/
theorem nextItem_cases {care : Care} {first : Bool} {s : Bytes} {step : Step}
    (h : nextItem care first s = .ok step) :
    (∃ t, skipBlank s = rightBracket :: t ∧ step = .closed t) ∨
    (∃ b t, skipBlank s = b :: t ∧ b ≠ rightBracket ∧ first = true ∧ step = .part (b :: t)) ∨
    (∃ t c u, skipBlank s = comma :: t ∧ first = false ∧ skipBlank t = c :: u ∧
      c ≠ rightBracket ∧ step = .part (c :: u)) := by
  unfold nextItem at h
  split at h
  · cases h
  · next b t hs =>
    split at h
    · next hb =>
      cases h
      exact .inl ⟨t, hb ▸ hs, rfl⟩
    · next hb =>
      split at h
      · next hf =>
        cases h
        exact .inr (.inl ⟨b, t, hs, hb, hf, rfl⟩)
      · next hf =>
        split at h
        · next hc =>
          split at h
          · cases h
          · next c u ht =>
            split at h
            · cases h
            · next hne =>
              cases h
              exact .inr (.inr ⟨t, c, u, hc ▸ hs, by simpa using hf, ht, hne, rfl⟩)
        · cases h

/-- What comes next in an object: its end, the first name, or a comma and another name. -/
theorem nextMember_cases {care : Care} {first : Bool} {s : Bytes} {step : Step}
    (h : nextMember care first s = .ok step) :
    (∃ t, skipBlank s = rightBrace :: t ∧ step = .closed t) ∨
    (∃ t, skipBlank s = quote :: t ∧ first = true ∧ step = .part t) ∨
    (∃ t u, skipBlank s = comma :: t ∧ first = false ∧ skipBlank t = quote :: u ∧
      step = .part u) := by
  unfold nextMember at h
  split at h
  · cases h
  · next b t hs =>
    split at h
    · next hb =>
      cases h
      exact .inl ⟨t, hb ▸ hs, rfl⟩
    · split at h
      · next hf =>
        split at h
        · next hq =>
          cases h
          exact .inr (.inl ⟨t, hq ▸ hs, hf, rfl⟩)
        · cases h
      · next hf =>
        split at h
        · next hc =>
          split at h
          · cases h
          · next c u ht =>
            split at h
            · next hq =>
              cases h
              exact .inr (.inr ⟨t, u, hc ▸ hs, by simpa using hf, hq ▸ ht, rfl⟩)
            · split at h <;> cases h
        · cases h

theorem skipBlank_of_closed_item {care : Care} {first : Bool} {s rest : Bytes}
    (h : nextItem care first s = .ok (.closed rest)) : skipBlank s = rightBracket :: rest := by
  rcases nextItem_cases h with ⟨t, ht, he⟩ | ⟨_, _, _, _, _, he⟩ | ⟨_, _, _, _, _, _, _, he⟩
  · cases he
    exact ht
  · cases he
  · cases he

theorem skipBlank_of_closed_member {care : Care} {first : Bool} {s rest : Bytes}
    (h : nextMember care first s = .ok (.closed rest)) : skipBlank s = rightBrace :: rest := by
  rcases nextMember_cases h with ⟨t, ht, he⟩ | ⟨_, _, _, he⟩ | ⟨_, _, _, _, _, he⟩
  · cases he
    exact ht
  · cases he
  · cases he

theorem skipBlank_of_first_member {care : Care} {s rest : Bytes}
    (h : nextMember care true s = .ok (.part rest)) : skipBlank s = quote :: rest := by
  rcases nextMember_cases h with ⟨_, _, he⟩ | ⟨t, ht, _, he⟩ | ⟨_, _, _, hf, _⟩
  · cases he
  · cases he
    exact ht
  · cases hf

theorem skipBlank_of_later_member {care : Care} {s rest : Bytes}
    (h : nextMember care false s = .ok (.part rest)) : ∃ t, skipBlank s = comma :: t := by
  rcases nextMember_cases h with ⟨_, _, he⟩ | ⟨_, _, hf, _⟩ | ⟨t, _, ht, _⟩
  · cases he
  · cases hf
  · exact ⟨t, ht⟩

/-- The steps of an array do not depend on what is done with its items. -/
theorem toOption_nextItem (care : Care) (first : Bool) (s : Bytes) :
    (nextItem care first s).toOption = (nextItem .decoded first s).toOption := by
  unfold nextItem
  split
  · rfl
  · split
    · rfl
    · split
      · rfl
      · split
        · split
          · rfl
          · split <;> rfl
        · rfl

/-- The steps of an object do not depend on what is done with its members. -/
theorem toOption_nextMember (care : Care) (first : Bool) (s : Bytes) :
    (nextMember care first s).toOption = (nextMember .decoded first s).toOption := by
  unfold nextMember
  split
  · rfl
  · split
    · rfl
    · split
      · rfl
      · split
        · split
          · rfl
          · split
            · rfl
            · split <;> rfl
        · rfl

theorem nextItem_decoded {care : Care} {first : Bool} {s : Bytes} {step : Step}
    (h : nextItem care first s = .ok step) : nextItem .decoded first s = .ok step := by
  rw [← Except.toOption_eq_some_iff, ← toOption_nextItem care, h]
  rfl

theorem nextMember_decoded {care : Care} {first : Bool} {s : Bytes} {step : Step}
    (h : nextMember care first s = .ok step) : nextMember .decoded first s = .ok step := by
  rw [← Except.toOption_eq_some_iff, ← toOption_nextMember care, h]
  rfl

theorem length_of_closed_item {care : Care} {first : Bool} {s rest : Bytes}
    (h : nextItem care first s = .ok (.closed rest)) : rest.length < s.length := by
  have hs := length_skipBlank s
  rwa [skipBlank_of_closed_item h] at hs

theorem length_of_next_item {care : Care} {first : Bool} {s rest : Bytes}
    (h : nextItem care first s = .ok (.part rest)) : rest.length ≤ s.length := by
  have hs := length_skipBlank s
  rcases nextItem_cases h with ⟨_, _, he⟩ | ⟨b, t, ht, _, _, he⟩ | ⟨t, c, u, ht, _, hu, _, he⟩
  · cases he
  · cases he
    rwa [ht] at hs
  · cases he
    have := length_skipBlank t
    rw [hu] at this
    rw [ht, List.length_cons] at hs
    omega

theorem length_of_closed_member {care : Care} {first : Bool} {s rest : Bytes}
    (h : nextMember care first s = .ok (.closed rest)) : rest.length < s.length := by
  have hs := length_skipBlank s
  rwa [skipBlank_of_closed_member h] at hs

theorem length_of_next_member {care : Care} {first : Bool} {s rest : Bytes}
    (h : nextMember care first s = .ok (.part rest)) : rest.length < s.length := by
  have hs := length_skipBlank s
  rcases nextMember_cases h with ⟨_, _, he⟩ | ⟨t, ht, _, he⟩ | ⟨t, u, ht, _, hu, he⟩
  · cases he
  · cases he
    rw [ht, List.length_cons] at hs
    omega
  · cases he
    have := length_skipBlank t
    rw [hu, List.length_cons] at this
    rw [ht, List.length_cons] at hs
    omega

theorem length_of_readColon {s rest : Bytes} (h : readColon s = .ok rest) :
    rest.length < s.length := by
  have hs := length_skipBlank s
  unfold readColon at h
  split at h
  · cases h
  · next b t ht =>
    split at h
    · cases h
      rw [ht, List.length_cons] at hs
      omega
    · cases h

/-! ## Arrays -/

/-- The items of an array from some point on, and what follows its closing bracket. -/
inductive Items (item : Bytes → α → Bytes → Prop) : Bool → Bytes → List α → Bytes → Prop where
  | closed {first : Bool} {s rest : Bytes} (h : nextItem .decoded first s = .ok (.closed rest)) :
      Items item first s [] rest
  | part {first : Bool} {s s₁ s₂ rest : Bytes} {x : α} {xs : List α}
      (h : nextItem .decoded first s = .ok (.part s₁)) (hx : item s₁ x s₂)
      (hxs : Items item false s₂ xs rest) : Items item first s (x :: xs) rest

theorem Items.imp {R R' : Bytes → α → Bytes → Prop} (hR : ∀ {s x rest}, R s x rest → R' s x rest)
    {first : Bool} {s rest : Bytes} {xs : List α} (h : Items R first s xs rest) :
    Items R' first s xs rest := by
  induction h with
  | closed h => exact .closed h
  | part h hx _ ih => exact .part h (hR hx) ih

theorem Items.forall_mem {R : Bytes → α → Bytes → Prop} {P : α → Prop}
    (hR : ∀ s x rest, R s x rest → P x) {first : Bool} {s rest : Bytes} {xs : List α}
    (h : Items R first s xs rest) : ∀ x ∈ xs, P x := by
  induction h with
  | closed _ => exact nofun
  | part _ hx _ ih => exact List.forall_mem_cons.mpr ⟨hR _ _ _ hx, ih⟩

/-- What a loop over the items of an array has read is a list of items, if every item is one that
its reader has read. -/
theorem items_of_loop {item' : Reader β} (R : Bytes → α → Bytes → Prop) (f : α → Option β)
    (hitem : ∀ {s b rest}, item' s = .ok (b, rest) → ∃ x, R s x rest ∧ f x = some b)
    {care : Care} {n : Nat} {first : Bool} {s rest : Bytes} {bs : List β}
    (h : items care item' n first s = .ok (bs, rest)) :
    ∃ xs, Items R first s xs rest ∧ xs.mapM f = some bs := by
  induction n generalizing first s bs with
  | zero => cases h
  | succ n ih =>
    obtain ⟨step, hstep, h⟩ := Except.bind_eq_ok.mp h
    have hstep := nextItem_decoded hstep
    cases step with
    | closed t =>
      cases h
      exact ⟨[], .closed hstep, rfl⟩
    | part t =>
      obtain ⟨⟨b, s₁⟩, hb, h⟩ := Except.bind_eq_ok.mp h
      obtain ⟨⟨bs', rest'⟩, hbs, h⟩ := Except.bind_eq_ok.mp h
      cases h
      obtain ⟨x, hx, hxb⟩ := hitem hb
      obtain ⟨xs, hxs, hxsb⟩ := ih hbs
      exact ⟨x :: xs, .part hstep hx hxs, by rw [List.mapM_cons, hxb, hxsb]; rfl⟩

/-- A loop over the items of an array accepts what its reader accepts of each item. The reader may
itself be bounded, by any number that is not below the length. -/
theorem Items.toOption_items {R : Bytes → α → Bytes → Prop} {first : Bool} {s rest : Bytes}
    {xs : List α} (h : Items R first s xs rest) (hitem : Advancing R)
    (item' : Reader β) (f : α → Option β) (bound : Nat) (hbound : s.length ≤ bound)
    (hf : ∀ {s x rest}, s.length ≤ bound → R s x rest →
      (item' s).toOption = (f x).map (·, rest))
    (care : Care) {n : Nat} (hn : s.length ≤ n) :
    (items care item' n first s).toOption = (xs.mapM f).map (·, rest) := by
  -- The countdown starts above the length of what is left and stays there, so it never ends first.
  induction h generalizing n with
  | @closed first s rest h =>
    have hlt := length_of_closed_item h
    obtain ⟨n, rfl⟩ : ∃ m, n = m + 1 := ⟨n - 1, by omega⟩
    rw [items, Except.toOption_bind, toOption_nextItem, h]
    rfl
  | @part first s s₁ s₂ rest x xs h hx _ ih =>
    have hle := length_of_next_item h
    have hlt := hitem hx
    obtain ⟨n, rfl⟩ : ∃ m, n = m + 1 := ⟨n - 1, by omega⟩
    rw [items, Except.toOption_bind, toOption_nextItem, h]
    simp only [Except.toOption_ok, Option.bind_some, Except.toOption_bind,
      hf (by omega) hx, List.mapM_cons]
    cases f x with
    | none => rfl
    | some y =>
      simp only [Option.map_some, Option.bind_some, ih (by omega) (n := n) (by omega)]
      cases xs.mapM f <;> rfl

/-- A list of items is what the reader of an array answers. -/
theorem Items.readItems_eq {item : Reader α} {s rest : Bytes} {xs : List α}
    (h : Items (Reader.Gives item) true s xs rest) (hitem : Reader.Advances item) :
    readItems .decoded item s = .ok (xs, rest) := by
  rw [← Except.toOption_eq_some_iff, readItems,
    h.toOption_items hitem item some _ (Nat.le_refl _)
      (fun {s x rest} _ (h : item s = .ok (x, rest)) => by rw [h]; rfl) .decoded (Nat.le_refl _),
    mapM_some]
  rfl

theorem Items.length_lt {R : Bytes → α → Bytes → Prop} {first : Bool} {s rest : Bytes}
    {xs : List α} (h : Items R first s xs rest) (hitem : Advancing R) :
    rest.length < s.length := by
  induction h with
  | closed h => exact length_of_closed_item h
  | part h hx _ ih =>
    have := length_of_next_item h
    have := hitem hx
    omega

/-! ## Objects -/

/-- The members of an object from some point on, and what follows its closing brace. -/
inductive Members (readName : Reader String) (value : Bytes → α → Bytes → Prop) :
    Bool → Bytes → List (String × α) → Bytes → Prop where
  | closed {first : Bool} {s rest : Bytes} (h : nextMember .decoded first s = .ok (.closed rest)) :
      Members readName value first s [] rest
  | part {first : Bool} {s s₁ s₂ s₃ s₄ rest : Bytes} {name : String} {x : α}
      {ms : List (String × α)} (h : nextMember .decoded first s = .ok (.part s₁))
      (hname : readName s₁ = .ok (name, s₂)) (hcolon : readColon s₂ = .ok s₃)
      (hx : value s₃ x s₄) (hms : Members readName value false s₄ ms rest) :
      Members readName value first s ((name, x) :: ms) rest

theorem Members.imp {readName readName' : Reader String} {R R' : Bytes → α → Bytes → Prop}
    (hname : ∀ {s name rest}, readName s = .ok (name, rest) → readName' s = .ok (name, rest))
    (hR : ∀ {s x rest}, R s x rest → R' s x rest) {first : Bool} {s rest : Bytes}
    {ms : List (String × α)} (h : Members readName R first s ms rest) :
    Members readName' R' first s ms rest := by
  induction h with
  | closed h => exact .closed h
  | part h hn hcolon hx _ ih => exact .part h (hname hn) hcolon (hR hx) ih

theorem Members.forall_mem {readName : Reader String} {R : Bytes → α → Bytes → Prop}
    {P : α → Prop} (hR : ∀ s x rest, R s x rest → P x) {first : Bool} {s rest : Bytes}
    {ms : List (String × α)} (h : Members readName R first s ms rest) : ∀ m ∈ ms, P m.2 := by
  induction h with
  | closed _ => exact nofun
  | part _ _ _ hx _ ih => exact List.forall_mem_cons.mpr ⟨hR _ _ _ hx, ih⟩

/-- What a loop over the members of an object has read is a list of members, if every member is one
that its reader has read; and the state has seen them one after the other. -/
theorem members_of_loop {name' : Reader κ} (readName : Reader String) (conv : String → κ)
    (hname : ∀ {s k rest}, name' s = .ok (k, rest) →
      ∃ name, readName s = .ok (name, rest) ∧ conv name = k)
    {member' : κ → σ → Reader σ} (R : Bytes → α → Bytes → Prop) (put : σ → String × α → Option σ)
    (hmember : ∀ {name state s state' rest}, member' (conv name) state s = .ok (state', rest) →
      ∃ s₁ x, readColon s = .ok s₁ ∧ R s₁ x rest ∧ put state (name, x) = some state')
    {care : Care} {n : Nat} {first : Bool} {s rest : Bytes} {state state' : σ}
    (h : members care name' member' n first state s = .ok (state', rest)) :
    ∃ ms, Members readName R first s ms rest ∧ ms.foldlM put state = some state' := by
  induction n generalizing first s state with
  | zero => cases h
  | succ n ih =>
    obtain ⟨step, hstep, h⟩ := Except.bind_eq_ok.mp h
    have hstep := nextMember_decoded hstep
    cases step with
    | closed t =>
      cases h
      exact ⟨[], .closed hstep, rfl⟩
    | part t =>
      obtain ⟨⟨k, s₁⟩, hk, htail⟩ := Except.bind_eq_ok.mp h
      obtain ⟨⟨state₁, s₂⟩, hm, hloop⟩ := Except.bind_eq_ok.mp htail
      obtain ⟨name, hread, rfl⟩ := hname hk
      obtain ⟨s₃, x, hcolon, hx, hput⟩ := hmember hm
      obtain ⟨ms, hms, hfold⟩ := ih hloop
      exact ⟨(name, x) :: ms, .part hstep hread hcolon hx hms, by
        rw [List.foldlM_cons, hput]; exact hfold⟩

theorem members_of_readMember {value : Reader α} {n : Nat} {first : Bool} {s rest : Bytes}
    {seen seen' : List (String × α)}
    (h : members .decoded Literal.read (readMember value) n first seen s = .ok (seen', rest)) :
    ∃ ms, Members Literal.read (Reader.Gives value) first s ms rest ∧
      seen' = ms.reverse ++ seen := by
  obtain ⟨ms, hms, hfold⟩ := members_of_loop Literal.read id (fun h => ⟨_, h, rfl⟩)
    (Reader.Gives value) (fun seen m => some (m :: seen)) (fun {name state s state' rest} h => by
      obtain ⟨s₁, hcolon, h⟩ := Except.bind_eq_ok.mp h
      obtain ⟨⟨x, rest'⟩, hx, h⟩ := Except.bind_eq_ok.mp h
      cases h
      exact ⟨s₁, x, hcolon, hx, rfl⟩) h
  refine ⟨ms, hms, ?_⟩
  rw [foldlM_some_cons] at hfold
  exact (Option.some.inj hfold).symm

/-- A loop over the members of an object accepts what its reader accepts of each member, one after
the other. -/
theorem Members.toOption_members {readName : Reader String} {R : Bytes → α → Bytes → Prop}
    {first : Bool} {s rest : Bytes} {ms : List (String × α)}
    (h : Members readName R first s ms rest) (hadvances : Reader.Advances readName)
    (hvalue : Advancing R) (name' : Reader κ) (conv : String → κ)
    (hname : ∀ {s name rest}, readName s = .ok (name, rest) →
      name' s = .ok (conv name, rest))
    (member' : κ → σ → Reader σ) (put : σ → String × α → Option σ) (bound : Nat)
    (hbound : s.length ≤ bound)
    (hput : ∀ {name state s s₁ x rest}, s₁.length ≤ bound → readColon s = .ok s₁ →
      R s₁ x rest →
      (member' (conv name) state s).toOption = (put state (name, x)).map (·, rest))
    (care : Care) {n : Nat} (hn : s.length ≤ n) (state : σ) :
    (members care name' member' n first state s).toOption =
      (ms.foldlM put state).map (·, rest) := by
  induction h generalizing n state with
  | @closed first s rest h =>
    have hlt := length_of_closed_member h
    obtain ⟨n, rfl⟩ : ∃ m, n = m + 1 := ⟨n - 1, by omega⟩
    rw [members, Except.toOption_bind, toOption_nextMember, h]
    rfl
  | @part first s s₁ s₂ s₃ s₄ rest name x ms h hname' hcolon hx _ ih =>
    have h₁ := length_of_next_member h
    have h₂ := hadvances hname'
    have h₃ := length_of_readColon hcolon
    have h₄ := hvalue hx
    obtain ⟨n, rfl⟩ : ∃ m, n = m + 1 := ⟨n - 1, by omega⟩
    rw [members, Except.toOption_bind, toOption_nextMember, h]
    simp only [Except.toOption_ok, Option.bind_some, Except.toOption_bind, hname hname',
      hput (by omega) hcolon hx, List.foldlM_cons]
    cases put state (name, x) with
    | none => rfl
    | some state' => exact ih (by omega) (n := n) (by omega) state'

/-- A list of members is what the reader of an object answers. -/
theorem Members.readMembers_eq {value : Reader α} {s rest : Bytes} {ms : List (String × α)}
    (h : Members Literal.read (Reader.Gives value) true s ms rest)
    (hvalue : Reader.Advances value) :
    readMembers .decoded Literal.read (readMember value) [] s = .ok (ms.reverse, rest) := by
  rw [← Except.toOption_eq_some_iff, readMembers,
    h.toOption_members Literal.read_advances hvalue Literal.read id id (readMember value)
      (fun seen m => some (m :: seen)) _ (Nat.le_refl _)
      (fun {_ _ _ s x rest} _ hc (hx : value s = .ok (x, rest)) => by simp [readMember, hc, hx])
      .decoded (Nat.le_refl _),
    foldlM_some_cons, List.append_nil]
  rfl

theorem Members.length_lt {readName : Reader String} {R : Bytes → α → Bytes → Prop} {first : Bool}
    {s rest : Bytes} {ms : List (String × α)} (h : Members readName R first s ms rest)
    (hadvances : Reader.Advances readName) (hvalue : Advancing R) : rest.length < s.length := by
  induction h with
  | closed h => exact length_of_closed_member h
  | part h hname hcolon hx _ ih =>
    have := length_of_next_member h
    have := hadvances hname
    have := length_of_readColon hcolon
    have := hvalue hx
    omega

end Container

/-! ## Values -/

namespace Json

open Container

/-- How a value stands at the front of a document, one level deep. -/
inductive Listed : Nat → Bytes → Json → Bytes → Prop where
  | scalar {depth : Nat} {s t rest : Bytes} {x : Scalar} (h : opening s = .other t)
      (hx : Scalar.read t = .ok (x, rest)) : Listed depth s (scalar x) rest
  | array {depth : Nat} {s t rest : Bytes} {xs : List Json} (h : opening s = .array t)
      (hxs : Items (Reader.Gives (readListed depth)) true t xs rest) :
      Listed (depth + 1) s (array xs) rest
  | object {depth : Nat} {s t rest : Bytes} {ms : List (String × Json)}
      (h : opening s = .object t)
      (hms : Members Literal.read (Reader.Gives (readListed depth)) true t ms rest) :
      Listed (depth + 1) s (object ms) rest

theorem listed_of_readListed {depth : Nat} {s rest : Bytes} {value : Json}
    (h : readListed depth s = .ok (value, rest)) : Listed depth s value rest := by
  cases depth with
  | zero =>
    unfold readListed at h
    split at h
    · cases h
    · cases h
    · next hs =>
      obtain ⟨⟨x, rest'⟩, hx, h⟩ := Except.bind_eq_ok.mp h
      cases h
      exact .scalar hs hx
  | succ depth =>
    unfold readListed at h
    split at h
    · next hs =>
      obtain ⟨⟨xs, rest'⟩, hxs, h⟩ := Except.bind_eq_ok.mp h
      cases h
      obtain ⟨xs', hitems, hsome⟩ :=
        items_of_loop (Reader.Gives (readListed depth)) some (fun h => ⟨_, h, rfl⟩) hxs
      rw [mapM_some] at hsome
      cases hsome
      exact .array hs hitems
    · next hs =>
      obtain ⟨⟨seen, rest'⟩, hseen, h⟩ := Except.bind_eq_ok.mp h
      cases h
      obtain ⟨ms, hms, rfl⟩ := members_of_readMember hseen
      simpa using Listed.object hs hms
    · next hs =>
      obtain ⟨⟨x, rest'⟩, hx, h⟩ := Except.bind_eq_ok.mp h
      cases h
      exact .scalar hs hx

theorem readListed_advances (depth : Nat) : Reader.Advances (readListed depth) := by
  induction depth with
  | zero =>
    intro s value rest h
    cases listed_of_readListed h with
    | scalar hs hx => exact Nat.lt_of_lt_of_le (Scalar.read_advances hx) (length_of_other hs)
  | succ depth ih =>
    intro s value rest h
    cases listed_of_readListed h with
    | scalar hs hx => exact Nat.lt_of_lt_of_le (Scalar.read_advances hx) (length_of_other hs)
    | array hs hxs => exact Nat.lt_trans (hxs.length_lt ih) (length_of_array hs)
    | object hs hms =>
      exact Nat.lt_trans (hms.length_lt Literal.read_advances ih) (length_of_object hs)

theorem readListed_of_listed {depth : Nat} {s rest : Bytes} {value : Json}
    (h : Listed depth s value rest) : readListed depth s = .ok (value, rest) := by
  cases h with
  | scalar hs hx => cases depth <;> simp [readListed, hs, hx]
  | array hs hxs => simp [readListed, hs, hxs.readItems_eq (readListed_advances _)]
  | object hs hms => simp [readListed, hs, hms.readMembers_eq (readListed_advances _)]

/-! ## Depth -/

theorem depth_of_readListed {depth : Nat} {s rest : Bytes} {value : Json}
    (h : readListed depth s = .ok (value, rest)) : value.depth ≤ depth := by
  induction depth generalizing s value rest with
  | zero =>
    cases listed_of_readListed h with
    | scalar _ _ => exact Nat.le_of_eq (depth_scalar _)
  | succ depth ih =>
    cases listed_of_readListed h with
    | scalar _ _ =>
      rw [depth_scalar]
      exact Nat.zero_le _
    | array _ hxs => exact depth_array_le.mpr (hxs.forall_mem fun _ _ _ hx => ih hx)
    | object _ hms => exact depth_object_le.mpr (hms.forall_mem fun _ _ _ hx => ih hx)

/-- Whether a value can be listed is only a question of how deep it is. -/
theorem toOption_readListed {n depth : Nat} {s rest : Bytes} {value : Json}
    (h : Listed n s value rest) :
    (readListed depth s).toOption = if value.depth ≤ depth then some (value, rest) else none := by
  induction n generalizing depth s value rest with
  | zero =>
    cases h with
    | scalar hs hx =>
      have h : Listed depth s (scalar _) rest := .scalar hs hx
      simp [readListed_of_listed h]
  | succ n ih =>
    cases h with
    | scalar hs hx =>
      have h : Listed depth s (scalar _) rest := .scalar hs hx
      simp [readListed_of_listed h]
    | @array _ _ t _ xs hs hxs =>
      cases depth with
      | zero => simp [readListed, hs, Json.depth]
      | succ depth =>
        have hitems := hxs.toOption_items (readListed_advances n) (readListed depth)
          (fun x => if decide (x.depth ≤ depth) then some x else none) _ (Nat.le_refl _)
          (fun _ hx => by
            simp only [ih (listed_of_readListed hx), decide_eq_true_eq]
            split <;> rfl) .decoded (Nat.le_refl _)
        rw [mapM_ite, mapM_some] at hitems
        simp only [readListed, hs, readItems, Except.toOption_bind, hitems, depth_array_le,
          List.all_eq_true, decide_eq_true_eq]
        split <;> rfl
    | @object _ _ t _ ms hs hms =>
      cases depth with
      | zero => simp [readListed, hs, Json.depth]
      | succ depth =>
        have hmembers := hms.toOption_members Literal.read_advances (readListed_advances n)
          Literal.read id id (readMember (readListed depth))
          (fun seen m => if decide (m.2.depth ≤ depth) then some (m :: seen) else none) _
          (Nat.le_refl _)
          (fun _ hc hx => by
            simp only [readMember, hc, Except.ok_bind, Except.toOption_bind,
              ih (listed_of_readListed hx), decide_eq_true_eq]
            split <;> rfl) .decoded (Nat.le_refl _) []
        rw [foldlM_ite, foldlM_some_cons, List.append_nil] at hmembers
        simp only [readListed, hs, readMembers, Except.toOption_bind, hmembers, depth_object_le,
          List.all_eq_true, decide_eq_true_eq]
        split
        · simp
        · rfl

/-! ## Documents -/

/-- Whether something has been read with nothing but blanks behind it. -/
instance decidableReadWhole {α : Type} [DecidableEq α] (x : Except Fault (α × Bytes)) (a : α) :
    Decidable (∃ rest, x = .ok (a, rest) ∧ readEnd rest = .ok ()) :=
  match x with
  | .ok (b, rest) => decidable_of_iff (b = a ∧ readEnd rest = .ok ()) (by simp [and_assoc])
  | .error _ => isFalse (by simp)

/-- The value that a whole document lists. -/
def Lists (document : Bytes) (value : Json) : Prop :=
  ∃ rest, readListed maxDepth document = .ok (value, rest) ∧ readEnd rest = .ok ()

instance (document : Bytes) (value : Json) : Decidable (Lists document value) :=
  inferInstanceAs (Decidable (∃ rest, _ = Except.ok (value, rest) ∧ readEnd rest = .ok ()))

/-- The value that a whole document lists for a reader to whom no depth is too much. -/
def Denotes (document : Bytes) (value : Json) : Prop :=
  ∃ depth rest, readListed depth document = .ok (value, rest) ∧ readEnd rest = .ok ()

theorem Lists.denotes {document : Bytes} {value : Json} (h : Lists document value) :
    Denotes document value :=
  ⟨maxDepth, h⟩

end Json

end Provisioning
