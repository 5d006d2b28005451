import Provisioning.Json.Read
import Provisioning.Proofs.Json.Literal

/-!
# Readers move forward

Every reader of a value takes at least one byte of what it accepts (`Reader.Advances`). That is why
the loops over the parts of a container may count down from the number of bytes at hand, and it is
the only thing about a part that the loops need to know.

A value that is passed over goes through the same readers with other words for its errors. What the
words do not decide is said here too: a leaf that can be read can be passed over, up to the same
byte.
-/

set_option autoImplicit false

namespace Provisioning

/-- What the reader accepts at the front of a document. -/
def Reader.Gives {α : Type} (read : Reader α) (s : Bytes) (a : α) (rest : Bytes) : Prop :=
  read s = .ok (a, rest)

/-- Whatever stands at the front of a document takes a byte. -/
def Advancing {α : Type} (stands : Bytes → α → Bytes → Prop) : Prop :=
  ∀ {s a rest}, stands s a rest → rest.length < s.length

/-- Whatever is accepted takes a byte. -/
def Reader.Advances {α : Type} (read : Reader α) : Prop :=
  ∀ {s a rest}, read s = .ok (a, rest) → rest.length < s.length

/-! ## Blanks, digits and words -/

namespace Ascii

theorem length_skipBlank (s : Bytes) : (skipBlank s).length ≤ s.length := by
  fun_induction skipBlank s with
  | case1 => exact Nat.le_refl _
  | case2 b s _ ih => exact Nat.le_succ_of_le ih
  | case3 => exact Nat.le_refl _

theorem length_digits (s : Bytes) : (digits s).2.length ≤ s.length := by
  fun_induction digits s with
  | case1 => exact Nat.le_refl _
  | case2 b s d _ ds rest hds ih =>
    rw [hds] at ih
    exact Nat.le_succ_of_le ih
  | case3 => exact Nat.le_refl _

theorem length_of_digits_eq {s rest : Bytes} {ds : List Nat} (h : digits s = (ds, rest)) :
    rest.length ≤ s.length := by
  have := length_digits s
  rwa [h] at this

theorem length_of_after? {b : UInt8} {s rest : Bytes} (h : after? b s = some rest) :
    rest.length < s.length := by
  cases s with
  | nil => cases h
  | cons c s =>
    simp only [after?] at h
    split at h <;> cases h
    exact Nat.lt_succ_self _

end Ascii

open Ascii

theorem length_of_readWord {word s rest : Bytes} (h : readWord word s = .ok rest) :
    rest.length ≤ s.length := by
  fun_induction readWord word s with
  | case1 => cases h; exact Nat.le_refl _
  | case3 _ _ _ ih => exact Nat.le_succ_of_le (ih h)
  | _ => cases h

/-! ## Numbers -/

namespace Numeral

theorem toOption_readWhole (cut : Malformed) (s : Bytes) :
    (readWhole cut s).toOption = (readWhole .eofValue s).toOption := by
  cases s <;> rfl

theorem toOption_readFraction (cut : Malformed) (s : Bytes) :
    (readFraction cut s).toOption = (readFraction .eofValue s).toOption := by
  unfold readFraction
  split
  · rfl
  · split <;> rfl

theorem toOption_readExponent (cut : Malformed) (s : Bytes) :
    (readExponent cut s).toOption = (readExponent .eofValue s).toOption := by
  cases s with
  | nil => rfl
  | cons b s =>
    simp only [readExponent]
    split
    · split <;> rfl
    · rfl

/-- Which numbers are accepted does not depend on the words for a number that is cut short. -/
theorem toOption_read (cut : Malformed) (s : Bytes) :
    (read cut s).toOption = (read .eofValue s).toOption := by
  simp only [read, Except.toOption_bind, toOption_readWhole cut, toOption_readFraction cut,
    toOption_readExponent cut]

theorem length_of_readWhole {cut : Malformed} {s rest : Bytes} {ds : List Nat}
    (h : readWhole cut s = .ok (ds, rest)) : rest.length < s.length := by
  cases s with
  | nil => cases h
  | cons b s =>
    simp only [readWhole] at h
    split at h
    · cases h
    · cases h
    · next hds =>
      cases h
      exact Nat.lt_succ_of_le (length_of_digits_eq hds)

theorem length_of_readFraction {cut : Malformed} {s rest : Bytes} {ds : List Nat}
    (h : readFraction cut s = .ok (ds, rest)) : rest.length ≤ s.length := by
  unfold readFraction at h
  split at h
  · cases h; exact Nat.le_refl _
  · next hs =>
    have := length_of_after? hs
    split at h
    · cases h
    · cases h
    · next hds =>
      cases h
      have := length_of_digits_eq hds
      omega

theorem length_readMinus (s : Bytes) : (readMinus s).2.length ≤ s.length := by
  unfold readMinus
  split
  · next hs => exact Nat.le_of_lt (length_of_after? hs)
  · exact Nat.le_refl _

theorem length_readSign (s : Bytes) : (readSign s).2.length ≤ s.length := by
  unfold readSign
  split
  · next hs => exact Nat.le_of_lt (length_of_after? hs)
  · exact length_readMinus s

theorem length_of_readExponent {cut : Malformed} {s rest : Bytes}
    {exponent? : Option (Bool × List Nat)} (h : readExponent cut s = .ok (exponent?, rest)) :
    rest.length ≤ s.length := by
  cases s with
  | nil => cases h; exact Nat.le_refl _
  | cons b s =>
    simp only [readExponent] at h
    split at h
    · have hsign := length_readSign s
      split at h
      · cases h
      · cases h
      · next hds =>
        cases h
        have := length_of_digits_eq hds
        simp only [List.length_cons]
        omega
    · cases h; exact Nat.le_refl _

theorem read_advances (cut : Malformed) : Reader.Advances (read cut) := by
  intro s numeral rest h
  simp only [read, Except.bind_eq_ok, Prod.exists] at h
  obtain ⟨whole, s₁, h₁, fraction, s₂, h₂, exponent?, s₃, h₃, h⟩ := h
  cases h
  have := length_readMinus s
  have := length_of_readWhole h₁
  have := length_of_readFraction h₂
  have := length_of_readExponent h₃
  omega

/-- Whatever is written as a number means one, exact or in floating point. -/
theorem value_cases {numeral : Numeral} {value : Scalar} (h : numeral.value = .ok value) :
    (∃ n, value = .integer n) ∨ ∃ x, value = .float x := by
  unfold Numeral.value at h
  dsimp only at h
  split at h
  · split at h
    · split at h
      · cases h; exact .inr ⟨_, rfl⟩
      · cases h
    · split at h
      · cases h; exact .inr ⟨_, rfl⟩
      · cases h
  · split at h
    · split at h
      · split at h
        · cases h; exact .inr ⟨_, rfl⟩
        · cases h; exact .inl ⟨_, rfl⟩
      · split at h
        · cases h; exact .inr ⟨_, rfl⟩
        · cases h
    · split at h
      · cases h; exact .inr ⟨_, rfl⟩
      · cases h

end Numeral

theorem Scalar.readNumber_eq_ok {s rest : Bytes} {value : Scalar}
    (h : readNumber s = .ok (value, rest)) :
    ∃ numeral, Numeral.read .eofValue s = .ok (numeral, rest) ∧ numeral.value = .ok value := by
  simp only [readNumber, Except.bind_eq_ok, Prod.exists] at h
  obtain ⟨numeral, rest', hn, h⟩ := h
  split at h
  · next hv =>
    cases h
    exact ⟨numeral, hn, hv⟩
  · cases h

/-! ## Leaves -/

theorem Literal.read_advances : Reader.Advances Literal.read := by
  intro s text rest h
  obtain ⟨bytes, hb, -⟩ := Literal.read_eq_ok_iff.mp h
  exact hb.length_lt

theorem Literal.skip_of_read {s rest : Bytes} {text : String}
    (h : Literal.read s = .ok (text, rest)) : Literal.skip s = .ok rest := by
  obtain ⟨bytes, hb, -⟩ := Literal.read_eq_ok_iff.mp h
  exact hb.skip_eq

theorem Scalar.read_quote (s : Bytes) :
    Scalar.read (quote :: s) = (do
      let (text, rest) ← Literal.read s
      return (.string text, rest)) := rfl

/-- The value of a leaf, by the byte it begins with. -/
theorem Scalar.read_cases {b : UInt8} {s rest : Bytes} {value : Scalar}
    (h : Scalar.read (b :: s) = .ok (value, rest)) :
    (b = lowerN ∧ value = .null ∧ readWord nullTail s = .ok rest) ∨
    (b = lowerT ∧ value = .bool true ∧ readWord trueTail s = .ok rest) ∨
    (b = lowerF ∧ value = .bool false ∧ readWord falseTail s = .ok rest) ∨
    (b = quote ∧ ∃ text, value = .string text ∧ Literal.read s = .ok (text, rest)) ∨
    ((b = minus ∨ (digit? b).isSome) ∧ ((∃ n, value = .integer n) ∨ ∃ x, value = .float x) ∧
      ∃ numeral, Numeral.read .eofValue (b :: s) = .ok (numeral, rest)) := by
  simp only [Scalar.read] at h
  split at h
  · next hb =>
    obtain ⟨rest', hw, h⟩ := Except.bind_eq_ok.mp h
    cases h
    exact .inl ⟨hb, rfl, hw⟩
  · split at h
    · next hb =>
      obtain ⟨rest', hw, h⟩ := Except.bind_eq_ok.mp h
      cases h
      exact .inr (.inl ⟨hb, rfl, hw⟩)
    · split at h
      · next hb =>
        obtain ⟨rest', hw, h⟩ := Except.bind_eq_ok.mp h
        cases h
        exact .inr (.inr (.inl ⟨hb, rfl, hw⟩))
      · split at h
        · next hb =>
          obtain ⟨⟨text, rest'⟩, hw, h⟩ := Except.bind_eq_ok.mp h
          cases h
          exact .inr (.inr (.inr (.inl ⟨hb, text, rfl, hw⟩)))
        · split at h
          · next hb =>
            obtain ⟨numeral, hn, hv⟩ := Scalar.readNumber_eq_ok h
            exact .inr (.inr (.inr (.inr ⟨hb, Numeral.value_cases hv, numeral, hn⟩)))
          · cases h

/-- No word and no literal begins like a number. -/
theorem Scalar.ne_of_begins_number {b : UInt8} (hb : b = minus ∨ (digit? b).isSome) :
    b ≠ lowerN ∧ b ≠ lowerT ∧ b ≠ lowerF ∧ b ≠ quote := by
  refine ⟨?_, ?_, ?_, ?_⟩
  all_goals
    rintro rfl
    revert hb
    decide

theorem Scalar.read_advances : Reader.Advances Scalar.read := by
  intro s value rest h
  cases s with
  | nil => cases h
  | cons b s =>
    rcases Scalar.read_cases h with
      ⟨-, -, h⟩ | ⟨-, -, h⟩ | ⟨-, -, h⟩ | ⟨-, text, -, h⟩ | ⟨-, -, numeral, hn⟩
    · exact Nat.lt_succ_of_le (length_of_readWord h)
    · exact Nat.lt_succ_of_le (length_of_readWord h)
    · exact Nat.lt_succ_of_le (length_of_readWord h)
    · exact Nat.lt_succ_of_lt (Literal.read_advances h)
    · exact Numeral.read_advances _ hn

/-- A leaf that can be read can be passed over. -/
theorem Scalar.skip_of_read {s rest : Bytes} {value : Scalar}
    (h : Scalar.read s = .ok (value, rest)) : Scalar.skip s = .ok rest := by
  cases s with
  | nil => cases h
  | cons b s =>
    rcases Scalar.read_cases h with
      ⟨rfl, -, h⟩ | ⟨rfl, -, h⟩ | ⟨rfl, -, h⟩ | ⟨rfl, text, -, h⟩ | ⟨hb, -, numeral, hn⟩
    · exact h
    · exact h
    · exact h
    · exact Literal.skip_of_read h
    · have hn' : Numeral.read Care.skipped.cutNumber (b :: s) = .ok (numeral, rest) := by
        rw [← Except.toOption_eq_some_iff, Numeral.toOption_read, hn]
        rfl
      obtain ⟨h₁, h₂, h₃, h₄⟩ := Scalar.ne_of_begins_number hb
      simp only [Scalar.skip, h₁, h₂, h₃, h₄, hb, if_false, if_true, hn']
      rfl

/-! ## Passing over -/

theorem Literal.skip_advances {s rest : Bytes} (h : skip s = .ok rest) :
    rest.length < s.length := by
  -- The steps that go on are those over a plain byte, a code unit and a letter.
  fun_induction skip s with
  | case2 => cases h; exact Nat.lt_succ_self _
  | case4 _ _ _ _ _ ih => exact Nat.lt_succ_of_lt (ih h)
  | case7 _ _ _ _ _ _ _ _ _ _ _ ih =>
    have := ih h
    simp only [List.length_cons]
    omega
  | case9 _ _ _ _ _ _ _ _ _ ih =>
    have := ih h
    simp only [List.length_cons]
    omega
  | _ => cases h

theorem Scalar.skip_advances {s rest : Bytes} (h : skip s = .ok rest) :
    rest.length < s.length := by
  unfold skip at h
  split at h
  · cases h
  · split at h
    · exact Nat.lt_succ_of_le (length_of_readWord h)
    · split at h
      · exact Nat.lt_succ_of_le (length_of_readWord h)
      · split at h
        · exact Nat.lt_succ_of_le (length_of_readWord h)
        · split at h
          · exact Nat.lt_succ_of_lt (Literal.skip_advances h)
          · split at h
            · obtain ⟨⟨numeral, rest'⟩, hread, h⟩ := Except.bind_eq_ok.mp h
              cases h
              exact Numeral.read_advances _ hread
            · cases h

end Provisioning
