import Provisioning.Proofs.Decimal.Digits
import Provisioning.Proofs.Schema.Surveying

/-!
# Numbers that are words

Where a word of 64 bits is expected, a numeral of any length may stand, and its digits are put
together one by one until they no longer fit. What comes of it is simple: a word is read where its
own decimal digits stand, without a sign, a leading zero, a point or an exponent, and nowhere else
(`Leaf.read_word_eq_ok_iff`). A numeral that is too large is not cut off, and a numeral that is
whole only by its value is not taken for a word.
-/

set_option autoImplicit false

namespace Provisioning

open Ascii

namespace Numeral

/-- All digits are taken exactly if the number that they make stays within the limit. -/
theorem absorb_eq_nil_iff {limit m k : Nat} (hm : m ≤ limit) {ds : List Nat} :
    absorb limit m ds = (k, []) ↔ k = continued m ds ∧ k ≤ limit := by
  induction ds generalizing m with
  | nil =>
    constructor
    · intro h
      cases h
      exact ⟨rfl, hm⟩
    · rintro ⟨rfl, -⟩
      rfl
  | cons d ds ih =>
    rw [absorb]
    by_cases hle : m * 10 + d ≤ limit
    · rw [if_pos hle, ih hle]
      rfl
    · rw [if_neg hle]
      constructor
      · intro h
        cases h
      · rintro ⟨rfl, hk⟩
        have hstart : m * 10 + d ≤ continued m (d :: ds) := le_continued (m * 10 + d) ds
        omega

/-! ## The form of a plain numeral -/

theorem eq_digitByte_of_digit? {b : UInt8} {d : Nat} (h : digit? b = some d) :
    d < 10 ∧ b = digitByte d := by
  unfold digit? at h
  split at h
  · next hb =>
    cases h
    refine ⟨by omega, ?_⟩
    rw [digitByte, show 0x30 + (b.toNat - 0x30) = b.toNat by omega, UInt8.ofNat_toNat]
  · cases h

/-- The digits at the front, and what follows them begins with no digit. -/
theorem eq_of_digits {s rest : Bytes} {ds : List Nat} (h : digits s = (ds, rest)) :
    s = ds.map digitByte ++ rest ∧ (∀ d ∈ ds, d < 10) ∧ ∀ b ∈ rest.head?, digit? b = none := by
  fun_induction digits s generalizing ds with
  | case1 =>
    cases h
    exact ⟨rfl, by simp, by simp⟩
  | case2 b s d hd ds' rest' hds ih =>
    cases h
    obtain ⟨rfl, hlt, hrest⟩ := ih hds
    obtain ⟨hd', rfl⟩ := eq_digitByte_of_digit? hd
    exact ⟨rfl, List.forall_mem_cons.mpr ⟨hd', hlt⟩, hrest⟩
  | case3 b s hb =>
    cases h
    refine ⟨rfl, by simp, ?_⟩
    intro c hc
    cases hc
    exact hb

/-- Digits are told from what follows them. -/
theorem eq_of_map_digitByte_append {ds es : List Nat} {s t : Bytes} (hds : ∀ d ∈ ds, d < 10)
    (hes : ∀ d ∈ es, d < 10) (hs : ∀ b ∈ s.head?, digit? b = none)
    (ht : ∀ b ∈ t.head?, digit? b = none) (h : ds.map digitByte ++ s = es.map digitByte ++ t) :
    ds = es ∧ s = t := by
  have hdigits := digits_map_digitByte hds hs
  rw [h, digits_map_digitByte hes ht] at hdigits
  cases hdigits
  exact ⟨rfl, rfl⟩

/-- The digits before the point are those of a number. -/
theorem exists_decimal_of_readWhole {cut : Malformed} {s rest : Bytes} {ds : List Nat}
    (h : readWhole cut s = .ok (ds, rest)) :
    ∃ n, ds = decimal n ∧ s = (decimal n).map digitByte ++ rest ∧
      ∀ b ∈ rest.head?, digit? b = none := by
  cases s with
  | nil => cases h
  | cons b s =>
    simp only [readWhole] at h
    split at h
    · cases h
    · cases h
    · next d ds' rest' hzero hd hds =>
      cases h
      obtain ⟨hd', rfl⟩ := eq_digitByte_of_digit? hd
      obtain ⟨rfl, hlt, hrest⟩ := eq_of_digits hds
      have hdecimal : decimal (number (d :: ds')) = d :: ds' := by
        refine decimal_number (List.forall_mem_cons.mpr ⟨hd', hlt⟩) ?_
        rintro rfl
        cases ds' with
        | nil => rfl
        | cons e es => exact (hzero e es rfl rfl).elim
      exact ⟨number (d :: ds'), hdecimal.symm, by rw [hdecimal]; rfl, hrest⟩

theorem eq_of_readFraction_nil {cut : Malformed} {s rest : Bytes}
    (h : readFraction cut s = .ok ([], rest)) : rest = s ∧ ∀ b ∈ rest.head?, b ≠ point := by
  unfold readFraction at h
  split at h
  · next hs =>
    cases h
    refine ⟨rfl, ?_⟩
    rintro b hb rfl
    cases s with
    | nil => cases hb
    | cons c s =>
      cases hb
      simp [after?] at hs
  · split at h
    · cases h
    · cases h
    · next hds _ _ =>
      cases h
      simp_all

theorem eq_of_readExponent_none {cut : Malformed} {s rest : Bytes}
    (h : readExponent cut s = .ok (none, rest)) :
    rest = s ∧ ∀ b ∈ rest.head?, b ≠ lowerE ∧ b ≠ upperE := by
  cases s with
  | nil =>
    cases h
    exact ⟨rfl, nofun⟩
  | cons b s =>
    simp only [readExponent] at h
    split at h
    · split at h <;> cases h
    · next hb =>
      cases h
      refine ⟨rfl, ?_⟩
      intro c hc
      cases hc
      exact not_or.mp hb

theorem eq_of_readMinus_false {s rest : Bytes} (h : readMinus s = (false, rest)) : s = rest := by
  unfold readMinus at h
  split at h <;> cases h
  rfl

/-- A numeral without sign, point and exponent is the decimal digits of a number. -/
theorem read_plain_iff {cut : Malformed} {s rest : Bytes} {whole : List Nat} :
    read cut s = .ok (⟨false, whole, [], none⟩, rest) ↔
      ∃ n, whole = decimal n ∧ s = (decimal n).map digitByte ++ rest ∧ Ends rest := by
  constructor
  · intro h
    cases hminus : readMinus s with
    | mk negative s₁ =>
      simp only [read, hminus, Except.bind_eq_ok, Prod.exists] at h
      obtain ⟨whole', s₂, hwhole, fraction, s₃, hfraction, exponent?, s₄, hexponent, h⟩ := h
      cases h
      obtain ⟨n, rfl, hs₁, hdigit⟩ := exists_decimal_of_readWhole hwhole
      obtain ⟨rfl, hpoint⟩ := eq_of_readFraction_nil hfraction
      obtain ⟨rfl, hletter⟩ := eq_of_readExponent_none hexponent
      refine ⟨n, rfl, (eq_of_readMinus_false hminus).trans hs₁, fun b hb => ?_⟩
      exact ⟨hdigit b hb, hpoint b hb, hletter b hb⟩
  · rintro ⟨n, rfl, rfl, hends⟩
    exact read_decimal cut n hends

/-! ## The words that numerals mean -/

/-- An exact number is meant by a numeral without point and exponent, whose digits all count. -/
theorem exists_of_value_integer {numeral : Numeral} {n : Integer}
    (h : numeral.value = .ok (.integer n)) :
    ∃ k, numeral.fraction = [] ∧ numeral.exponent? = none ∧
      absorb maxSignificand 0 numeral.whole = (k, []) ∧
      Integer.ofInt? (if numeral.negative then -(k : Int) else k) = some n ∧
      ¬(numeral.negative ∧ k = 0) := by
  obtain ⟨negative, whole, fraction, exponent?⟩ := numeral
  unfold value at h
  dsimp only at h
  split at h
  · split at h
    · split at h <;> cases h
    · split at h <;> cases h
  · split at h
    · next hparts =>
      obtain ⟨hfraction, huncounted⟩ := hparts
      split at h
      · next hn =>
        split at h
        · cases h
        · next hzero =>
          cases h
          refine ⟨_, List.isEmpty_iff.mp hfraction, rfl, ?_, hn, hzero⟩
          rw [← List.isEmpty_iff.mp huncounted]
      · split at h <;> cases h
    · split at h <;> cases h

end Numeral

theorem Integer.val_of_ofInt? {i : Int} {n : Integer} (h : ofInt? i = some n) : n.val = i := by
  unfold ofInt? at h
  split at h
  · cases h
    rfl
  · cases h

theorem Integer.val_of_toUInt64? {n : Integer} {w : UInt64} (h : n.toUInt64? = some w) :
    n.val = w.toNat := by
  have hlt := n.val_lt
  unfold toUInt64? at h
  split at h
  · cases h
    have hword : (UInt64.ofNat n.val.toNat).toNat = n.val.toNat :=
      UInt64.toNat_ofNat_of_lt' (by rw [UInt64.size]; omega)
    rw [hword]
    omega
  · cases h

/-- A word is meant by no numeral with a sign, a point or an exponent. -/
theorem Numeral.exists_of_value_word {numeral : Numeral} {n : Integer} {w : UInt64}
    (h : numeral.value = .ok (.integer n)) (hn : n.toUInt64? = some w) :
    numeral = ⟨false, numeral.whole, [], none⟩ ∧ number numeral.whole = w.toNat := by
  obtain ⟨k, hfraction, hexponent, hwhole, hofInt, hzero⟩ := exists_of_value_integer h
  obtain ⟨negative, whole, fraction, exponent?⟩ := numeral
  have hval : (w.toNat : Int) = if negative then -(k : Int) else k :=
    (Integer.val_of_toUInt64? hn).symm.trans (Integer.val_of_ofInt? hofInt)
  cases negative with
  | true =>
    simp only [if_true, true_and] at hval hzero
    omega
  | false =>
    obtain ⟨hk, -⟩ := (absorb_eq_nil_iff (Nat.zero_le _)).mp hwhole
    simp only at hfraction hexponent hk
    subst hfraction hexponent
    refine ⟨rfl, ?_⟩
    simp only [Bool.false_eq_true, if_false] at hval
    exact hk.symm.trans (by omega)

/-- An exact number is read only from a numeral that means it. -/
theorem Scalar.exists_of_read_integer {s rest : Bytes} {n : Integer}
    (h : read s = .ok (.integer n, rest)) :
    ∃ numeral, Numeral.read .eofValue s = .ok (numeral, rest) ∧
      numeral.value = .ok (.integer n) := by
  cases s with
  | nil => cases h
  | cons b s =>
    have hb : b = minus ∨ (digit? b).isSome := by
      rcases read_cases h with
        ⟨-, heq, -⟩ | ⟨-, heq, -⟩ | ⟨-, heq, -⟩ | ⟨-, text, heq, -⟩ | ⟨hb, -⟩
      · cases heq
      · cases heq
      · cases heq
      · cases heq
      · exact hb
    rw [read_eq_readNumber hb] at h
    exact readNumber_eq_ok h

theorem Leaf.word_accept_eq_ok {value : Scalar} {w : UInt64}
    (h : word.accept (.scalar value) = .ok w) :
    ∃ n, value = .integer n ∧ n.toUInt64? = some w := by
  simp only [word] at h
  split at h
  · next n heq =>
    cases heq
    split at h
    · next hn =>
      cases h
      exact ⟨n, rfl, hn⟩
    · cases h
  · cases h

/-- A word is read where its own digits stand, without sign, point and exponent, and nowhere
else. -/
theorem Leaf.read_word_eq_ok_iff {s rest : Bytes} {w : UInt64} :
    Leaf.word.read s = .ok (w, rest) ↔
      skipBlank s = (Numeral.decimal w.toNat).map Numeral.digitByte ++ rest ∧
        Numeral.Ends rest := by
  rw [Leaf.read_eq_ok_iff]
  constructor
  · rintro ⟨value, hread, haccept⟩
    obtain ⟨n, rfl, hn⟩ := word_accept_eq_ok haccept
    obtain ⟨numeral, hnumeral, hvalue⟩ := Scalar.exists_of_read_integer hread
    obtain ⟨hplain, hnumber⟩ := Numeral.exists_of_value_word hvalue hn
    rw [hplain] at hnumeral
    obtain ⟨k, hk, hs, hends⟩ := Numeral.read_plain_iff.mp hnumeral
    rw [hk, Numeral.number_decimal] at hnumber
    exact ⟨hnumber ▸ hs, hends⟩
  · rintro ⟨hs, hends⟩
    refine ⟨.integer (.ofUInt64 w), ?_, Leaf.word.accept_give w⟩
    have hchars : Utf8.encodeAll (Integer.ofUInt64 w).chars =
        (Numeral.decimal w.toNat).map Numeral.digitByte := Numeral.encodeAll_toDigits w.toNat
    rw [hs, ← hchars]
    exact Scalar.read_integer _ hends

/-! ## Which numerals are words -/

/-- A numeral without sign, point and exponent is a word exactly if it is not too large. -/
theorem Leaf.exists_read_word_iff {s back : Bytes} {n : Nat} {w : UInt64}
    (hs : skipBlank s = (Numeral.decimal n).map Numeral.digitByte ++ back)
    (hback : Numeral.Ends back) :
    (∃ rest, Leaf.word.read s = .ok (w, rest)) ↔ w.toNat = n := by
  constructor
  · rintro ⟨rest, hread⟩
    obtain ⟨hs', hends⟩ := read_word_eq_ok_iff.mp hread
    obtain ⟨hdecimal, -⟩ := Numeral.eq_of_map_digitByte_append (Numeral.decimal_lt _)
      (Numeral.decimal_lt _) (fun b hb => (hends b hb).1) (fun b hb => (hback b hb).1)
      (hs'.symm.trans hs)
    exact Numeral.decimal_inj hdecimal
  · rintro rfl
    exact ⟨back, read_word_eq_ok_iff.mpr ⟨hs, hback⟩⟩

/-- What has a minus sign is no word, not even if it means zero. -/
theorem Leaf.read_word_ne_of_minus {s back : Bytes} (hs : skipBlank s = minus :: back)
    (r : UInt64 × Bytes) : Leaf.word.read s ≠ .ok r := by
  intro hread
  obtain ⟨hs', -⟩ := read_word_eq_ok_iff.mp hread
  obtain ⟨d, ds, hdecimal, hd, -⟩ := Numeral.decimal_eq_cons r.1.toNat
  rw [hs, hdecimal, List.map_cons, List.cons_append] at hs'
  exact Numeral.digitByte_ne_minus d hd (List.cons.inj hs').1.symm

/-- What goes on with a point or an exponent is no word, not even if it means a whole number. -/
theorem Leaf.read_word_ne_of_continued {s back : Bytes} {ds : List Nat} {b : UInt8}
    (hds : ∀ d ∈ ds, d < 10) (hb : b = point ∨ b = lowerE ∨ b = upperE)
    (hs : skipBlank s = ds.map Numeral.digitByte ++ b :: back) (r : UInt64 × Bytes) :
    Leaf.word.read s ≠ .ok r := by
  intro hread
  obtain ⟨hs', hends⟩ := read_word_eq_ok_iff.mp hread
  have hnodigit : digit? b = none := by
    rcases hb with rfl | rfl | rfl <;> decide
  obtain ⟨-, hrest⟩ := Numeral.eq_of_map_digitByte_append hds (Numeral.decimal_lt _)
    (by rintro _ ⟨⟩; exact hnodigit) (fun b hb => (hends b hb).1) (hs.symm.trans hs')
  obtain ⟨-, hpoint, hlower, hupper⟩ := hends b (by rw [← hrest]; rfl)
  exact hb.elim hpoint fun hb => hb.elim hlower hupper

end Provisioning
