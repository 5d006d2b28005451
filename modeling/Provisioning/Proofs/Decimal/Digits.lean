import Mathlib.Tactic.Linarith
import Mathlib.Tactic.Ring
import Provisioning.Proofs.Json.Spelling

/-!
# Digits and numbers

`Numeral.decimal` lists the digits of a number, and `Numeral.number` puts a number together from
digits. The second undoes the first, and it is undone by it on digits that do not begin with a zero.
How many digits a number has is a matter of powers of ten (`Numeral.number_lt`,
`Numeral.le_number`); zeros behind it multiply it by ten.
-/

set_option autoImplicit false

namespace Provisioning.Numeral

/-- The number that digits continue, the highest first. -/
def continued (n : Nat) (ds : List Nat) : Nat := ds.foldl (fun n d => n * 10 + d) n

/-- The number that digits spell. -/
def number (ds : List Nat) : Nat := continued 0 ds

theorem continued_append (n : Nat) (ds es : List Nat) :
    continued n (ds ++ es) = continued (continued n ds) es :=
  List.foldl_append

theorem le_continued (n : Nat) (ds : List Nat) : n ≤ continued n ds := by
  induction ds generalizing n with
  | nil => exact Nat.le_refl n
  | cons d ds ih => exact Nat.le_trans (by omega) (ih (n * 10 + d))

theorem number_decimal (n : Nat) : number (decimal n) = n := by
  fun_induction decimal n with
  | case1 n h => simp [number, continued]
  | case2 n h ih =>
    rw [number] at ih ⊢
    rw [continued_append, ih]
    exact Nat.div_add_mod' n 10

theorem decimal_inj {m n : Nat} (h : decimal m = decimal n) : m = n := by
  rw [← number_decimal m, h, number_decimal]

theorem decimal_digit {d : Nat} (h : d < 10) : decimal d = [d] := by
  rw [decimal, if_pos h]

/-- Digits behind a positive number are digits of the number that they continue. -/
theorem decimal_continued {n : Nat} (hn : 0 < n) {ds : List Nat} (hds : ∀ d ∈ ds, d < 10) :
    decimal (continued n ds) = decimal n ++ ds := by
  induction ds generalizing n with
  | nil => exact (List.append_nil _).symm
  | cons d ds ih =>
    obtain ⟨hd, hds⟩ := List.forall_mem_cons.mp hds
    have hstep : decimal (n * 10 + d) = decimal n ++ [d] := by
      rw [decimal, if_neg (by omega), show (n * 10 + d) / 10 = n by omega,
        show (n * 10 + d) % 10 = d by omega]
    rw [continued, List.foldl_cons, ← continued, ih (by omega) hds, hstep, List.append_assoc]
    rfl

/-- Digits of which the first is zero only if it is the only one are those of their number. -/
theorem decimal_number {d : Nat} {ds : List Nat} (hds : ∀ d' ∈ d :: ds, d' < 10)
    (hzero : d = 0 → ds = []) : decimal (number (d :: ds)) = d :: ds := by
  obtain ⟨hd, hds⟩ := List.forall_mem_cons.mp hds
  have hnumber : number (d :: ds) = continued d ds := by
    rw [number, continued, List.foldl_cons, Nat.zero_mul, Nat.zero_add, continued]
  rw [hnumber]
  rcases Nat.eq_zero_or_pos d with rfl | hpos
  · rw [hzero rfl]
    exact decimal_digit hd
  · rw [decimal_continued hpos hds, decimal_digit hd]
    rfl

/-! ## Powers of ten -/

theorem continued_eq (n : Nat) (ds : List Nat) :
    continued n ds = n * 10 ^ ds.length + number ds := by
  induction ds generalizing n with
  | nil => rw [continued, List.foldl_nil, List.length_nil, Nat.pow_zero, Nat.mul_one]; rfl
  | cons d ds ih =>
    have hstep (m : Nat) : continued m (d :: ds) = continued (m * 10 + d) ds := rfl
    rw [number, hstep, hstep, ih, ih (0 * 10 + d), List.length_cons, Nat.pow_succ]
    ring

theorem number_append (ds es : List Nat) :
    number (ds ++ es) = number ds * 10 ^ es.length + number es := by
  rw [number, continued_append, continued_eq]
  rfl

theorem number_cons (d : Nat) (ds : List Nat) :
    number (d :: ds) = d * 10 ^ ds.length + number ds := by
  rw [number, continued, List.foldl_cons, ← continued, Nat.zero_mul, Nat.zero_add, continued_eq]

theorem number_replicate_zero (n : Nat) : number (List.replicate n 0) = 0 := by
  induction n with
  | zero => rfl
  | succ n ih => rw [List.replicate_succ, number_cons, ih, Nat.zero_mul]

/-- Zeros in front do not count. -/
theorem number_zeros_append (n : Nat) (ds : List Nat) :
    number (List.replicate n 0 ++ ds) = number ds := by
  rw [number_append, number_replicate_zero, Nat.zero_mul, Nat.zero_add]

/-- Each zero at the end multiplies by ten. -/
theorem number_append_zeros (ds : List Nat) (n : Nat) :
    number (ds ++ List.replicate n 0) = number ds * 10 ^ n := by
  rw [number_append, number_replicate_zero, Nat.add_zero, List.length_replicate]

theorem number_lt {ds : List Nat} (h : ∀ d ∈ ds, d < 10) : number ds < 10 ^ ds.length := by
  induction ds with
  | nil => exact Nat.one_pos
  | cons d ds ih =>
    obtain ⟨hd, hds⟩ := List.forall_mem_cons.mp h
    have hrest := ih hds
    rw [number_cons, List.length_cons, Nat.pow_succ]
    nlinarith

theorem le_number {d : Nat} (hd : d ≠ 0) (ds : List Nat) : 10 ^ ds.length ≤ number (d :: ds) := by
  rw [number_cons]
  have := Nat.mul_le_mul_right (10 ^ ds.length) (Nat.pos_of_ne_zero hd)
  omega

/-- The digits of a positive number do not begin with a zero, and their count is its size. -/
theorem exists_decimal_eq_cons {n : Nat} (hn : 0 < n) :
    ∃ d ds, decimal n = d :: ds ∧ d ≠ 0 ∧ 10 ^ ds.length ≤ n ∧ n < 10 ^ (ds.length + 1) := by
  obtain ⟨d, ds, hds, -, hzero⟩ := decimal_eq_cons n
  have hnumber : number (d :: ds) = n := by rw [← hds, number_decimal]
  have hd : d ≠ 0 := by
    rintro rfl
    rw [hzero rfl] at hnumber
    exact hn.ne hnumber
  have hlt := number_lt (decimal_lt n)
  rw [number_decimal, hds, List.length_cons] at hlt
  exact ⟨d, ds, hds, hd, hnumber ▸ le_number hd ds, hlt⟩

/-! ## Characters -/

theorem toDigits_eq_map (n : Nat) : Nat.toDigits 10 n = (decimal n).map Nat.digitChar := by
  fun_induction decimal n with
  | case1 n h => rw [Nat.toDigits_of_lt_base h, List.map_singleton]
  | case2 n h ih =>
    rw [Nat.toDigits_of_base_le (by decide) (by omega), ih, List.map_append, List.map_singleton]

theorem digitChar_eq_zero_iff : ∀ d < 10, (Nat.digitChar d = '0' ↔ d = 0) := by
  decide

end Provisioning.Numeral
