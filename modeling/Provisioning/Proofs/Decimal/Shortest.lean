import Mathlib.Algebra.Order.Field.Power
import Mathlib.Algebra.Order.Field.Rat
import Mathlib.Tactic.FieldSimp
import Mathlib.Tactic.Linarith
import Mathlib.Tactic.Positivity
import Mathlib.Tactic.Ring
import Provisioning.Decimal.Shortest
import Provisioning.Proofs.Decimal.Digits

/-!
# The digits that are found are the fewest

A decimal number rounds to a floating-point value if it lies between the points halfway to the
neighbours of the value (`Dyadic.Rounds`). The search counts in a unit of which these points and the
value are whole multiples, and asks of ever finer powers of ten whether one of the two multiples
around the value is between the points. What lies between two numbers that round to a value does so
too, so if neither of the two does then no multiple of that power does. Hence the power at which the
search ends is the highest there is (`Dyadic.Hit`), and the number that it finds has the fewest
digits and is the nearest among those (`Dyadic.Shortest`, `Dyadic.exists_shortest`).
-/

set_option autoImplicit false

namespace Provisioning.Decimal

open Numeral

namespace Dyadic

variable {x : Dyadic} {r s t : ℚ}

/-- What the value is. -/
def exact (x : Dyadic) : ℚ := x.significand * 2 ^ x.exponent

/-- The point halfway to the next lower value. -/
def low (x : Dyadic) : ℚ :=
  (x.significand - if x.narrowBelow then 1 / 4 else 1 / 2) * 2 ^ x.exponent

/-- The point halfway to the next higher value. -/
def high (x : Dyadic) : ℚ := (x.significand + 1 / 2) * 2 ^ x.exponent

/-- The number rounds to the value: it lies between the two points, or is one of them and the value
is even. -/
def Rounds (x : Dyadic) (r : ℚ) : Prop :=
  if x.significand % 2 = 0 then x.low ≤ r ∧ r ≤ x.high else x.low < r ∧ r < x.high

/-- What lies between two numbers that round to the value does so too. -/
theorem Rounds.between (hr : x.Rounds r) (ht : x.Rounds t) (hrs : r ≤ s) (hst : s ≤ t) :
    x.Rounds s := by
  unfold Rounds at *
  split at hr
  · next h =>
    rw [if_pos h] at ht ⊢
    exact ⟨hr.1.trans hrs, hst.trans ht.2⟩
  · next h =>
    rw [if_neg h] at ht ⊢
    exact ⟨hr.1.trans_le hrs, hst.trans_lt ht.2⟩

theorem Rounds.pos (hx : 0 < x.significand) (h : x.Rounds r) : 0 < r := by
  have hm : (1 : ℚ) ≤ x.significand := by exact_mod_cast hx
  have hlow : 0 < x.low := by
    refine mul_pos ?_ (by positivity)
    split <;> linarith
  unfold Rounds at h
  split at h
  · exact hlow.trans_le h.1
  · exact hlow.trans h.1

/-! ## Units -/

/-- What is counted: a power of ten of which a quarter of the last place is a whole number. -/
def unit (x : Dyadic) : ℚ := 10 ^ min x.quarter 0

theorem unit_pos (x : Dyadic) : 0 < x.unit := by
  unfold unit
  positivity

theorem units_mul (n : Nat) (q : Int) : (units n q : ℚ) * 10 ^ min q 0 = n * 2 ^ q := by
  rcases Int.le_total 0 q with hq | hq
  · obtain ⟨k, rfl⟩ := Int.eq_ofNat_of_zero_le hq
    simp [units]
  · obtain ⟨k, hk⟩ := Int.eq_ofNat_of_zero_le (Int.neg_nonneg_of_nonpos hq)
    obtain rfl : q = -k := by omega
    have hten : (10 : ℚ) ^ k = 2 ^ k * 5 ^ k := by rw [← mul_pow]; norm_num
    have hmin : min (-(k : ℤ)) 0 = -k := by omega
    rw [hmin, zpow_neg, zpow_neg, zpow_natCast, zpow_natCast, hten]
    simp [units]
    field_simp

theorem units_quarter_mul (x : Dyadic) (n : Nat) :
    (units n x.quarter : ℚ) * x.unit = n / 4 * 2 ^ x.exponent := by
  rw [unit, units_mul, quarter, zpow_sub₀ (by norm_num)]
  norm_num
  ring

theorem least_mul_unit (hx : 0 < x.significand) : x.least * x.unit = x.low := by
  rw [least, units_quarter_mul, low, Nat.cast_sub (by split <;> omega)]
  congr 1
  split <;> push_cast <;> ring

theorem value_mul_unit (x : Dyadic) : x.value * x.unit = x.exact := by
  rw [value, units_quarter_mul, exact]
  push_cast
  ring

theorem greatest_mul_unit (x : Dyadic) : x.greatest * x.unit = x.high := by
  rw [greatest, units_quarter_mul, high]
  push_cast
  ring

theorem readsBack_iff (hx : 0 < x.significand) {n : Nat} :
    x.readsBack n ↔ x.Rounds (n * x.unit) := by
  have hlow := least_mul_unit hx
  have hhigh := greatest_mul_unit x
  unfold readsBack Rounds
  rw [← hlow, ← hhigh]
  split
  · simp [x.unit_pos]
  · simp [x.unit_pos]

theorem rounds_value (x : Dyadic) : x.Rounds (x.value * x.unit) := by
  have hpow : (0 : ℚ) < 2 ^ x.exponent := by positivity
  rw [value_mul_unit, exact]
  unfold Rounds low high
  have hbelow : (0 : ℚ) < if x.narrowBelow then 1 / 4 else 1 / 2 := by split <;> norm_num
  split
  · constructor <;> nlinarith
  · constructor <;> nlinarith

/-- Zero does not round to a positive value, in whatever it is counted. -/
theorem pos_of_rounds (hx : 0 < x.significand) {m n : Nat} {r : ℚ}
    (h : x.Rounds ((m * n : Nat) * r)) : 0 < m := by
  refine Nat.pos_of_ne_zero ?_
  rintro rfl
  simpa using h.pos hx

theorem value_pos (hx : 0 < x.significand) : 0 < x.value :=
  pos_of_rounds hx (n := 1) (by simpa using rounds_value x)

/-! ## The search -/

variable {step count power n : Nat}

/-- If a multiple of a step reads back, so does the one next to the value on the same side. -/
theorem rounds_of_between (hx : 0 < x.significand) {k : Nat}
    (hk : x.Rounds ((k * step : Nat) * x.unit)) :
    (x.value / step < k → x.readsBack ((x.value / step + 1) * step)) ∧
      (k ≤ x.value / step → x.readsBack (x.value / step * step)) := by
  have hmono {a b : Nat} (hab : a ≤ b) : (a : ℚ) * x.unit ≤ b * x.unit :=
    mul_le_mul_of_nonneg_right (Nat.cast_le.mpr hab) x.unit_pos.le
  have hstep : 0 < step := by
    refine Nat.pos_of_ne_zero ?_
    rintro rfl
    simpa using hk.pos hx
  rw [readsBack_iff hx, readsBack_iff hx]
  constructor
  · intro hlt
    exact (rounds_value x).between hk (hmono (Nat.lt_mul_of_div_lt (Nat.lt_succ_self _) hstep).le)
      (hmono (Nat.mul_le_mul_right step hlt))
  · intro hge
    exact hk.between (rounds_value x) (hmono (Nat.mul_le_mul_right step hge))
      (hmono (Nat.div_mul_le_self _ _))

theorem not_rounds_of_onGrid? (hx : 0 < x.significand) (h : x.onGrid? step = none) (k : Nat) :
    ¬x.Rounds ((k * step : Nat) * x.unit) := by
  intro hk
  obtain ⟨habove, hbelow⟩ := rounds_of_between hx hk
  unfold onGrid? at h
  rcases Nat.lt_or_ge (x.value / step) k with hlt | hge
  · have := habove hlt
    grind
  · have := hbelow hge
    grind

theorem readsBack_of_onGrid? (h : x.onGrid? step = some count) :
    x.readsBack (count * step) ∧ (count = x.value / step ∨ count = x.value / step + 1) := by
  unfold onGrid? at h
  grind

/-- No multiple of the step that reads back is nearer to the value. -/
theorem nearest_of_onGrid? (hx : 0 < x.significand) (hstep : 0 < step)
    (h : x.onGrid? step = some count) {k : Nat} (hk : x.Rounds ((k * step : Nat) * x.unit)) :
    |((count * step : Nat) : ℤ) - x.value| ≤ |((k * step : Nat) : ℤ) - x.value| := by
  have hdiv := Nat.div_add_mod' x.value step
  have hmod := Nat.mod_lt x.value hstep
  have hbetween := rounds_of_between hx hk
  unfold onGrid? at h
  rcases Nat.lt_or_ge (x.value / step) k with hlt | hge
  · have hmul := Nat.mul_le_mul_right step hlt
    have habove := hbetween.1 hlt
    rw [Nat.succ_mul] at hmul
    grind
  · have hmul := Nat.mul_le_mul_right step hge
    have hbelow := hbetween.2 hge
    grind

/-- The outcome of a search: a number on the coarsest grid that has one which reads back, and none
on that grid is nearer. -/
structure Hit (x : Dyadic) (n count power : Nat) : Prop where
  le : power ≤ n
  rounds : x.Rounds ((count * 10 ^ power : Nat) * x.unit)
  next : count = x.value / 10 ^ power ∨ count = x.value / 10 ^ power + 1
  nearest : ∀ k : Nat, x.Rounds ((k * 10 ^ power : Nat) * x.unit) →
    |((count * 10 ^ power : Nat) : ℤ) - x.value| ≤ |((k * 10 ^ power : Nat) : ℤ) - x.value|
  coarser : ∀ j, power < j → j ≤ n → ∀ k : Nat, ¬x.Rounds ((k * 10 ^ j : Nat) * x.unit)

theorem hit_of_search (hx : 0 < x.significand) (h : x.search n = (count, power)) :
    x.Hit n count power := by
  induction n with
  | zero =>
    cases h
    exact ⟨Nat.le_refl 0, by simpa using rounds_value x, .inl (by simp), by simp, by omega⟩
  | succ n ih =>
    rw [search, Nat.pow_eq] at h
    split at h
    · next count' hgrid =>
      cases h
      obtain ⟨hreads, hnext⟩ := readsBack_of_onGrid? hgrid
      exact ⟨Nat.le_refl _, (readsBack_iff hx).mp hreads, hnext,
        fun _ => nearest_of_onGrid? hx (Nat.pow_pos (by decide)) hgrid, by omega⟩
    · next hgrid =>
      have hhit := ih h
      refine { hhit with le := Nat.le_succ_of_le hhit.le, coarser := ?_ }
      intro j hj hjn
      rcases Nat.lt_or_eq_of_le hjn with hlt | rfl
      · exact hhit.coarser j hj (Nat.le_of_lt_succ hlt)
      · exact not_rounds_of_onGrid? hx hgrid

end Dyadic

/-! ## Zeros at the end -/

/-- The digits without the zeros at their end. -/
theorem exists_trimmed {ds : List Nat} (h : ∀ d ∈ ds, d < 10) :
    ∃ kept zeros, ds = kept ++ List.replicate zeros 0 ∧
      ((ds.map Nat.digitChar).reverse.dropWhile (· = '0')).reverse = kept.map Nat.digitChar ∧
      ∀ d ∈ kept.getLast?, d ≠ 0 := by
  induction ds using List.reverseRecOn with
  | nil => exact ⟨[], 0, rfl, rfl, nofun⟩
  | append_singleton ds d ih =>
    obtain ⟨hds, hd⟩ := List.forall_mem_append.mp h
    have hd := hd d (List.mem_singleton_self d)
    rw [List.map_append, List.map_singleton, List.reverse_append, List.reverse_singleton,
      List.singleton_append, List.dropWhile_cons]
    by_cases hzero : d = 0
    · obtain ⟨kept, zeros, hkept, hdrop, hlast⟩ := ih hds
      refine ⟨kept, zeros + 1, ?_, ?_, hlast⟩
      · rw [List.replicate_succ', ← List.append_assoc, ← hkept, hzero]
      · rwa [if_pos (by simp [hzero])]
    · refine ⟨ds ++ [d], 0, by simp, ?_, by simpa using hzero⟩
      rw [if_neg (by simpa using (digitChar_eq_zero_iff d hd).not.mpr hzero)]
      simp

/-- Digits with no zero at either end. -/
structure Trimmed (digits : List Nat) : Prop where
  lt_ten : ∀ d ∈ digits, d < 10
  leading : ∃ d rest, digits = d :: rest ∧ d ≠ 0
  trailing : ∀ d ∈ digits.getLast?, d ≠ 0

theorem Trimmed.number_mod_ten {ds : List Nat} (h : Trimmed ds) : number ds % 10 ≠ 0 := by
  obtain ⟨hlt, ⟨_, _, hcons, -⟩, hlast⟩ := h
  obtain ⟨front, d, rfl⟩ := (List.eq_nil_or_concat' ds).resolve_left (by simp [hcons])
  have hd : d ≠ 0 := hlast d (by simp)
  have hten : d < 10 := hlt d (by simp)
  have hnumber : number [d] = d := by simp [number, continued]
  rw [number_append, List.length_singleton, hnumber]
  omega

/-- The digits of a positive number without the zeros at their end. -/
theorem exists_kept {n : Nat} (hn : 0 < n) :
    ∃ kept zeros, decimal n = kept ++ List.replicate zeros 0 ∧
      ((Nat.toDigits 10 n).reverse.dropWhile (· = '0')).reverse = kept.map Nat.digitChar ∧
      n = number kept * 10 ^ zeros ∧ Trimmed kept := by
  obtain ⟨kept, zeros, hdigits, hchars, hlast⟩ := exists_trimmed (decimal_lt n)
  have hnumber : n = number kept * 10 ^ zeros := by
    rw [← number_append_zeros, ← hdigits, number_decimal]
  rw [toDigits_eq_map]
  obtain ⟨d, ds, hdecimal, hd, -⟩ := exists_decimal_eq_cons hn
  cases kept with
  | nil =>
    rw [number, continued, List.foldl_nil, Nat.zero_mul] at hnumber
    exact absurd hnumber hn.ne'
  | cons d' ds' =>
    have hcons := hdigits
    rw [hdecimal, List.cons_append] at hcons
    cases hcons
    have hlt : ∀ d' ∈ d :: ds', d' < 10 := fun d' hd' =>
      decimal_lt n d' (hdigits ▸ List.mem_append_left _ hd')
    exact ⟨_, zeros, hdigits, hchars, hnumber, hlt, ⟨d, ds', rfl, hd⟩, hlast⟩

/-! ## The result -/

/-- The number can be written with so many digits and a power of ten. -/
def InDigits (k : Nat) (r : ℚ) : Prop := ∃ (n : Nat) (e : Int), n < 10 ^ k ∧ r = n * 10 ^ e

/-- A number that rounds to the value. None that does has fewer digits, and none with as few is
nearer. -/
structure Dyadic.Shortest (x : Dyadic) (r : ℚ) : Prop where
  rounds : x.Rounds r
  fewest : ∀ s k, x.Rounds s → InDigits k s → InDigits k r
  nearest : ∀ s, x.Rounds s → (∀ k, InDigits k r → InDigits k s) →
    |r - x.exact| ≤ |s - x.exact|

/-- The number with these digits, of which the first counts a power of ten. -/
def magnitude (digits : List Nat) (exponent : Int) : ℚ :=
  number digits * 10 ^ (exponent - (digits.length - 1))

namespace Dyadic

variable {x : Dyadic}

/-- A number is a multiple of the unit, or a fraction of it. -/
theorem exists_mul_unit (x : Dyadic) (m : Nat) (e : Int) :
    ∃ i : Int, (m : ℚ) * 10 ^ e = m * 10 ^ i * x.unit := by
  refine ⟨e - min x.quarter 0, ?_⟩
  rw [unit, mul_assoc, ← zpow_add₀ (by norm_num), Int.sub_add_cancel]

section

variable {n count power kept zeros m k : Nat} {e : Int}

/-- Where nothing on a coarser grid reads back, up to the size of the value, a number that does has
as many digits as there are places left. -/
theorem Hit.lt_of_rounds (h : x.Hit n count power) (hpower : power < n)
    (hn : 10 ^ n ≤ x.value) (hm : x.Rounds (m * 10 ^ e)) (hk : m < 10 ^ k) : n < power + k := by
  obtain ⟨i, hi⟩ := exists_mul_unit x m e
  rw [hi] at hm
  have hgt : (10 : ℚ) ^ n < m * 10 ^ i := by
    by_contra hle
    refine h.coarser n hpower (Nat.le_refl n) 1 (hm.between (rounds_value x) ?_ ?_)
    · exact mul_le_mul_of_nonneg_right (by push_cast; linarith) x.unit_pos.le
    · exact mul_le_mul_of_nonneg_right (by exact_mod_cast (by omega)) x.unit_pos.le
  have hle : i ≤ power := by
    by_contra hlt
    obtain ⟨j, rfl⟩ := Int.eq_ofNat_of_zero_le (show 0 ≤ i by omega)
    rcases Nat.le_total j n with hjn | hnj
    · refine h.coarser j (by omega) hjn m ?_
      simpa using hm
    · refine h.coarser n hpower (Nat.le_refl n) (m * 10 ^ (j - n)) ?_
      rw [Nat.mul_assoc, ← Nat.pow_add, Nat.sub_add_cancel hnj]
      simpa using hm
  have hlt : (10 : ℚ) ^ n < 10 ^ (power + k) := by
    calc (10 : ℚ) ^ n < m * 10 ^ i := hgt
      _ ≤ m * 10 ^ (power : ℤ) :=
        mul_le_mul_of_nonneg_left (zpow_le_zpow_right₀ (by norm_num) hle) (Nat.cast_nonneg m)
      _ < 10 ^ k * 10 ^ (power : ℤ) :=
        mul_lt_mul_of_pos_right (by exact_mod_cast hk) (by positivity)
      _ = 10 ^ (power + k) := by rw [zpow_natCast, pow_add, mul_comm]
  exact (pow_lt_pow_iff_right₀ (by norm_num : (1 : ℚ) < 10)).mp hlt

/-- What is found has no more digits than there are places left, without the zeros at its end. -/
theorem Hit.kept_lt (h : x.Hit n count power) (hn' : x.value < 10 ^ (n + 1))
    (hcount : count = kept * 10 ^ zeros) (hkept : kept % 10 ≠ 0) :
    kept < 10 ^ (n + 1 - power) := by
  have hkept_le : kept ≤ count := hcount ▸ Nat.le_mul_of_pos_right kept (Nat.pow_pos (by decide))
  rcases Nat.lt_or_eq_of_le h.le with hlt | rfl
  · refine hkept_le.trans_lt ?_
    by_contra hge
    -- Then the next power of ten reads back, and it is on a coarser grid.
    refine h.coarser n hlt (Nat.le_refl n) 10 ((rounds_value x).between h.rounds ?_ ?_)
    · refine mul_le_mul_of_nonneg_right (Nat.cast_le.mpr ?_) x.unit_pos.le
      rw [← Nat.pow_succ']
      exact hn'.le
    · refine mul_le_mul_of_nonneg_right (Nat.cast_le.mpr ?_) x.unit_pos.le
      calc 10 * 10 ^ n = 10 ^ (n + 1 - power) * 10 ^ power := by
            rw [← Nat.pow_succ', ← Nat.pow_add, Nat.sub_add_cancel (by omega)]
        _ ≤ count * 10 ^ power := Nat.mul_le_mul_right _ (Nat.le_of_not_lt hge)
  · -- On the coarsest grid of all the number is at most ten, of which one digit is left.
    have hnext := h.next
    have hdiv : x.value / 10 ^ power < 10 := Nat.div_lt_of_lt_mul (by rwa [← Nat.pow_succ])
    rw [Nat.add_sub_cancel_left, Nat.pow_one]
    cases zeros with
    | zero => omega
    | succ zeros =>
      have : 10 ≤ 10 ^ (zeros + 1) := Nat.le_self_pow (by omega) 10
      have := Nat.mul_le_mul_left kept this
      omega

theorem Hit.fewest (h : x.Hit n count power) (hx : 0 < x.significand) (hn : 10 ^ n ≤ x.value)
    (hkept : kept < 10 ^ (n + 1 - power)) (hm : x.Rounds (m * 10 ^ e)) (hk : m < 10 ^ k) :
    kept < 10 ^ k := by
  refine hkept.trans_le (Nat.pow_le_pow_right (by decide) ?_)
  rcases Nat.lt_or_eq_of_le h.le with hlt | rfl
  · have := h.lt_of_rounds hlt hn hm hk
    omega
  · have hpos : 0 < m := pos_of_rounds hx (n := 1) (by simpa using hm)
    have : k ≠ 0 := by
      rintro rfl
      omega
    omega

/-- The nearest on the grid, compared as fractions of the unit. -/
theorem Hit.nearest_multiple (h : x.Hit n count power)
    (hk : x.Rounds ((k * 10 ^ power : Nat) * x.unit)) :
    |((count * 10 ^ power : Nat) : ℚ) - x.value| ≤ |((k * 10 ^ power : Nat) : ℚ) - x.value| := by
  have hcast (j : Nat) : |(j : ℚ) - x.value| = ((|(j : ℤ) - x.value| : ℤ) : ℚ) := by push_cast; rfl
  rw [hcast, hcast]
  exact_mod_cast h.nearest k hk

/-- Nothing that is lower than the size of the value is nearer, because that is on the grid. -/
theorem Hit.nearest_of_le (h : x.Hit n count power) (hn : 10 ^ n ≤ x.value) {r : ℚ}
    (hr : x.Rounds (r * x.unit)) (hle : r ≤ 10 ^ n) :
    |((count * 10 ^ power : Nat) : ℚ) - x.value| ≤ |r - x.value| := by
  have hvalue : (10 : ℚ) ^ n ≤ x.value := by exact_mod_cast hn
  have hpow : 10 ^ (n - power) * 10 ^ power = 10 ^ n := by
    rw [← Nat.pow_add, Nat.sub_add_cancel h.le]
  have hrounds : x.Rounds ((10 ^ (n - power) * 10 ^ power : Nat) * x.unit) := by
    rw [hpow]
    refine hr.between (rounds_value x) ?_ ?_
    · exact mul_le_mul_of_nonneg_right (by exact_mod_cast hle) x.unit_pos.le
    · exact mul_le_mul_of_nonneg_right (by exact_mod_cast hn) x.unit_pos.le
  calc |((count * 10 ^ power : Nat) : ℚ) - x.value| ≤ |((10 ^ n : Nat) : ℚ) - x.value| :=
        hpow ▸ h.nearest_multiple hrounds
    _ ≤ |r - x.value| := by
        rw [abs_of_nonpos (by push_cast; linarith), abs_of_nonpos (by linarith)]
        push_cast
        linarith

/-- A number with no more digits than there are places left is on the grid, or it is no higher than
the size of the value. -/
theorem Hit.nearest_of_lt (h : x.Hit n count power) (hn : 10 ^ n ≤ x.value)
    (hk : k + power ≤ n + 1) (hm : x.Rounds (m * 10 ^ e)) (hmk : m < 10 ^ k) :
    |((count * 10 ^ power : Nat) : ℚ) * x.unit - x.exact| ≤ |m * 10 ^ e - x.exact| := by
  have hscale (r : ℚ) : |r * x.unit - x.exact| = |r - x.value| * x.unit := by
    rw [← value_mul_unit, ← sub_mul, abs_mul, abs_of_pos x.unit_pos]
  obtain ⟨i, hi⟩ := exists_mul_unit x m e
  rw [hi] at hm ⊢
  rw [hscale, hscale]
  refine mul_le_mul_of_nonneg_right ?_ x.unit_pos.le
  rcases Int.lt_or_le i power with hlt | hge
  · refine h.nearest_of_le hn hm ?_
    calc (m : ℚ) * 10 ^ i ≤ 10 ^ k * 10 ^ ((power : ℤ) - 1) :=
          mul_le_mul (by exact_mod_cast hmk.le) (zpow_le_zpow_right₀ (by norm_num) (by omega))
            (by positivity) (by positivity)
      _ = 10 ^ ((k : ℤ) + (power - 1)) := by rw [zpow_add₀ (by norm_num), zpow_natCast]
      _ ≤ 10 ^ (n : ℤ) := zpow_le_zpow_right₀ (by norm_num) (by omega)
      _ = 10 ^ n := zpow_natCast 10 n
  · obtain ⟨j, rfl⟩ := Int.le.dest hge
    have hmul : (m : ℚ) * 10 ^ ((power : ℤ) + j) = ((m * 10 ^ j * 10 ^ power : Nat) : ℚ) := by
      rw [zpow_add₀ (by norm_num), zpow_natCast, zpow_natCast]
      push_cast
      ring
    rw [hmul] at hm ⊢
    exact h.nearest_multiple hm

end

theorem shortest_zero (hx : x.significand = 0) : x.Shortest 0 := by
  have hpow : (0 : ℚ) < 2 ^ x.exponent := by positivity
  constructor
  case rounds =>
    rw [Rounds, hx, if_pos rfl, low, high, hx]
    have hbelow : (0 : ℚ) < if x.narrowBelow then 1 / 4 else 1 / 2 := by split <;> norm_num
    constructor
    · rw [Nat.cast_zero, zero_sub, neg_mul]
      exact neg_nonpos.mpr (mul_nonneg hbelow.le hpow.le)
    · rw [Nat.cast_zero, zero_add]
      exact mul_nonneg (by norm_num) hpow.le
  case fewest => exact fun _ k _ _ => ⟨0, 0, Nat.pow_pos (by decide), by simp⟩
  case nearest =>
    intro s _ _
    rw [exact, hx]
    simp

/-- What is written has the magnitude of what has been found. -/
theorem magnitude_shortest {n count power zeros : Nat} {kept : List Nat}
    (hn : (Nat.toDigits 10 x.value).length = n + 1) (hsearch : x.search n = (count, power))
    (hdigits : decimal count = kept ++ List.replicate zeros 0) (hkept : kept ≠ [])
    (hcount : count = number kept * 10 ^ zeros) :
    magnitude kept x.shortest.exponent = (count * 10 ^ power : Nat) * x.unit := by
  obtain ⟨d, ds, rfl⟩ := List.exists_cons_of_ne_nil hkept
  have hlength : (Nat.toDigits 10 count).length - 1 = ds.length + zeros := by
    rw [toDigits_eq_map, List.length_map, hdigits, List.length_append, List.length_replicate,
      List.length_cons]
    omega
  have hexponent : x.shortest.exponent - ((d :: ds).length - 1) =
      zeros + power + min x.quarter 0 := by
    rw [shortest, hn, Nat.add_sub_cancel, hsearch, List.length_cons]
    dsimp only
    omega
  rw [magnitude, hexponent, zpow_add₀ (by norm_num), zpow_add₀ (by norm_num), zpow_natCast,
    zpow_natCast, hcount, unit]
  push_cast
  ring

/-- The digits that are written are those of the shortest number. -/
theorem exists_shortest (hx : 0 < x.significand) :
    ∃ digits : List Nat, x.shortest.digits = digits.map Nat.digitChar ∧ Trimmed digits ∧
      x.Shortest (magnitude digits x.shortest.exponent) := by
  obtain ⟨first, rest, hvalue, -, hn, hn'⟩ := exists_decimal_eq_cons (value_pos hx)
  have hlength : (Nat.toDigits 10 x.value).length = rest.length + 1 := by
    rw [toDigits_eq_map, List.length_map, hvalue, List.length_cons]
  obtain ⟨count, power, hsearch⟩ : ∃ count power, x.search rest.length = (count, power) :=
    ⟨_, _, rfl⟩
  have hhit := hit_of_search hx hsearch
  obtain ⟨kept, zeros, hdigits, hchars, hcount, htrimmed⟩ :=
    exists_kept (pos_of_rounds hx hhit.rounds)
  obtain ⟨d, ds, hkept, hd⟩ := htrimmed.leading
  have hlt := hhit.kept_lt hn' hcount htrimmed.number_mod_ten
  have hmagnitude :=
    magnitude_shortest hlength hsearch hdigits (hkept ▸ List.cons_ne_nil d ds) hcount
  refine ⟨kept, ?_, htrimmed, ?_⟩
  · rw [shortest, hlength, Nat.add_sub_cancel, hsearch, ← hchars]
  constructor
  case rounds => exact hmagnitude ▸ hhit.rounds
  case fewest =>
    rintro _ k hs ⟨m, e, hm, rfl⟩
    exact ⟨number kept, _, hhit.fewest hx hn hlt hs hm, rfl⟩
  case nearest =>
    intro s hs hfew
    obtain ⟨m, e, hm, rfl⟩ := hfew kept.length ⟨number kept, _, number_lt htrimmed.lt_ten, rfl⟩
    rw [hmagnitude]
    refine hhit.nearest_of_lt hn ?_ hs hm
    have hle := (le_number hd ds).trans_lt (hkept ▸ hlt)
    have := (Nat.pow_lt_pow_iff_right (by decide)).mp hle
    have := hhit.le
    rw [hkept, List.length_cons]
    omega

end Dyadic

end Provisioning.Decimal
