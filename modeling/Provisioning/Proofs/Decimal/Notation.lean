import Provisioning.Decimal.Notation
import Provisioning.Proofs.Decimal.Numeral
import Provisioning.Proofs.Decimal.Shortest

/-!
# How a floating-point number is spelled

The text of a floating-point number is that of a numeral. Which one is said without regard to how it
is laid out: it has the magnitude of a shortest number (`Dyadic.Shortest`), its form is decided by
that magnitude alone, and no digit of it could be left off (`Notation.Spells`).
-/

set_option autoImplicit false

namespace Provisioning

namespace Decimal

/-- The sign of a floating-point number, which is its highest bit, is a minus. -/
def HasMinus (x : Float) : Prop := 0x8000000000000000 ≤ x.toBits.toNat

instance (x : Float) : Decidable (HasMinus x) :=
  inferInstanceAs (Decidable (0x8000000000000000 ≤ x.toBits.toNat))

open Numeral

namespace Notation

variable {style : Notation} {negative : Bool} {ds : List Nat} {e : Int}

/-- The numeral is plain if its magnitude is in the range, and has a digit on either side of the
point then. Otherwise it has one digit before the point and an exponent. No zero stands in front of
other digits, and none behind the point is the last, unless it is the only one there and the numeral
is plain. -/
structure Spells (style : Notation) (numeral : Numeral) : Prop where
  regular : numeral.Regular
  plain_iff : numeral.exponent? = none ↔ numeral.magnitude = 0 ∨
    10 ^ style.leastPlain ≤ numeral.magnitude ∧ numeral.magnitude < 10 ^ (style.greatestPlain + 1)
  point : numeral.exponent? = none → numeral.fraction ≠ []
  single : numeral.exponent? ≠ none → numeral.whole.length = 1
  trailing : (∀ d ∈ numeral.fraction.getLast?, d ≠ 0) ∨
    numeral.exponent? = none ∧ numeral.fraction = [0]
  exponent : ∀ negative digits, numeral.exponent? = some (negative, digits) →
    ∃ n, digits = decimal n

/-! ## The two forms -/

/-- The numeral of digits of which the first counts a power of ten, in the plain form. The point
stands before all of them, behind all of them or in between. -/
def plainNumeral (negative : Bool) (ds : List Nat) (e : Int) : Numeral :=
  if e < 0 then ⟨negative, [0], List.replicate (-e - 1).toNat 0 ++ ds, none⟩
  else if ds.length ≤ e.toNat + 1 then
    ⟨negative, ds ++ List.replicate (e.toNat + 1 - ds.length) 0, [0], none⟩
  else ⟨negative, ds.take (e.toNat + 1), ds.drop (e.toNat + 1), none⟩

/-- The same with an exponent. -/
def scientificNumeral (negative : Bool) (ds : List Nat) (e : Int) : Numeral :=
  ⟨negative, ds.take 1, ds.drop 1, some (decide (e < 0), decimal e.natAbs)⟩

theorem chars_plainNumeral (h : Trimmed ds) :
    (plainNumeral negative ds e).chars =
      signChars negative ++ plain ⟨ds.map Nat.digitChar, e⟩ := by
  obtain ⟨d, rest, hds, -⟩ := h.leading
  have hzero : Nat.digitChar 0 = '0' := rfl
  unfold plainNumeral plain
  by_cases he : e < 0
  · simp [chars, fractionChars, exponentChars, he, hds, hzero]
  by_cases hlength : ds.length ≤ e.toNat + 1
  · simp [chars, fractionChars, exponentChars, he, hlength, hzero, List.take_of_length_le]
  · simp [chars, fractionChars, exponentChars, he, hlength, ← List.map_drop, ← List.map_take]
    omega

theorem chars_scientificNumeral (h : Trimmed ds) :
    (scientificNumeral negative ds e).chars =
      signChars negative ++ scientific ⟨ds.map Nat.digitChar, e⟩ := by
  obtain ⟨d, rest, rfl, -⟩ := h.leading
  cases rest <;>
    simp [scientificNumeral, chars, fractionChars, exponentChars, scientific, toDigits_eq_map]

theorem magnitude_plainNumeral :
    (plainNumeral negative ds e).magnitude = Decimal.magnitude ds e := by
  unfold plainNumeral
  rw [Decimal.magnitude]
  by_cases he : e < 0
  · rw [if_pos he, magnitude_plain, List.singleton_append, number_cons, Nat.zero_mul, Nat.zero_add,
      number_zeros_append, List.length_append, List.length_replicate]
    congr 2
    omega
  rw [if_neg he]
  by_cases hlength : ds.length ≤ e.toNat + 1
  · rw [if_pos hlength, magnitude_plain, show [0] = List.replicate 1 0 from rfl,
      number_append_zeros, number_append_zeros, List.length_replicate]
    have hpoint : (10 : ℚ) * 10 ^ (-1 : ℤ) = 1 := by norm_num
    push_cast
    rw [mul_assoc, mul_assoc, hpoint, mul_one, ← zpow_natCast]
    congr 2
    omega
  · rw [if_neg hlength, magnitude_plain, List.take_append_drop, List.length_drop]
    congr 2
    omega

theorem magnitude_scientificNumeral (h : Trimmed ds) :
    (scientificNumeral negative ds e).magnitude = Decimal.magnitude ds e := by
  obtain ⟨d, rest, rfl, -⟩ := h.leading
  have hpower : (scientificNumeral negative (d :: rest) e).power = e := by
    simp only [scientificNumeral, Numeral.power, number_decimal, decide_eq_true_eq]
    split <;> omega
  rw [Numeral.magnitude, hpower]
  simp [scientificNumeral, Decimal.magnitude]

/-- The first digit tells the size. -/
theorem magnitude_bounds (h : Trimmed ds) :
    10 ^ e ≤ Decimal.magnitude ds e ∧ Decimal.magnitude ds e < 10 ^ (e + 1) := by
  have hlt := number_lt h.lt_ten
  obtain ⟨d, rest, rfl, hd⟩ := h.leading
  have hle := le_number hd rest
  have hpow : (0 : ℚ) < 10 ^ (e - rest.length) := by positivity
  have hscale (n : ℕ) : (10 : ℚ) ^ n * 10 ^ (e - rest.length) = 10 ^ (n + (e - rest.length)) := by
    rw [zpow_add₀ (by norm_num), zpow_natCast]
  rw [Decimal.magnitude, List.length_cons, Nat.cast_add_one, Int.add_sub_cancel]
  constructor
  · calc (10 : ℚ) ^ e = 10 ^ rest.length * 10 ^ (e - rest.length) := by
          rw [hscale]
          congr 1
          omega
      _ ≤ number (d :: rest) * 10 ^ (e - rest.length) :=
        mul_le_mul_of_nonneg_right (by exact_mod_cast hle) hpow.le
  · calc number (d :: rest) * 10 ^ (e - rest.length)
        < (10 : ℚ) ^ (rest.length + 1) * 10 ^ (e - rest.length) :=
        mul_lt_mul_of_pos_right (by exact_mod_cast hlt) hpow
      _ = 10 ^ (e + 1) := by
          rw [hscale]
          congr 1
          omega

/-! ## The form is right -/

/-- The exponent of the first digit is in the range if the magnitude is. -/
theorem plain_iff_magnitude (h : Trimmed ds) :
    style.leastPlain ≤ e ∧ e ≤ style.greatestPlain ↔
      Decimal.magnitude ds e = 0 ∨ 10 ^ style.leastPlain ≤ Decimal.magnitude ds e ∧
        Decimal.magnitude ds e < 10 ^ (style.greatestPlain + 1) := by
  obtain ⟨hle, hlt⟩ := magnitude_bounds (e := e) h
  have hpos : (0 : ℚ) < 10 ^ e := by positivity
  have hten : (1 : ℚ) < 10 := by norm_num
  rw [or_iff_right (hpos.trans_le hle).ne']
  constructor
  · rintro ⟨hleast, hgreatest⟩
    exact ⟨(zpow_le_zpow_right₀ hten.le hleast).trans hle,
      hlt.trans_le (zpow_le_zpow_right₀ hten.le (by omega))⟩
  · rintro ⟨hleast, hgreatest⟩
    have hleast := (zpow_lt_zpow_iff_right₀ hten).mp (hleast.trans_lt hlt)
    have hgreatest := (zpow_lt_zpow_iff_right₀ hten).mp (hle.trans_lt hgreatest)
    omega

/-- Wherever the point stands, there are digits on either side, and none of them could be left
off. -/
theorem exists_plainNumeral (negative : Bool) (e : Int) (h : Trimmed ds) :
    ∃ whole fraction, plainNumeral negative ds e = ⟨negative, whole, fraction, none⟩ ∧
      (Numeral.mk negative whole fraction none).Regular ∧ fraction ≠ [] ∧
      ((∀ d ∈ fraction.getLast?, d ≠ 0) ∨ fraction = [0]) := by
  have hzeros (n : Nat) : ∀ d ∈ List.replicate n 0, d < 10 := fun d hd =>
    (List.eq_of_mem_replicate hd).trans_lt (by decide)
  obtain ⟨hlt, ⟨d, rest, hds, hd⟩, hlast⟩ := h
  have hnil : ds ≠ [] := hds ▸ List.cons_ne_nil d rest
  unfold plainNumeral
  split
  · refine ⟨_, _, rfl, ⟨by simp, ⟨0, [], rfl, fun _ => rfl⟩, ?_, nofun⟩, by simp [hnil], .inl ?_⟩
    · exact List.forall_mem_append.mpr ⟨hzeros _, hlt⟩
    · rwa [List.getLast?_append_of_ne_nil _ hnil]
  split
  · refine ⟨_, _, rfl, ⟨?_, ⟨d, _, by rw [hds]; rfl, fun h => absurd h hd⟩, by simp, nofun⟩,
      List.cons_ne_nil 0 [], .inr rfl⟩
    exact List.forall_mem_append.mpr ⟨hlt, hzeros _⟩
  · next hlength =>
    refine ⟨_, _, rfl, ⟨?_, ⟨d, _, by rw [hds]; rfl, fun h => absurd h hd⟩, ?_, nofun⟩,
      List.drop_eq_nil_iff.not.mpr hlength, .inl ?_⟩
    · exact fun d hd => hlt d (List.mem_of_mem_take hd)
    · exact fun d hd => hlt d (List.mem_of_mem_drop hd)
    · rwa [List.getLast?_drop, if_neg hlength]

theorem spells_plainNumeral (h : Trimmed ds)
    (he : style.leastPlain ≤ e ∧ e ≤ style.greatestPlain) :
    style.Spells (plainNumeral negative ds e) := by
  have hmagnitude : (plainNumeral negative ds e).magnitude = _ := magnitude_plainNumeral
  obtain ⟨whole, fraction, hnumeral, hregular, hpoint, hlast⟩ := exists_plainNumeral negative e h
  rw [hnumeral] at hmagnitude ⊢
  constructor
  case regular => exact hregular
  case plain_iff =>
    rw [hmagnitude, ← plain_iff_magnitude h]
    exact iff_of_true rfl he
  case point => exact fun _ => hpoint
  case single => exact fun hsome => absurd rfl hsome
  case trailing => exact hlast.imp_right fun h => ⟨rfl, h⟩
  case exponent => nofun

theorem spells_scientificNumeral (h : Trimmed ds)
    (he : ¬(style.leastPlain ≤ e ∧ e ≤ style.greatestPlain)) :
    style.Spells (scientificNumeral negative ds e) := by
  have hmagnitude : (scientificNumeral negative ds e).magnitude = _ :=
    magnitude_scientificNumeral h
  have hsome : (scientificNumeral negative ds e).exponent? ≠ none := nofun
  have hplain : style.leastPlain ≤ e ∧ e ≤ style.greatestPlain ↔ _ := plain_iff_magnitude h
  obtain ⟨hlt, ⟨d, rest, rfl, hd⟩, hlast⟩ := h
  obtain ⟨hd', hrest⟩ := List.forall_mem_cons.mp hlt
  constructor
  case regular =>
    refine ⟨List.forall_mem_singleton.mpr hd', ⟨d, [], rfl, fun _ => rfl⟩, hrest, ?_⟩
    rintro _ _ ⟨⟩
    obtain ⟨d, ds, hdecimal, -⟩ := decimal_eq_cons e.natAbs
    exact ⟨hdecimal ▸ List.cons_ne_nil d ds, decimal_lt _⟩
  case plain_iff =>
    rw [hmagnitude, ← hplain]
    exact iff_of_false hsome he
  case point => exact fun hnone => absurd hnone hsome
  case single => exact fun _ => rfl
  case trailing =>
    exact .inl fun d' hd' => hlast d' (List.mem_getLast?_cons hd')
  case exponent =>
    rintro _ _ ⟨⟩
    exact ⟨_, rfl⟩

/-! ## The text -/

/-- The text spells the value in its shortest form. -/
def Writes (style : Notation) (value : Dyadic) (negative : Bool) (text : List Char) : Prop :=
  ∃ numeral : Numeral, text = numeral.chars ∧ numeral.negative = negative ∧
    style.Spells numeral ∧ value.Shortest numeral.magnitude

theorem writes_zero {value : Dyadic} (h : value.significand = 0) :
    style.Writes value negative (signChars negative ++ ['0', '.', '0']) := by
  have hmagnitude : (Numeral.mk negative [0] [0] none).magnitude = 0 := by
    rw [magnitude_plain]
    simp [number, continued]
  refine ⟨⟨negative, [0], [0], none⟩, by cases negative <;> rfl, rfl, ?_, ?_⟩
  · constructor
    case regular => exact regular_zero
    case plain_iff => exact iff_of_true rfl (.inl hmagnitude)
    case point => exact fun _ => List.cons_ne_nil 0 []
    case single => exact fun h => absurd rfl h
    case trailing => exact .inr ⟨rfl, rfl⟩
    case exponent =>
      intro _ _ h
      cases h
  · exact hmagnitude ▸ Dyadic.shortest_zero h

theorem writes_layout {value : Dyadic} (h : 0 < value.significand) :
    style.Writes value negative (signChars negative ++ style.layout value.shortest) := by
  obtain ⟨ds, hds, htrimmed, hshortest⟩ := Dyadic.exists_shortest h
  have hdigits : value.shortest = ⟨ds.map Nat.digitChar, value.shortest.exponent⟩ := by rw [← hds]
  rw [hdigits, layout]
  split
  · next he =>
    refine ⟨_, (chars_plainNumeral htrimmed).symm, ?_, spells_plainNumeral htrimmed he, ?_⟩
    · obtain ⟨_, _, hnumeral, -⟩ :=
        exists_plainNumeral negative value.shortest.exponent htrimmed
      rw [hnumeral]
    · rwa [magnitude_plainNumeral]
  · next he =>
    refine ⟨_, (chars_scientificNumeral htrimmed).symm, rfl,
      spells_scientificNumeral htrimmed he, ?_⟩
    rwa [magnitude_scientificNumeral htrimmed]

/-- A finite number is written, and with its sign. -/
theorem exists_write?_eq_some (style : Notation) {x : Float} {value : Dyadic}
    (h : Dyadic.ofBits? x.toBits = some value) :
    ∃ text, style.write? x = some text ∧ style.Writes value (decide (HasMinus x)) text := by
  have hsign : (if x.toBits.toNat < 0x8000000000000000 then [] else ['-']) =
      signChars (decide (HasMinus x)) := by
    grind [signChars, HasMinus]
  refine ⟨_, by rw [write?, h, Option.map_some], ?_⟩
  dsimp only
  rw [hsign]
  split
  · next hzero => exact writes_zero hzero
  · next hzero => exact writes_layout (Nat.pos_of_ne_zero hzero)

theorem write?_eq_none {x : Float} (h : Dyadic.ofBits? x.toBits = none) :
    style.write? x = none := by
  rw [write?, h, Option.map_none]

end Notation

end Decimal

end Provisioning
