import Mathlib.Algebra.Order.Field.Rat
import Mathlib.Tactic.Ring
import Provisioning.Proofs.Decimal.Digits

/-!
# Numerals as texts

A numeral has a text (`Numeral.chars`), which is read back as the numeral and no other
(`Numeral.read_chars`), and a magnitude, the number that its digits and its exponent spell
(`Numeral.magnitude`). The first has nothing to do with the second: a numeral of any size is read.
-/

set_option autoImplicit false

namespace Provisioning

open Ascii Utf8

namespace Numeral

def signChars (negative : Bool) : List Char := if negative then ['-'] else []

def fractionChars (fraction : List Nat) : List Char :=
  if fraction = [] then [] else '.' :: fraction.map Nat.digitChar

def exponentChars : Option (Bool × List Nat) → List Char
  | none => []
  | some (negative, ds) => 'e' :: (if negative then '-' else '+') :: ds.map Nat.digitChar

/-- The numeral as it is written, with a sign before the exponent. -/
def chars (numeral : Numeral) : List Char :=
  signChars numeral.negative ++ numeral.whole.map Nat.digitChar ++
    fractionChars numeral.fraction ++ exponentChars numeral.exponent?

/-- The power of ten that the exponent says. -/
def power (numeral : Numeral) : Int :=
  match numeral.exponent? with
  | none => 0
  | some (negative, ds) => if negative then -number ds else number ds

/-- The number that is spelled, apart from its sign. -/
def magnitude (numeral : Numeral) : ℚ :=
  number (numeral.whole ++ numeral.fraction) * 10 ^ (numeral.power - numeral.fraction.length)

/-- The parts are lists of digits. Neither the whole part nor the exponent is empty, and no zero
stands in front of other whole digits. -/
structure Regular (numeral : Numeral) : Prop where
  whole_lt : ∀ d ∈ numeral.whole, d < 10
  whole_leading : ∃ d ds, numeral.whole = d :: ds ∧ (d = 0 → ds = [])
  fraction_lt : ∀ d ∈ numeral.fraction, d < 10
  exponent : ∀ negative ds, numeral.exponent? = some (negative, ds) →
    ds ≠ [] ∧ ∀ d ∈ ds, d < 10

theorem regular_zero {negative : Bool} : (mk negative [0] [0] none).Regular :=
  ⟨by simp, ⟨0, [], rfl, fun _ => rfl⟩, by simp, nofun⟩

theorem magnitude_plain (negative : Bool) (whole fraction : List Nat) :
    (mk negative whole fraction none).magnitude =
      number (whole ++ fraction) * 10 ^ (-fraction.length : ℤ) := by
  rw [magnitude, power, zero_sub]

/-! ## Numerals are read back -/

variable {cut : Malformed} {rest : Bytes}

/-- Neither a digit nor a point follows. -/
def EndsPlain (rest : Bytes) : Prop := ∀ b ∈ rest.head?, digit? b = none ∧ b ≠ point

theorem readMinus_signChars {negative : Bool} {s : Bytes} (h : ∀ b ∈ s.head?, b ≠ minus) :
    readMinus (encodeAll (signChars negative) ++ s) = (negative, s) := by
  cases negative with
  | true => rfl
  | false =>
    cases s with
    | nil => rfl
    | cons b s =>
      show readMinus (b :: s) = _
      rw [readMinus, after?, if_neg (h b rfl)]

theorem readSign_cons (negative : Bool) (s : Bytes) :
    readSign (encodeAll [if negative then '-' else '+'] ++ s) = (negative, s) := by
  cases negative <;> rfl

theorem readExponent_exponentChars {exponent? : Option (Bool × List Nat)}
    (h : ∀ negative ds, exponent? = some (negative, ds) → ds ≠ [] ∧ ∀ d ∈ ds, d < 10)
    (hrest : Ends rest) :
    readExponent cut (encodeAll (exponentChars exponent?) ++ rest) = .ok (exponent?, rest) := by
  cases exponent? with
  | none => exact readExponent_of_ends cut hrest
  | some e =>
    obtain ⟨negative, ds⟩ := e
    obtain ⟨hne, hlt⟩ := h negative ds rfl
    obtain ⟨d, ds, rfl⟩ := List.exists_cons_of_ne_nil hne
    have hbytes : encodeAll (exponentChars (some (negative, d :: ds))) ++ rest =
        lowerE :: (encodeAll [if negative then '-' else '+'] ++
          ((d :: ds).map digitByte ++ rest)) := by
      rw [← encodeAll_map_digitChar hlt, ← List.append_assoc, ← encodeAll_append]
      rfl
    rw [hbytes, readExponent, if_pos (.inl rfl), readSign_cons]
    simp only [digits_map_digitByte hlt fun b hb => (hrest b hb).1]

theorem endsPlain_exponentChars (exponent? : Option (Bool × List Nat)) (hrest : Ends rest) :
    EndsPlain (encodeAll (exponentChars exponent?) ++ rest) := by
  cases exponent? with
  | none => exact fun b hb => ⟨(hrest b hb).1, (hrest b hb).2.1⟩
  | some _ =>
    rintro b ⟨⟩
    decide

theorem readFraction_fractionChars {fraction : List Nat} (h : ∀ d ∈ fraction, d < 10)
    (hrest : EndsPlain rest) :
    readFraction cut (encodeAll (fractionChars fraction) ++ rest) = .ok (fraction, rest) := by
  cases fraction with
  | nil =>
    cases rest with
    | nil => rfl
    | cons b rest =>
      show readFraction cut (b :: rest) = _
      rw [readFraction, after?, if_neg (hrest b rfl).2]
  | cons d ds =>
    have hbytes : encodeAll (fractionChars (d :: ds)) ++ rest =
        point :: ((d :: ds).map digitByte ++ rest) := by
      rw [← encodeAll_map_digitChar h]
      rfl
    rw [hbytes, readFraction, after?, if_pos rfl]
    simp only [digits_map_digitByte h fun b hb => (hrest b hb).1]

theorem noDigit_fractionChars (fraction : List Nat) (hrest : EndsPlain rest) :
    ∀ b ∈ (encodeAll (fractionChars fraction) ++ rest).head?, digit? b = none := by
  cases fraction with
  | nil => exact fun b hb => (hrest b hb).1
  | cons _ _ =>
    rintro b ⟨⟩
    decide

/-- A numeral is read back digit by digit. -/
theorem read_chars {numeral : Numeral} (h : numeral.Regular) (hrest : Ends rest) :
    read cut (encodeAll numeral.chars ++ rest) = .ok (numeral, rest) := by
  obtain ⟨negative, whole, fraction, exponent?⟩ := numeral
  obtain ⟨hwhole, ⟨d, ds, hds, hzero⟩, hfraction, hexponent⟩ := h
  subst hds
  have hends := endsPlain_exponentChars exponent? hrest
  have hminus : ∀ b ∈ ((d :: ds).map digitByte ++ (encodeAll (fractionChars fraction) ++
      (encodeAll (exponentChars exponent?) ++ rest))).head?, b ≠ minus := by
    rintro b ⟨⟩
    exact digitByte_ne_minus d (hwhole d List.mem_cons_self)
  rw [chars, encodeAll_append, encodeAll_append, encodeAll_append, List.append_assoc,
    List.append_assoc, List.append_assoc, encodeAll_map_digitChar hwhole, read,
    readMinus_signChars hminus]
  simp only [readWhole_digits cut hwhole hzero (noDigit_fractionChars fraction hends),
    Except.ok_bind, readFraction_fractionChars hfraction hends,
    readExponent_exponentChars hexponent hrest]
  rfl

/-- A numeral begins with its minus sign or with a digit. -/
theorem exists_chars_cons {numeral : Numeral} (h : numeral.Regular) (rest : Bytes) :
    ∃ b s, (b = minus ∨ (digit? b).isSome) ∧ encodeAll numeral.chars ++ rest = b :: s := by
  obtain ⟨negative, whole, fraction, exponent?⟩ := numeral
  obtain ⟨hwhole, ⟨d, ds, hds, -⟩, -⟩ := h
  subst hds
  have hd := hwhole d List.mem_cons_self
  rw [chars, encodeAll_append, encodeAll_append, encodeAll_append, encodeAll_map_digitChar hwhole]
  cases negative with
  | true => exact ⟨minus, _, .inl rfl, rfl⟩
  | false => exact ⟨digitByte d, _, .inr (by rw [digit?_digitByte d hd]; rfl), rfl⟩

end Numeral

end Provisioning
