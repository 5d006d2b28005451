/-!
# The fewest digits that read back

A binary floating-point value stands for every real that rounds to it, and the decimal written for
it is the shortest one among those. `Dyadic.shortest` finds it by counting digits upwards.

Everything is exact. A value `m * 2^q` has a finite decimal expansion (for a negative `q` it is
`m * 5^(-q)` units of `10^q`), and so have the two points halfway to its neighbours. With all three
counted in one unit, "has `n` digits" means "is a multiple of a power of ten" and "reads back" means
"lies between two naturals". On each grid only the two multiples next to the value need a look: if
any multiple lies in the interval, so does one of them.

The interval includes its ends when the significand is even, because a real halfway between two
values rounds to the even one. Below a power of two the neighbour is half as far away as above it
(`narrowBelow`), save where the exponent is the least one.
-/

set_option autoImplicit false

namespace Provisioning.Decimal

/-- The value `significand * 2^exponent`. -/
structure Dyadic where
  significand : Nat
  exponent : Int
  narrowBelow : Bool

/-- The digits of `digits`, the first of which counts powers of ten of `exponent`. -/
structure Digits where
  digits : List Char
  exponent : Int

namespace Dyadic

/-- The magnitude of the significand that the bits of a value do not spell out, `2^52`. -/
def hiddenBit : Nat := 0x10000000000000

/-- The magnitude in the bits of a finite 64-bit value; infinities and NaNs have none. -/
def ofBits? (bits : UInt64) : Option Dyadic :=
  let fraction := bits.toNat % hiddenBit
  let field := bits.toNat / hiddenBit % 2048
  if field = 2047 then none
  else if field = 0 then some ⟨fraction, -1074, false⟩
  else some ⟨hiddenBit + fraction, (field : Int) - 1075, fraction = 0 ∧ 1 < field⟩

/-- How many units of `10 ^ min q 0` the value `s * 2^q` is. -/
def units (s : Nat) (q : Int) : Nat := s * Nat.pow 2 q.toNat * Nat.pow 5 (-q).toNat

/-- A quarter of the last place, in which both halfway points are whole. -/
def quarter (x : Dyadic) : Int := x.exponent - 2

def least (x : Dyadic) : Nat :=
  units (4 * x.significand - if x.narrowBelow then 1 else 2) x.quarter

def value (x : Dyadic) : Nat := units (4 * x.significand) x.quarter

def greatest (x : Dyadic) : Nat := units (4 * x.significand + 2) x.quarter

/-- Whether a count of units rounds to the value. -/
def readsBack (x : Dyadic) (n : Nat) : Bool :=
  if x.significand % 2 = 0 then x.least ≤ n && n ≤ x.greatest
  else x.least < n && n < x.greatest

/-- The multiple of `step` that reads back, given as how often it takes `step`. Of two the nearer
is taken, and the even one when the value is halfway between them. -/
def onGrid? (x : Dyadic) (step : Nat) : Option Nat :=
  let below := x.value / step
  match x.readsBack (below * step), x.readsBack ((below + 1) * step) with
  | false, false => none
  | true, false => some below
  | false, true => some (below + 1)
  | true, true =>
    let excess := 2 * (x.value % step)
    if excess < step ∨ (excess = step ∧ below % 2 = 0) then some below else some (below + 1)

/-- The first of the grids `10^n`, `10^(n-1)`, …, `10^0` with a point that reads back, as the count
and the power. -/
def search (x : Dyadic) : Nat → Nat × Nat
  | 0 => (x.value, 0)
  | n + 1 =>
    match x.onGrid? (Nat.pow 10 (n + 1)) with
    | some count => (count, n + 1)
    | none => x.search n

/-- The shortest decimal that reads back, without the zeros at its end. The value is positive. -/
def shortest (x : Dyadic) : Digits :=
  let (count, power) := x.search ((Nat.toDigits 10 x.value).length - 1)
  let digits := Nat.toDigits 10 count
  let kept := (digits.reverse.dropWhile (· = '0')).reverse
  ⟨kept, min x.quarter 0 + power + (digits.length - 1 : Nat)⟩

end Dyadic

end Provisioning.Decimal
