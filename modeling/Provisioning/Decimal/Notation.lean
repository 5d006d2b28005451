import Provisioning.Decimal.Shortest

/-!
# How a floating-point number is laid out

`Dyadic.shortest` fixes the digits and this module where the point goes. A number whose leading
digit lies within a range of powers of ten is written plainly, and always with a digit on either
side of the point, so that it cannot be taken for an integer. Outside the range it has one digit
before the point, none after it if there is nothing to say, and an exponent with its sign.
-/

set_option autoImplicit false

namespace Provisioning.Decimal

/-- The powers of ten of the leading digit of a number that is written plainly. -/
structure Notation where
  leastPlain : Int
  greatestPlain : Int

namespace Notation

/-- Digits with the point after the one that counts `10^0`. -/
def plain (d : Digits) : List Char :=
  if d.exponent < 0 then
    ['0', '.'] ++ List.replicate (-d.exponent - 1).toNat '0' ++ d.digits
  else
    let before := d.exponent.toNat + 1
    let whole := d.digits.take before
    let fraction := d.digits.drop before
    whole ++ List.replicate (before - whole.length) '0' ++ ['.'] ++
      if fraction.isEmpty then ['0'] else fraction

/-- Digits with the point after the first, and an exponent. -/
def scientific (d : Digits) : List Char :=
  let fraction := d.digits.drop 1
  d.digits.take 1 ++ (if fraction.isEmpty then [] else '.' :: fraction) ++
    ['e', if d.exponent < 0 then '-' else '+'] ++ Nat.toDigits 10 d.exponent.natAbs

def layout (style : Notation) (d : Digits) : List Char :=
  if style.leastPlain ≤ d.exponent ∧ d.exponent ≤ style.greatestPlain then plain d
  else scientific d

/-- The text of a floating-point number, which an infinity or a NaN does not have. Zero keeps its
sign. -/
def write? (style : Notation) (x : Float) : Option (List Char) :=
  (Dyadic.ofBits? x.toBits).map fun magnitude =>
    let sign := if x.toBits.toNat < 0x8000000000000000 then [] else ['-']
    sign ++ if magnitude.significand = 0 then ['0', '.', '0'] else style.layout magnitude.shortest

end Notation

end Provisioning.Decimal
