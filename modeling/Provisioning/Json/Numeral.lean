import Provisioning.Json.Fault
import Provisioning.Text.Ascii

/-!
# Numbers as they are written

A number is read in two steps that do not depend on each other. `Numeral.read` checks the form and
collects the digits; `Numeral.value` says which number they mean. A value that nobody wants goes
through the first step only, so its size does not matter.

A whole number that fits a 64-bit word is exact. Any other is computed in floating point from a
64-bit significand and a power of ten: the significand takes digits as long as they fit, whole
digits that no longer fit count as zeros, and fraction digits that do not are dropped. Only then is
it scaled, by powers of ten that are themselves rounded, so the last bit may differ from that of
the nearest value.
-/

set_option autoImplicit false

namespace Provisioning

/-- The parts of a written number. A number without a point has no fraction digits. -/
structure Numeral where
  negative : Bool
  whole : List Nat
  fraction : List Nat
  /-- Whether the exponent is negative, and its digits. -/
  exponent? : Option (Bool × List Nat)

namespace Numeral

open Ascii

/-! ## The form

Each part is told what to report when the document ends inside it. -/

/-- The digits before the point, of which the first is no zero unless it is the only one. -/
def readWhole (cut : Malformed) : Reader (List Nat)
  | [] => .error (.here cut [])
  | b :: s =>
    match digit? b, digits s with
    | none, _ => .error (.here .invalidNumber s)
    | some 0, (_ :: _, _) => .error (.next .invalidNumber s)
    | some d, (ds, rest) => .ok (d :: ds, rest)

/-- The point and the digits after it, if there is a point. -/
def readFraction (cut : Malformed) (s : Bytes) : Except Fault (List Nat × Bytes) :=
  match after? point s with
  | none => .ok ([], s)
  | some s =>
    match digits s with
    | ([], []) => .error (.next cut [])
    | ([], rest) => .error (.next .invalidNumber rest)
    | (ds, rest) => .ok (ds, rest)

/-- Whether there is a minus sign, and what follows it. -/
def readMinus (s : Bytes) : Bool × Bytes :=
  match after? minus s with
  | some s => (true, s)
  | none => (false, s)

/-- The same, with a plus sign passed over. -/
def readSign (s : Bytes) : Bool × Bytes :=
  match after? plus s with
  | some s => (false, s)
  | none => readMinus s

/-- The exponent and its sign, if there is one. -/
def readExponent (cut : Malformed) : Reader (Option (Bool × List Nat))
  | [] => .ok (none, [])
  | b :: s =>
    if b = lowerE ∨ b = upperE then
      let (negative, s) := readSign s
      match digits s with
      | ([], []) => .error (.here cut [])
      | ([], rest) => .error (.here .invalidNumber (rest.drop 1))
      | (ds, rest) => .ok (some (negative, ds), rest)
    else .ok (none, b :: s)

/-- A number whose first byte is a sign or a digit. -/
def read (cut : Malformed) (s : Bytes) : Except Fault (Numeral × Bytes) := do
  let (negative, s) := readMinus s
  let (whole, s) ← readWhole cut s
  let (fraction, s) ← readFraction cut s
  let (exponent?, s) ← readExponent cut s
  return (⟨negative, whole, fraction, exponent?⟩, s)

/-! ## The value -/

/-- Appends digits to a number as long as it stays within a limit, and answers those left over. -/
def absorb (limit : Nat) : Nat → List Nat → Nat × List Nat
  | n, [] => (n, [])
  | n, d :: ds => if n * 10 + d ≤ limit then absorb limit (n * 10 + d) ds else (n, d :: ds)

/-- The greatest significand, `2^64 - 1`. -/
def maxSignificand : Nat := 0xFFFFFFFFFFFFFFFF

/-- The greatest exponent that is still read to its end, `2^31 - 1`. -/
def maxExponent : Nat := 0x7FFFFFFF

/-- The greatest power of ten that is a floating-point number. -/
def maxPower : Nat := 308

/-- The floating-point number nearest to a power of ten. -/
def powerOfTen (n : Nat) : Float := .ofScientific 1 false n

/-- Divides by `10^308` so often, or until nothing is left, and then by a lesser power of ten. -/
def shrink (x : Float) (last : Nat) : Nat → Float
  | 0 => x / powerOfTen last
  | n + 1 => if x == 0 then x else shrink (x / powerOfTen maxPower) last n

/-- A significand times a power of ten, unless it is infinite. -/
def scale? (significand : Nat) (exponent : Int) : Option Float :=
  let x := (UInt64.ofNat significand).toFloat
  match exponent with
  | .ofNat n =>
    if n ≤ maxPower then
      let y := x * powerOfTen n
      if y.isInf then none else some y
    else if significand = 0 then some x
    else none
  | .negSucc n => some (shrink x (n % maxPower + 1) (n / maxPower))

/-- Gives a magnitude its sign. -/
def signed (negative : Bool) (x : Float) : Scalar := .float (if negative then -x else x)

/-- The number that is meant. One that is too large fails with how many of its digits were not
looked at: an exponent is given up at the first digit that makes it too long. -/
def value (numeral : Numeral) : Except Nat Scalar :=
  let (significand, uncounted) := absorb maxSignificand 0 numeral.whole
  let (significand', dropped) := absorb maxSignificand significand numeral.fraction
  let shift : Int := uncounted.length - (numeral.fraction.length - dropped.length : Nat)
  let scaled (exponent : Int) : Except Nat Scalar :=
    match scale? significand' exponent with
    | some x => .ok (signed numeral.negative x)
    | none => .error 0
  match numeral.exponent? with
  | some (negative, ds) =>
    match absorb maxExponent 0 ds with
    | (n, []) => scaled (if negative then shift - n else shift + n)
    | (_, _ :: unread) =>
      if negative ∨ significand' = 0 then .ok (signed numeral.negative 0) else .error unread.length
  | none =>
    if numeral.fraction.isEmpty ∧ uncounted.isEmpty then
      match Integer.ofInt? (if numeral.negative then -significand else significand) with
      | some n =>
        if numeral.negative ∧ significand = 0 then .ok (signed true 0) else .ok (.integer n)
      | none => scaled shift
    else scaled shift

end Numeral

/-- A number, exact or in floating point. -/
def Scalar.readNumber (s : Bytes) : Except Fault (Scalar × Bytes) := do
  let (numeral, rest) ← Numeral.read .eofValue s
  match numeral.value with
  | .ok value => return (value, rest)
  | .error unread => throw (.here .numberOutOfRange (s.drop (s.length - rest.length - unread)))

end Provisioning
