import FormulaEngine.Powers
import FormulaEngine.Rounding

/-!
# Binary64 numbers as exact values

A finite `Float` is a whole number times a power of two. This module takes a `Float` apart into
these two, puts it together again with correct rounding, and builds on that the operations which
round an exact result once.

- `decode`: a `Float` as a NaN, an infinity or an exact value;
- `nearest`: the `Float` nearest to an exact value, a half to the even neighbour;
- `mulAdd`: `a * b + c` rounded once;
- `hypot`: the length of a vector, rounded once;
- `roundHalfEven`: the nearest whole number.
-/

namespace FormulaEngine

/-- The result of an operation that has no value. -/
def nan : Float := 0.0 / 0.0

/-- Positive infinity. -/
def infinity : Float := 1.0 / 0.0

/-- The exact value `± mantissa * 2 ^ exponent`. -/
structure Scaled where
  negative : Bool
  mantissa : Nat
  exponent : Int
deriving DecidableEq

namespace Scaled

/-- The mantissa with its sign. -/
def signed (x : Scaled) : Int :=
  if x.negative then -(x.mantissa : Int) else x.mantissa

/-- The product of two exact values. -/
def mul (x y : Scaled) : Scaled where
  negative := x.negative != y.negative
  mantissa := x.mantissa * y.mantissa
  exponent := x.exponent + y.exponent

/-- The sum of two exact values, over the smaller of their exponents. -/
def add (x y : Scaled) : Scaled :=
  let exponent := min x.exponent y.exponent
  let align (z : Scaled) : Int := z.signed * twoPow (z.exponent - exponent).toNat
  let total := align x + align y
  { negative := total < 0, mantissa := total.natAbs, exponent }

end Scaled

/-- What the bits of a `Float` stand for. -/
inductive Binary64 where
  | notANumber
  | infinite (negative : Bool)
  | finite (value : Scaled)
deriving DecidableEq

namespace Binary64

/-- The exponent of the smallest positive number, `2 ^ minExponent`. -/
def minExponent : Int := -1074

/-- Reads sign, exponent field and fraction. A nonzero exponent field adds the hidden leading
bit. -/
def decode (x : Float) : Binary64 :=
  let bits := x.toBits.toNat
  let negative := bits / twoPow 63 = 1
  let field := bits / twoPow 52 % twoPow 11
  let fraction := bits % twoPow 52
  if field = 2047 then
    if fraction = 0 then .infinite negative else .notANumber
  else if field = 0 then
    .finite ⟨negative, fraction, minExponent⟩
  else
    .finite ⟨negative, twoPow 52 + fraction, minExponent + (field - 1 : Nat)⟩

/-- The bits, without the sign, of the number nearest to `mantissa * 2 ^ exponent`. The mantissa is
brought to 53 bits, or to fewer at the smallest exponent; adding it to the shifted exponent field
carries a rounding up to the next power of two into the exponent. -/
def nearestBits (mantissa : Nat) (exponent : Int) : Nat :=
  if mantissa = 0 then 0
  else
    let shift := max ((mantissa.log2 : Int) - 52) (minExponent - exponent)
    let kept :=
      if 0 < shift then divHalfEven mantissa (twoPow shift.toNat)
      else mantissa * twoPow (-shift).toNat
    min (kept + (exponent + shift - minExponent).toNat * twoPow 52) (2047 * twoPow 52)

/-- The `Float` nearest to an exact value; a half goes to the even neighbour. -/
def nearest (x : Scaled) : Float :=
  let sign := if x.negative then twoPow 63 else 0
  .ofBits (UInt64.ofNat (sign + nearestBits x.mantissa x.exponent))

/-- `a * b + c` with a single rounding. An exact sum of zero and an operand that is not finite leave
nothing to round, so the two-step result is right there. -/
def mulAdd (a b c : Float) : Float :=
  match decode a, decode b, decode c with
  | .finite x, .finite y, .finite z =>
    let exact := (x.mul y).add z
    if exact.mantissa = 0 then a * b + c else nearest exact
  | .finite _, .finite _, _ => c
  | _, _, _ => a * b + c

/-- One step of Newton's method for the root of `n` after another, at most `steps` of them, for as
long as they go down. -/
def descend (n : Nat) : (steps guess : Nat) → Nat
  | 0, guess => guess
  | steps + 1, guess =>
    let next := (guess + n / guess) / 2
    if next < guess then descend n steps next else guess

/-- The whole part of the square root of `n`. -/
def floorSqrt (n : Nat) : Nat :=
  descend n (n.log2 + 2) (twoPow (n.log2 / 2 + 1))

/-- The square root of an exact value that is not negative, rounded once. The mantissa is widened to
at least 112 bits over an even exponent; a last bit that stands for the rest of the root decides
every rounding. -/
def sqrtExact (mantissa : Nat) (exponent : Int) : Float :=
  let widen := 112 + (exponent % 2).toNat
  let wide := mantissa * twoPow widen
  let root := floorSqrt wide
  let rest := if root * root = wide then 0 else 1
  nearest ⟨false, 2 * root + rest, (exponent - widen) / 2 - 1⟩

/-- The length of the vector `(x, y)`. -/
def hypot (x y : Float) : Float :=
  match decode x, decode y with
  | .infinite _, _ | _, .infinite _ => infinity
  | .finite a, .finite b =>
    let square := (a.mul a).add (b.mul b)
    sqrtExact square.mantissa square.exponent
  | _, _ => nan

/-- The whole number nearest to `x`; a half goes to the even neighbour, and the sign of `x` stays.
Below `2 ^ 52` adding that number leaves no bits for a fraction, so the addition rounds. -/
def roundHalfEven (x : Float) : Float :=
  let whole := 4503599627370496.0
  let size := x.abs
  if x == 0.0 then x
  else if size < whole then
    let rounded := (size + whole) - whole
    if x < 0.0 then -rounded else rounded
  else x

/-- Whether `x` has no fraction; false of the infinities and of NaN. -/
def isWhole (x : Float) : Bool :=
  x - x.floor == 0.0

end Binary64

end FormulaEngine
