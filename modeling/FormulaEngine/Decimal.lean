import FormulaEngine.Binary64

/-!
# Decimals of binary64 numbers

A number `m * 2 ^ q` is compared with the points of a decimal grid in exact whole-number arithmetic.

- `Decimal.shortest`: the fewest digits that read back as the number, nearest to it among these;
- `Decimal.significant`: the number rounded to a given count of significant digits;
- `Decimal.toFloat`: the number nearest to a decimal.
-/

namespace FormulaEngine

/-- The value `coefficient * 10 ^ exponent`. -/
structure Decimal where
  coefficient : Nat
  exponent : Int
deriving DecidableEq

namespace Decimal

/-- The digits of the coefficient. -/
def digits (d : Decimal) : String := toString d.coefficient

/-- The power of ten of the first digit. -/
def leading (d : Decimal) : Int := d.exponent + (d.digits.length - 1 : Nat)

/-- Factors `(a, b)` such that `2 ^ binary / 10 ^ decimal = b / a`. -/
def gridFactors (binary decimal : Int) : Nat × Nat :=
  (tenPow decimal.toNat * twoPow (-binary).toNat, twoPow binary.toNat * tenPow (-decimal).toNat)

/-- The power of ten of the first digit of `mantissa * 2 ^ exponent`. Below one, the count of digits
before the first one that is not zero is that of the reciprocal. -/
def leadingPower (mantissa : Nat) (exponent : Int) : Int :=
  let num := mantissa * twoPow exponent.toNat
  let den := twoPow (-exponent).toNat
  let size (n : Nat) : Nat := (toString n).length
  if den ≤ num then (size (num / den) - 1 : Nat)
  else -(size ((den - 1) / num) : Int)

/-- The point of the grid of multiples of `10 ^ exponent` that reads back as the number
`mantissa * 2 ^ binary` and is nearest to it; of two equally near points the upper one.

The numbers that read back lie between the middles towards the two neighbours of the number. These
middles belong to it when its mantissa is even. Distances are counted in quarters of the last binary
place, as the lower neighbour of a power of two is only half as far away as the upper one. -/
def onGrid? (mantissa : Nat) (binary exponent : Int) : Option Nat :=
  let below := if mantissa = twoPow 52 ∧ Binary64.minExponent < binary then 1 else 2
  let (a, b) := gridFactors (binary - 2) exponent
  let scaled := 4 * mantissa * b
  let point := scaled / a
  let down := scaled % a
  let up := a - down
  let within (distance gap : Nat) : Bool :=
    if mantissa % 2 = 0 then distance ≤ gap else distance < gap
  match within down (below * b), within up (2 * b) with
  | true, true => some (if down < up then point else point + 1)
  | true, false => some point
  | false, true => some (point + 1)
  | false, false => none

/-- Tries grids of `17 - more`, …, 17 digits whose first digit stands at `10 ^ leading`. Seventeen
digits always suffice. -/
def shortestFrom (mantissa : Nat) (binary leading : Int) : (more : Nat) → Decimal
  | 0 =>
    let exponent := leading - 16
    ⟨(onGrid? mantissa binary exponent).getD 0, exponent⟩
  | more + 1 =>
    let exponent := leading - (15 - more : Nat)
    match onGrid? mantissa binary exponent with
    | some 10 => ⟨1, exponent + 1⟩
    | some point => ⟨point, exponent⟩
    | none => shortestFrom mantissa binary leading more

/-- The decimal with the fewest digits that reads back as the number `mantissa * 2 ^ binary`,
nearest to it among these. Rounding up to a power of ten is found on the grid of one digit, as
ten. -/
def shortest (mantissa : Nat) (binary : Int) : Decimal :=
  if mantissa = 0 then ⟨0, 0⟩
  else shortestFrom mantissa binary (leadingPower mantissa binary) 16

/-- The number `mantissa * 2 ^ binary` rounded to `count` significant digits, a half to the even
digit. -/
def significant (count : Nat) (mantissa : Nat) (binary : Int) : Decimal :=
  if mantissa = 0 then ⟨0, 0⟩
  else
    let exponent := leadingPower mantissa binary - (count - 1 : Nat)
    let (a, b) := gridFactors binary exponent
    let point := divHalfEven (mantissa * b) a
    if point = tenPow count then ⟨tenPow (count - 1), exponent + 1⟩ else ⟨point, exponent⟩

/-- The number nearest to a decimal, with a sign. From `1e309` on that is infinity, and below
`1e-325` zero. Between these the quotient is taken to at least 64 bits, and a last bit that stands
for its rest decides every rounding. -/
def toFloat (d : Decimal) (negative : Bool) : Float :=
  if d.coefficient = 0 ∨ d.leading < -325 then Binary64.nearest ⟨negative, 0, 0⟩
  else if 309 ≤ d.leading then if negative then -infinity else infinity
  else
    let den := tenPow (-d.exponent).toNat
    let widen := den.log2 + 64
    let wide := d.coefficient * tenPow d.exponent.toNat * twoPow widen
    let rest := if wide % den = 0 then 0 else 1
    Binary64.nearest ⟨negative, 2 * (wide / den) + rest, -(widen + 1 : Nat)⟩

end Decimal

end FormulaEngine
