import FormulaEngine.Binary64
import FormulaEngine.Special.Constants

/-!
# Error function and normal distribution

- `erfSeries`: the Maclaurin series, for `|x| < 2`;
- `erfcTail`: the continued fraction of the complementary function, for `x ≥ 2`;
- `erf`, `erfc`, `norm`: the functions on all arguments.
-/

namespace FormulaEngine.Special

/-- Adds up to `steps` terms from the `n`-th one on and stops after a term that no longer counts.
`factorial` is `n!` and `power` is `x ^ (2 n + 1)`. -/
def addErfTerms (x : Float) : (steps n : Nat) → (sum factorial power : Float) → Float
  | 0, _, sum, _, _ => sum
  | steps + 1, n, sum, factorial, power =>
    let term := power / (factorial * Float.ofNat (2 * n + 1))
    let sum := if n % 2 = 0 then sum + term else sum - term
    if term.abs < epsilon * sum.abs then sum
    else addErfTerms x steps (n + 1) sum (factorial * Float.ofNat (n + 1)) (power * (x * x))

/-- The error function by its series. -/
def erfSeries (x : Float) : Float :=
  2.0 / pi.sqrt * addErfTerms x 60 0 0.0 1.0 x

/-- `x`, or `tiny` for an `x` that is nearly zero. -/
def awayFromZero (x : Float) : Float := if x.abs < tiny then tiny else x

/-- Up to `steps` steps of Lentz's method for `x + (1/2) / (x + 1 / (x + (3/2) / (x + …)))`, from
the `n`-th numerator on. -/
def erfcFraction (x : Float) : (steps n : Nat) → (f c d : Float) → Float
  | 0, _, f, _, _ => f
  | steps + 1, n, f, c, d =>
    let a := Float.ofNat n * 0.5
    let d := awayFromZero (x + a * d)
    let c := awayFromZero (x + a / c)
    let d := 1.0 / d
    let delta := c * d
    let f := f * delta
    if (delta - 1.0).abs < 1e-16 then f else erfcFraction x steps (n + 1) f c d

/-- The complementary error function at `x ≥ 2`. -/
def erfcTail (x : Float) : Float :=
  (-x * x).exp / (pi.sqrt * erfcFraction x 199 1 x x 0.0)

/-- The error function. -/
def erf (x : Float) : Float :=
  if x.isNaN then nan
  else if x.abs < 2.0 then erfSeries x
  else sign x * (1.0 - erfcTail x.abs)

/-- The complementary error function. -/
def erfc (x : Float) : Float :=
  if x.isNaN then nan
  else if x.abs < 2.0 then 1.0 - erfSeries x
  else if x > 0.0 then erfcTail x
  else 2.0 - erfcTail (-x)

/-- The distribution function of the standard normal distribution. -/
def norm (x : Float) : Float := 0.5 * erfc (-x / sqrtTwo)

end FormulaEngine.Special
