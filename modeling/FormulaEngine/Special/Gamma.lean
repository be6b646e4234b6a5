import FormulaEngine.Binary64
import FormulaEngine.Special.Constants

/-!
# Gamma and digamma

Both functions are computed for arguments of at least one half and reflected there from the left. At
the poles, which are the whole numbers up to zero, they have no value.

- `gamma`: Lanczos approximation;
- `psi`: upward recurrence, then the asymptotic series.
-/

namespace FormulaEngine.Special

/-- Whether `x` is NaN or a pole of the gamma function. -/
def isGammaPole (x : Float) : Bool :=
  x.isNaN || (x ≤ 0.0 && Binary64.isWhole x)

/-- The coefficients of the partial fractions `c / (x + i)`, `i = 1, 2, …`. -/
def lanczosCoefficients : List Float :=
  [676.5203681218851, -1259.1392167224028, 771.3234287776531, -176.6150291621406,
    12.507343278686905, -0.13857109526572012, 9.984369578019572e-6, 1.5056327351493116e-7]

/-- The Lanczos sum at `x`. -/
def lanczosSum (x : Float) : Float :=
  (lanczosCoefficients.foldl (fun (sum, i) c => (sum + c / (x + i), i + 1.0))
    (0.9999999999998099, 1.0)).1

/-- The gamma function at `x ≥ 1/2`. The power `t ^ (x + 1/2)` is taken in two halves, as it leaves
the range of the numbers well before the function does. -/
def gammaRight (x : Float) : Float :=
  let x := x - 1.0
  let t := x + 7.0 + 0.5
  let half := t.pow (0.5 * (x + 0.5))
  (2.0 * pi).sqrt * half * ((-t).exp * half) * lanczosSum x

/-- The gamma function. -/
def gamma (x : Float) : Float :=
  if isGammaPole x then nan
  else if x < 0.5 then pi / ((pi * x).sin * gammaRight (1.0 - x))
  else gammaRight x

/-- Moves `x` up by ones, at most `steps` times, until it is at least ten, and subtracts the
reciprocals of the places left from `result`. -/
def psiShift : (steps : Nat) → (x result : Float) → Float × Float
  | 0, x, result => (x, result)
  | steps + 1, x, result =>
    if x < 10.0 then psiShift steps (x + 1.0) (result - 1.0 / x) else (x, result)

/-- The denominators of the asymptotic series, the last one first. -/
def psiDenominators : List Float := [132.0, -240.0, 252.0, -120.0, 12.0]

/-- The digamma function at `x ≥ 1/2`, where ten steps lead to ten or beyond. -/
def psiRight (x : Float) : Float :=
  let (x, result) := psiShift 10 x 0.0
  let inverse := 1.0 / (x * x)
  let tail := psiDenominators.foldl (fun sum d => (sum + 1.0 / d) * inverse) 0.0
  result + x.log - 0.5 / x - tail

/-- The digamma function, the logarithmic derivative of `gamma`. -/
def psi (x : Float) : Float :=
  if isGammaPole x then nan
  else if x < 0.5 then psiRight (1.0 - x) - pi * (pi * x).cos / (pi * x).sin
  else psiRight x

end FormulaEngine.Special
