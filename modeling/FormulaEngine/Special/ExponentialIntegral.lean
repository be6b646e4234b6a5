import FormulaEngine.Binary64
import FormulaEngine.Special.Constants
import FormulaEngine.Special.ExpMinusOne
import FormulaEngine.Special.Quadrature

/-!
# Dawson's integral and the exponential integrals

- `dawson`: `exp (-x²)` times the integral of `exp (t²)` from zero to `x`;
- `exponentialIntegral`: `Ei x`, with the value `-∞` at zero;
- `hyperbolicSineIntegral`, `hyperbolicCosineIntegral`: `Shi x` and `Chi x`.

Near zero each is the integral of a bounded function by Simpson's rule, far out an asymptotic
series.
-/

namespace FormulaEngine.Special

/-- `Σ k! / x ^ k` for `k < terms`; `term` is the one before the `k`-th. -/
def addFactorialTerms (x : Float) : (steps k : Nat) → (term sum : Float) → Float
  | 0, _, _, sum => sum
  | steps + 1, k, term, sum =>
    let term := term * (Float.ofNat k / x)
    addFactorialTerms x steps (k + 1) term (sum + term)

/-- The first `terms` terms of `Σ k! / x ^ k`. -/
def factorialSeries (x : Float) (terms : Nat) : Float :=
  addFactorialTerms x (terms - 1) 1 1.0 1.0

/-- Dawson's integral. -/
def dawson (x : Float) : Float :=
  if x.isNaN then nan
  else if x.abs > 10.0 then
    let inverse := 1.0 / (x * x)
    1.0 / (2.0 * x)
      * (1.0 + inverse * (0.5 + inverse * (0.75 + inverse * (1.875 + inverse * 6.5625))))
  else
    integrateTo x (oscillatingPanels x) fun t => (t * t - x * x).exp

/-- Up to `steps` steps of Lentz's method for the continued fraction of `E₁ z`, from the `i`-th
numerator `-i²` on. -/
def e1Fraction : (steps i : Nat) → (b c d h : Float) → Float
  | 0, _, _, _, _, h => h
  | steps + 1, i, b, c, d, h =>
    let a := -Float.ofNat (i * i)
    let b := b + 2.0
    let d := 1.0 / (a * d + b)
    let c := b + a / c
    let delta := c * d
    let h := h * delta
    if (delta - 1.0).abs < 1e-16 then h else e1Fraction steps (i + 1) b c d h

/-- `E₁ z` at `z > 1`. -/
def e1Tail (z : Float) : Float :=
  let b := z + 1.0
  let d := 1.0 / b
  e1Fraction 999 1 b (1.0 / tiny) d d * (-z).exp

/-- The exponential integral `Ei x`. -/
def exponentialIntegral (x : Float) : Float :=
  if x.isNaN then nan
  else if x == 0.0 then -infinity
  else if x < -1.0 then -e1Tail (-x)
  else if x > 50.0 then x.exp / x * factorialSeries x 7
  else
    eulerGamma + x.abs.log
      + integrateTo x (smoothPanels x) fun t => if t == 0.0 then 1.0 else expMinusOne t / t

/-- The common asymptotic form of `Shi x` and `Chi x` at `x > 50`. -/
def hyperbolicTail (x : Float) : Float :=
  x.exp * 0.5 / x * factorialSeries x 6

/-- The hyperbolic sine integral, the integral of `sinh t / t`. -/
def hyperbolicSineIntegral (x : Float) : Float :=
  if x.isNaN then nan
  else if x.abs > 50.0 then sign x * hyperbolicTail x.abs
  else integrateTo x (smoothPanels x) fun t => if t == 0.0 then 1.0 else t.sinh / t

/-- The hyperbolic cosine integral `γ + ln x + ∫ (cosh t - 1) / t`, real for positive `x`. -/
def hyperbolicCosineIntegral (x : Float) : Float :=
  if x.isNaN || x < 0.0 then nan
  else if x == 0.0 then -infinity
  else if x > 50.0 then hyperbolicTail x
  else
    eulerGamma + x.log
      + integrateTo x (smoothPanels x) fun t =>
          if t == 0.0 then 0.0
          else
            let s := (t / 2.0).sinh
            2.0 * s * s / t

end FormulaEngine.Special
