import FormulaEngine.Binary64
import FormulaEngine.Special.Constants
import FormulaEngine.Special.Quadrature

/-!
# Sine, cosine and Fresnel integrals

- `sineIntegral`, `cosineIntegral`: Simpson's rule up to four, above it the continued fraction of
  `E₁ (i x)` in complex numbers;
- `fresnelSine`, `fresnelCosine`: Simpson's rule up to eight, above it the leading asymptotic terms;
  the integrand is that of `π t² / 2`.
-/

namespace FormulaEngine.Special

/-- A complex number. -/
structure Complex where
  re : Float
  im : Float

namespace Complex

/-- The product. -/
def mul (a b : Complex) : Complex :=
  ⟨a.re * b.re - a.im * b.im, a.re * b.im + a.im * b.re⟩

/-- The reciprocal; dividing by the modulus twice keeps its square out of the computation. -/
def inverse (a : Complex) : Complex :=
  let modulus := Binary64.hypot a.re a.im
  ⟨a.re / modulus / modulus, -a.im / modulus / modulus⟩

/-- `factor * a + b` for a real factor, each part rounded once. -/
def scaleAdd (factor : Float) (a b : Complex) : Complex :=
  ⟨Binary64.mulAdd factor a.re b.re, Binary64.mulAdd factor a.im b.im⟩

end Complex

/-- Up to `steps` steps of Lentz's method for the continued fraction of `E₁ (i x)`, from the `i`-th
numerator `-i²` on. -/
def oscillatingFraction : (steps i : Nat) → (b c d h : Complex) → Complex
  | 0, _, _, _, _, h => h
  | steps + 1, i, b, c, d, h =>
    let a := -Float.ofNat (i * i)
    let b : Complex := ⟨b.re + 2.0, b.im⟩
    let d := (Complex.scaleAdd a d b).inverse
    let c := Complex.scaleAdd a c.inverse b
    let delta := c.mul d
    let h := h.mul delta
    if (delta.re - 1.0).abs + delta.im.abs < epsilon then h
    else oscillatingFraction steps (i + 1) b c d h

/-- `(Si x, Ci x)` at `x > 4`. -/
def sineCosineTail (x : Float) : Float × Float :=
  let b : Complex := ⟨1.0, x⟩
  let d := b.inverse
  let h := oscillatingFraction 999 1 b ⟨1.0 / tiny, 0.0⟩ d d
  let value := h.mul ⟨x.cos, -x.sin⟩
  (halfPi + value.im, -value.re)

/-- The sine integral, the integral of `sin t / t`. -/
def sineIntegral (x : Float) : Float :=
  if x.isNaN then nan
  else if x.abs > 4.0 then sign x * (sineCosineTail x.abs).1
  else integrateTo x (oscillatingPanels x) fun t => if t == 0.0 then 1.0 else t.sin / t

/-- The cosine integral `γ + ln x + ∫ (cos t - 1) / t`, real for positive `x`. -/
def cosineIntegral (x : Float) : Float :=
  if x.isNaN || x < 0.0 then nan
  else if x == 0.0 then -infinity
  else if x > 4.0 then (sineCosineTail x).2
  else
    eulerGamma + x.log
      + integrateTo x (oscillatingPanels x) fun t =>
          if t == 0.0 then 0.0
          else
            let s := (t / 2.0).sin; -2.0 * s * s / t

/-- `(S x, C x)` from the leading asymptotic terms, at `x > 8`. -/
def fresnelTail (x : Float) : Float × Float :=
  let pix := pi * x
  let square := x * x
  let pi2x4 := pi * pi * (square * square)
  let f := (1.0 - 3.0 / pi2x4) / pix
  let g := (1.0 - 15.0 / pi2x4) / (pi * pix * x * x)
  let angle := halfPi * x * x
  (0.5 - f * angle.cos - g * angle.sin, 0.5 + f * angle.sin - g * angle.cos)

/-- The Fresnel sine integral. -/
def fresnelSine (x : Float) : Float :=
  if x.isNaN then nan
  else if x.abs > 8.0 then sign x * (fresnelTail x.abs).1
  else integrateTo x (oscillatingPanels x) fun t => (halfPi * t * t).sin

/-- The Fresnel cosine integral. -/
def fresnelCosine (x : Float) : Float :=
  if x.isNaN then nan
  else if x.abs > 8.0 then sign x * (fresnelTail x.abs).2
  else integrateTo x (oscillatingPanels x) fun t => (halfPi * t * t).cos

end FormulaEngine.Special
