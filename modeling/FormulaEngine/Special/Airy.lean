import FormulaEngine.Binary64
import FormulaEngine.Special.Constants

/-!
# Airy functions

`airy` gives both functions at once: power series from -8 to 6, asymptotic expansions outside.
-/

namespace FormulaEngine.Special

/-- Coefficients `u₀, …, u₅` of the asymptotic expansions. -/
def airyU : List Float :=
  [1.0, 0.06944444444444444, 0.03713348765432099, 0.03799305912780064, 0.05764919041266975,
    0.116099064025515]

/-- `(Ai x, Bi x)` at `x > 6`. -/
def airyRight (x : Float) : Float × Float :=
  let zeta := 2.0 / 3.0 * x.pow 1.5
  let scale := 1.0 / (pi.sqrt * x.pow 0.25)
  let (decaying, growing, _, _) :=
    airyU.foldl
      (fun (decaying, growing, power, even) u =>
        let term := u / power
        (decaying + (if even then term else -term), growing + term, power * zeta, !even))
      (0.0, 0.0, 1.0, true)
  (0.5 * scale * (-zeta).exp * decaying, scale * zeta.exp * growing)

/-- `(Ai x, Bi x)` at `x < -8`. -/
def airyLeft (x : Float) : Float × Float :=
  let size := -x
  let zeta := 2.0 / 3.0 * size.pow 1.5
  let scale := 1.0 / (pi.sqrt * size.pow 0.25)
  let z2 := zeta * zeta
  let u (i : Nat) : Float := airyU.getD i 0.0
  let p := u 0 - u 2 / z2 + u 4 / (z2 * z2)
  let q := u 1 / zeta - u 3 / (z2 * zeta) + u 5 / (z2 * z2 * zeta)
  let angle := zeta + quarterPi
  (scale * (angle.sin * p - angle.cos * q), scale * (angle.cos * p + angle.sin * q))

/-- Adds up to `steps` terms of the two power series in `x³`, from the `k`-th ones on, and stops
once neither counts any more. -/
def addAiryTerms (x3 : Float) : (steps k : Nat) → (f g fTerm gTerm : Float) → Float × Float
  | 0, _, f, g, _, _ => (f, g)
  | steps + 1, k, f, g, fTerm, gTerm =>
    let k3 := 3.0 * Float.ofNat k
    let fTerm := fTerm * (x3 / ((k3 + 2.0) * (k3 + 3.0)))
    let gTerm := gTerm * (x3 / ((k3 + 3.0) * (k3 + 4.0)))
    let f := f + fTerm
    let g := g + gTerm
    if fTerm.abs < epsilon * f.abs && gTerm.abs < epsilon * g.abs then (f, g)
    else addAiryTerms x3 steps (k + 1) f g fTerm gTerm

/-- `(Ai x, Bi x)` from the power series. -/
def airyNear (x : Float) : Float × Float :=
  let (f, g) := addAiryTerms (x * x * x) 200 0 1.0 x 1.0 x
  let c1 := 0.3550280538878172
  let c2 := 0.2588194037928068
  (c1 * f - c2 * g, sqrtThree * (c1 * f + c2 * g))

/-- The Airy functions `(Ai x, Bi x)`. -/
def airy (x : Float) : Float × Float :=
  if x.isNaN then (nan, nan)
  else if x > 6.0 then airyRight x
  else if x < -8.0 then airyLeft x
  else airyNear x

/-- The Airy function of the first kind. -/
def airyA (x : Float) : Float := (airy x).1

/-- The Airy function of the second kind. -/
def airyB (x : Float) : Float := (airy x).2

end FormulaEngine.Special
