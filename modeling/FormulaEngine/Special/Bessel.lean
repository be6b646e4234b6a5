/-!
# Modified Bessel function

`besselI0` is the modified Bessel function of the first kind and order zero, by one polynomial near
zero and one in the reciprocal further out.
-/

namespace FormulaEngine.Special

/-- The value at `x` of the polynomial with the given coefficients, the constant one first. -/
def polynomial (coefficients : List Float) (x : Float) : Float :=
  match coefficients.reverse with
  | [] => 0.0
  | last :: rest => rest.foldl (fun value c => c + x * value) last

/-- Coefficients in `(x / 3.75) ^ 2`, for `|x| < 3.75`. -/
def besselNear : List Float :=
  [1.0, 3.5156229, 3.0899424, 1.2067492, 0.2659732, 0.0360768, 0.0045813]

/-- Coefficients in `3.75 / |x|`, for `|x| ≥ 3.75`. -/
def besselFar : List Float :=
  [0.39894228, 0.01328592, 0.00225319, -0.00157565, 0.00916281, -0.02057706, 0.02635537,
    -0.01647633, 0.00392377]

/-- The modified Bessel function of the first kind and order zero. -/
def besselI0 (x : Float) : Float :=
  let size := x.abs
  if size < 3.75 then
    let y := x / 3.75
    polynomial besselNear (y * y)
  else
    size.exp / size.sqrt * polynomial besselFar (3.75 / size)

end FormulaEngine.Special
