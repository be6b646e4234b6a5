import FormulaEngine.Binary64

/-!
# Arithmetic of the operators

The values of single operators on binary64 numbers. Truth values are numbers: true is one, false is
minus one, and any number above zero counts as true. An operation without a value gives NaN.
-/

namespace FormulaEngine.Arithmetic

/-- The number that stands for a truth value. -/
def truth (holds : Bool) : Float := if holds then 1.0 else -1.0

/-- Whether a number counts as true. -/
def holds (x : Float) : Bool := x > 0.0

/-- The number of a logical negation. -/
def negate (x : Float) : Float := if x > 0.0 then -1.0 else 1.0

/-- The reciprocal. -/
def reciprocal (x : Float) : Float := 1.0 / x

/-- The square. -/
def square (x : Float) : Float := x * x

/-- The cube. -/
def cube (x : Float) : Float := x * x * x

/-- `x` to the power of the whole number nearest to `exponent`. -/
def power (x exponent : Float) : Float := x.pow (Binary64.roundHalfEven exponent)

/-- The root of `x` whose degree is the whole number nearest to `degree`. -/
def root (x degree : Float) : Float := x.pow (1.0 / Binary64.roundHalfEven degree)

/-- A quotient without poles. -/
def analyticQuotient (x y : Float) : Float := x / (1.0 + y * y).sqrt

/-- The weight of the upper branch of a soft threshold. -/
def logistic (slope distance : Float) : Float := 1.0 / (1.0 + (-slope * distance).exp)

/-- The slope of the line through values at the present row and one, three and four rows before. -/
def recentSlope (f0 f1 f3 f4 : Float) : Float := (f0 + 2.0 * f1 - 2.0 * f3 - f4) / 8.0

end FormulaEngine.Arithmetic
