/-!
# Constants

Mathematical constants as the nearest binary64 numbers, and the thresholds of the iterations.
-/

namespace FormulaEngine.Special

def pi : Float := 3.141592653589793

def halfPi : Float := 1.5707963267948966

def quarterPi : Float := 0.7853981633974483

def sqrtTwo : Float := 1.4142135623730951

def sqrtThree : Float := 1.7320508075688772

/-- The Euler-Mascheroni constant. -/
def eulerGamma : Float := 0.5772156649015329

/-- The distance from one to the next number. -/
def epsilon : Float := 2.220446049250313e-16

/-- Stands in for a denominator of zero in a continued fraction. -/
def tiny : Float := 1e-300

/-- The sign of a number that is not NaN and not zero. -/
def sign (x : Float) : Float := if x < 0.0 then -1.0 else 1.0

end FormulaEngine.Special
