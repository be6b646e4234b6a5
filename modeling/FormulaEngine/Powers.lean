/-!
# Powers of two and ten

The bases of binary numbers and of their decimal texts.
-/

namespace FormulaEngine

/-- The power of two with a whole exponent. -/
def twoPow (exponent : Nat) : Nat := Nat.pow 2 exponent

/-- The power of ten with a whole exponent. -/
def tenPow (exponent : Nat) : Nat := Nat.pow 10 exponent

end FormulaEngine
