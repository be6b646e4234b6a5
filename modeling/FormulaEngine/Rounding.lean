/-!
# Rounded quotients

Whole quotients rounded to the nearest whole number.

- `divHalfEven`: a remainder of exactly one half goes to the even neighbour.
-/

namespace FormulaEngine

/-- The whole number nearest to `num / den`; a half goes to the even neighbour. -/
def divHalfEven (num den : Nat) : Nat :=
  let quotient := num / den
  let twice := 2 * (num % den)
  if twice < den then quotient
  else if den < twice then quotient + 1
  else quotient + quotient % 2

end FormulaEngine
