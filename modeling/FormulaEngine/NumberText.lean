import FormulaEngine.Decimal

/-!
# Texts of numbers

Three layouts of the digits of a number, which differ in notation only.

- `scientific`: one digit before the point and an exponent, `2.5e0`, `-0e0`, `1e-7`;
- `plain`: no exponent however large or small the number, `2.5`, `-0`, `0.0000001`;
- `explicit`: as `plain` with at least one digit after the point, and scientific for numbers that
  are very large or very small.
-/

namespace FormulaEngine

namespace NumberText

/-- The text of a number that has digits is its sign and `body`; the others have names. -/
def layOut (body : (mantissa : Nat) → (exponent : Int) → String) (x : Float) : String :=
  match Binary64.decode x with
  | .notANumber => "NaN"
  | .infinite negative => if negative then "-inf" else "inf"
  | .finite v => (if v.negative then "-" else "") ++ body v.mantissa v.exponent

/-- A run of zeros. -/
def zeros (count : Nat) : String := String.ofList (List.replicate count '0')

/-- Digits with a point after the first one, and the exponent of that digit. -/
def withExponent (digits : List Char) (leading : Int) : String :=
  let power := "e" ++ toString leading
  match digits with
  | first :: second :: rest =>
    String.ofList [first, '.', second] ++ String.ofList rest ++ power
  | _ => String.ofList digits ++ power

/-- Digits written out around a point; `leading` is the exponent of the first one. -/
def writtenOut (digits : List Char) (leading : Int) : String :=
  if leading < 0 then
    "0." ++ zeros ((-leading).toNat - 1) ++ String.ofList digits
  else
    let whole := leading.toNat + 1
    if digits.length ≤ whole then
      String.ofList digits ++ zeros (whole - digits.length)
    else
      String.ofList (digits.take whole) ++ "." ++ String.ofList (digits.drop whole)

/-- Scientific notation with the fewest digits that read back as the number. -/
def scientific : Float → String :=
  layOut fun mantissa exponent =>
    let d := Decimal.shortest mantissa exponent
    withExponent d.digits.toList d.leading

/-- No binary64 number has more digits than this, from the first one that is not zero to the last
one that is not. -/
def exactDigits : Nat := 767

/-- Scientific notation with exactly `count` digits. Zeros stand behind the last digit of a number,
and zero has as many digits as any other number. -/
def significant (count : Nat) : Float → String :=
  layOut fun mantissa exponent =>
    let d := Decimal.significant (min count exactDigits) mantissa exponent
    withExponent ((d.digits ++ zeros (count - d.digits.length)).toList) d.leading

/-- Positional notation with the fewest digits that read back as the number. -/
def plain : Float → String :=
  layOut fun mantissa exponent =>
    let d := Decimal.shortest mantissa exponent
    writtenOut d.digits.toList d.leading

/-- Notation that shows a whole number to be a fractional one: `2.0`. It is positional from `1e-4`
up to `1e16`, and for zero. -/
def explicit : Float → String :=
  layOut fun mantissa exponent =>
    let d := Decimal.shortest mantissa exponent
    if mantissa = 0 ∨ (-4 ≤ d.leading ∧ d.leading < 16) then
      let text := writtenOut d.digits.toList d.leading
      if text.contains '.' then text else text ++ ".0"
    else withExponent d.digits.toList d.leading

end NumberText

end FormulaEngine
