import FormulaEngine.Binary64

/-!
# The exponential function less one

`exp t - 1` loses its digits near zero if the exponential is rounded first. Here it is computed in
fixed-point arithmetic and rounded once: the argument is halved until a few terms of the power
series suffice, and the result is brought back by squaring.

- `addPowerTerms`: the power series of `exp s - 1`;
- `doubleArgument`: from `exp s - 1` to `exp (2 s) - 1`, again and again;
- `expMinusOne`: `exp t - 1`.
-/

namespace FormulaEngine.Special

/-- The number of bits behind the point of a fixed-point number. -/
def pointBits : Nat := 192

/-- One, as a fixed-point number. -/
def fixedOne : Nat := twoPow pointBits

/-- `sum` and the terms `s ^ k / k!` of `steps` numbers from `k` on; `term` is the one before. -/
def addPowerTerms (s : Nat) : (steps k : Nat) → (term sum : Nat) → Nat
  | 0, _, _, sum => sum
  | steps + 1, k, term, sum =>
    let term := term * s / (fixedOne * k)
    addPowerTerms s steps (k + 1) term (sum + term)

/-- From `y = exp s - 1` to the same for `s` doubled `steps` times. A doubling squares `1 + y`,
which leaves `y * (2 + y)` above one. -/
def doubleArgument : (steps : Nat) → (y : Nat) → Nat
  | 0, y => y
  | steps + 1, y => doubleArgument steps (y * (2 * fixedOne + y) / fixedOne)

/-- How often the argument is halved. That brings every argument below `1000` under `1 / 32`. -/
def halvings : Nat := 15

/-- `exp s - 1` as a fixed-point number, at `s = mantissa * 2 ^ exponent` between `2 ^ -54` and
`1000`. -/
def expMinusOneAbove (mantissa : Nat) (exponent : Int) : Nat :=
  let s := mantissa * twoPow (exponent + pointBits - halvings).toNat
  doubleArgument halvings (addPowerTerms s 24 1 fixedOne 0)

/-- `exp t - 1`, rounded once. An argument below `2 ^ -54` is its own value. For a negative argument
`-s` it is `-(exp s - 1) / exp s`. -/
def expMinusOne (t : Float) : Float :=
  if t.abs < 5.551115123125783e-17 then t
  else if t ≥ 1000.0 then infinity
  else if t ≤ -1000.0 then -1.0
  else
    match Binary64.decode t with
    | .finite v =>
      let above := expMinusOneAbove v.mantissa v.exponent
      let mantissa := if v.negative then above * fixedOne / (fixedOne + above) else above
      Binary64.nearest ⟨v.negative, mantissa, -pointBits⟩
    | _ => nan

end FormulaEngine.Special
