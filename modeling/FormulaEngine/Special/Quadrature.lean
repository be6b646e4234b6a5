/-!
# Simpson's rule

`simpson` is the composite rule over an even number of panels. It asks only for the arithmetic of
the numbers that it runs on, so it can be read over binary64 numbers as well as over exact ones.
-/

namespace FormulaEngine.Special

/-- `sum` and the weighted values of `f` at `count` inner points from the `i`-th one on: weight four
at odd points, two at even ones. -/
@[specialize]
def addInnerPoints {α : Type} [Add α] [Mul α] [OfNat α 2] [OfNat α 4] (ofNat : Nat → α)
    (f : α → α) (a step : α) : (count i : Nat) → (sum : α) → α
  | 0, _, sum => sum
  | count + 1, i, sum =>
    let value := f (a + step * ofNat i)
    addInnerPoints ofNat f a step count (i + 1)
      (sum + if i % 2 = 1 then 4 * value else 2 * value)

/-- The number of panels that are used when `n` are asked for: an even number, at least two. -/
def evenPanels (n : Nat) : Nat := (max n 2 + 1) / 2 * 2

/-- The integral of `f` from `a` to `b` by the composite Simpson rule. -/
@[specialize]
def simpson {α : Type} [Add α] [Sub α] [Mul α] [Div α] [OfNat α 2] [OfNat α 3] [OfNat α 4]
    (ofNat : Nat → α) (f : α → α) (a b : α) (n : Nat) : α :=
  let panels := evenPanels n
  let step := (b - a) / ofNat panels
  addInnerPoints ofNat f a step (panels - 1) 1 (f a + f b) * step / 3

/-- The integral of a function of binary64 numbers from zero to `x`. -/
@[specialize]
def integrateTo (x : Float) (panels : Nat) (f : Float → Float) : Float :=
  simpson Float.ofNat f 0.0 x panels

/-- `|x|` rounded up, at least one. -/
def reach (x : Float) : Nat := (max x.abs 1.0).ceil.toUInt64.toNat

/-- Panels for an integrand that bends more the larger `|x|` is. -/
def smoothPanels (x : Float) : Nat := 64 * reach x

/-- Panels for an integrand that oscillates, or decays, over `|x|`. -/
def oscillatingPanels (x : Float) : Nat := 128 * reach x * reach x

end FormulaEngine.Special
