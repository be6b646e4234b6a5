import FormulaEngine.Machine.ArgumentStack

/-!
# Argument stack as numbers in a row

The argument stack the way it lies in memory: one row of binary64 numbers for all frames, and one for
the arguments of calls under construction. A frame is its arguments, the last one first, and behind
them their number. Only their places tell arguments from numbers of arguments.

    bottom [ .. frame of the caller .. | argN-1 .. arg1 arg0 N ] top

- `marker`, `markedCount`: a number of arguments as a binary64 number, and back;
- `push`, `discard`, `enter?`, `leave`, `argument?`: as for `ArgumentStack`, where the number of
  arguments of a frame is marked as such.

`enter?` and `argument?` give nothing when they would reach below the bottom of a row.
-/

namespace FormulaEngine

/-- Argument stack as two rows of numbers, the bottom first. -/
structure FlatStack where
  /-- The frames: the arguments of a frame, the last one first, then their number. -/
  numbers : Array Float := #[]
  /-- The arguments without a frame yet, in order. -/
  pending : Array Float := #[]

namespace FlatStack

/-- The number that stands for `count` arguments. -/
def marker (count : Nat) : Float := count.toUInt64.toFloat

/-- The number of arguments that a number stands for: its whole part, within 64 bits. A number that
is no count stands for some number of arguments, too. -/
def markedCount (number : Float) : Nat := number.toUInt64.toNat

/-- Adds an argument of a call under construction. -/
def push (value : Float) (stack : FlatStack) : FlatStack :=
  { stack with pending := stack.pending.push value }

/-- Drops the last `count` arguments without a frame. -/
def discard (count : Nat) (stack : FlatStack) : FlatStack :=
  { stack with pending := stack.pending.take (stack.pending.size - count) }

/-- Makes a frame of the last `count` arguments. -/
def enter? (count : Nat) (stack : FlatStack) : Option FlatStack :=
  if count ≤ stack.pending.size then
    let start := stack.pending.size - count
    some {
      numbers := (stack.numbers ++ (stack.pending.drop start).reverse).push (marker count)
      pending := stack.pending.take start }
  else none

/-- Removes the innermost frame. -/
def leave (stack : FlatStack) : FlatStack :=
  match stack.numbers.back? with
  | some number =>
    let below := stack.numbers.pop
    { stack with numbers := below.take (below.size - markedCount number) }
  | none => stack

/-- Argument `index` of the innermost frame, NaN if there is no frame or no such argument. -/
def argument? (index : Nat) (stack : FlatStack) : Option Float :=
  match stack.numbers.back? with
  | some number =>
    if index < markedCount number then
      if 2 + index ≤ stack.numbers.size then stack.numbers[stack.numbers.size - 2 - index]?
      else none
    else some nan
  | none => some nan

/-- The number of numbers in the row of the frames. -/
def depth (stack : FlatStack) : Nat := stack.numbers.size

end FlatStack

end FormulaEngine
