import FormulaEngine.Binary64

/-!
# Argument stack

The arguments of the functions that are running. All frames share one list of cells: each frame is a
cell with its length followed by its arguments. Arguments of a call under construction wait apart,
so that an argument read by another argument still comes from the frame of the caller.

- `push`, `discard`, `enter?`, `leave`: what calls do to the stack;
- `clear`: what is done before another row is run;
- `argument?`: an argument of the innermost frame.

`enter?` and `argument?` give nothing when they would reach beyond the values that are there.
-/

namespace FormulaEngine

namespace ArgumentStack

/-- One place of the stack. -/
inductive Cell where
  | argument (value : Float)
  | length (count : Nat)
deriving DecidableEq

end ArgumentStack

/-- The frames of the calls that are running and the arguments of those under construction. -/
structure ArgumentStack where
  /-- The frames, the innermost first: the length of a frame, then its arguments in order. -/
  cells : List ArgumentStack.Cell := []
  /-- The arguments without a frame yet, the last one first. -/
  pending : List Float := []
deriving DecidableEq

namespace ArgumentStack

/-- Adds an argument of a call under construction. -/
def push (value : Float) (stack : ArgumentStack) : ArgumentStack :=
  { stack with pending := value :: stack.pending }

/-- Drops the last `count` arguments without a frame. -/
def discard (count : Nat) (stack : ArgumentStack) : ArgumentStack :=
  { stack with pending := stack.pending.drop count }

/-- Makes a frame of the last `count` arguments. -/
def enter? (count : Nat) (stack : ArgumentStack) : Option ArgumentStack :=
  if count ≤ stack.pending.length then
    some {
      cells := .length count :: ((stack.pending.take count).reverse.map .argument ++ stack.cells)
      pending := stack.pending.drop count }
  else none

/-- Removes the innermost frame. -/
def leave (stack : ArgumentStack) : ArgumentStack :=
  match stack.cells with
  | .length count :: cells => { stack with cells := cells.drop count }
  | _ => stack

/-- Drops all frames and all arguments without one. -/
def clear (stack : ArgumentStack) : ArgumentStack := { stack with cells := [], pending := [] }

/-- Argument `index` of the innermost frame, NaN if there is no frame or no such argument. -/
def argument? (index : Nat) (stack : ArgumentStack) : Option Float :=
  match stack.cells with
  | [] => some nan
  | .length count :: cells =>
    if index < count then
      match cells[index]? with
      | some (.argument value) => some value
      | _ => none
    else some nan
  | .argument _ :: _ => none

/-- The number of cells. -/
def depth (stack : ArgumentStack) : Nat := stack.cells.length

/-- Leaving the frame that was just entered leaves the stack without the arguments of the call. -/
theorem leave_enter {count : Nat} {stack entered : ArgumentStack}
    (h : stack.enter? count = some entered) : entered.leave = stack.discard count := by
  simp only [enter?] at h
  split at h
  · obtain rfl := Option.some.inj h
    have hlen : count = ((stack.pending.take count).reverse.map Cell.argument).length := by
      simp; omega
    simp only [leave, discard]
    congr 1
    exact List.drop_left' hlen.symm
  · cases h

end ArgumentStack

end FormulaEngine
