import FormulaEngine.Error
import FormulaEngine.Machine.ArgumentStack

/-!
# Actions of the machine

What the machine does to its state. An action ends with a value or with a fault, and either way with
a state; or it has not ended yet, when the steps that it was allowed have run out.

- `State`: program counter, argument stack, row cursor and counters; `State.reset`: the state for
  another row;
- `Outcome`: how an action ends;
- `Action`: an action, with its operations `get`, `modify` and `fault`.
-/

namespace FormulaEngine.Machine

/-- The changing part of a machine. -/
structure State where
  /-- The address of the next instruction. -/
  pc : Nat := 0
  stack : ArgumentStack := {}
  /-- The row at which columns are read. It may leave the dataset. -/
  cursor : Int := 0
  /-- Whether the cursor may have been moved away from the row that was asked for. -/
  lagged : Bool := false
  /-- The number of functions that have been entered and not left. -/
  callDepth : Nat := 0
  /-- The number of instructions that have been run. -/
  executed : Nat := 0
deriving DecidableEq

/-- Back to the first instruction with an empty stack, and to where counting starts. -/
def State.reset (s : State) : State :=
  { s with
    pc := 0
    stack := s.stack.clear
    cursor := 0
    lagged := false
    callDepth := 0
    executed := 0 }

/-- How an action ends. -/
inductive Outcome (α : Type) where
  | done (value : α) (state : State)
  | fault (cause : Fault) (state : State)

/-- Turns a state into an outcome, or into nothing if it is not finished. -/
def Action (α : Type) : Type := State → Option (Outcome α)

namespace Action

variable {α β : Type}

/-- Gives a value and leaves the state alone. -/
@[always_inline, inline]
protected def pure (value : α) : Action α := fun s => some (.done value s)

/-- Goes on with the value of an action that ended with one. -/
@[always_inline, inline]
protected def bind (action : Action α) (next : α → Action β) : Action β := fun s =>
  match action s with
  | some (.done value s) => next value s
  | some (.fault cause s) => some (.fault cause s)
  | none => none

@[always_inline]
instance : Monad Action where
  pure := Action.pure
  bind := Action.bind

/-- Stops. -/
def fault (cause : Fault) : Action α := fun s => some (.fault cause s)

/-- The value of an optional result; without one the action stops. -/
def ofOption (cause : Fault) : Option α → Action α
  | some value => pure value
  | none => fault cause

/-- Reads the state. -/
@[inline]
def get (read : State → α) : Action α := fun s => some (.done (read s) s)

/-- Changes the state. -/
@[inline]
def modify (change : State → State) : Action Unit := fun s => some (.done () (change s))

/-- An action that has run out of steps. -/
def unfinished : Action α := fun _ => none

end Action

end FormulaEngine.Machine
