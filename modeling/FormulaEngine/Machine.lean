import FormulaEngine.Binding
import FormulaEngine.Machine.Action
import FormulaEngine.Operation

/-!
# The machine

Runs a bound program at one row. Running the subtree at the program counter fetches its first
instruction and runs the subtrees of the operands, which follow it, as the operation of the opcode
asks. Afterwards the program counter stands behind the subtree. Operands that are not wanted are
skipped, operands that are wanted again are run again from their first address, and calls run the
body of a function elsewhere and come back.

- `Machine.step`: runs one instruction, given how subtrees are run;
- `Machine.run`: runs the subtree at the program counter within a number of nested steps.

Moving in time moves the row cursor. While it may stand away from the row that was asked for,
columns are read only inside the dataset and give NaN outside; elsewhere they are indexed directly.
The cursor moves by exact arithmetic here; `Machine.runIn` is the machine with a cursor of 64 bits.
-/

namespace FormulaEngine

/-- A bound program with the limit of nested calls. -/
structure Machine where
  code : Array BoundInstruction
  /-- The number of rows of the dataset. -/
  rows : Nat
  maxCallDepth : Nat

namespace Machine

open Arithmetic

/-! ## Program counter -/

/-- Takes the instruction at the program counter and moves past it. -/
def fetch (m : Machine) : Action BoundInstruction := fun s =>
  match m.code[s.pc]? with
  | some i => some (.done i { s with pc := s.pc + 1, executed := s.executed + 1 })
  | none => some (.fault .outOfBounds s)

/-- Moves past whole subtrees, `pending` of them, over at most `left` instructions. -/
def skipSubtrees (m : Machine) : (left pending : Nat) → Action Unit
  | _, 0 => pure ()
  | 0, _ + 1 => .fault .outOfBounds
  | left + 1, pending + 1 => fun s =>
    match m.code[s.pc]? with
    | some i => skipSubtrees m left (pending + i.argCount) { s with pc := s.pc + 1 }
    | none => some (.fault .outOfBounds s)

/-- Moves past the subtree at the program counter without running it. -/
def skip (m : Machine) : Action Unit := fun s => m.skipSubtrees (m.code.size - s.pc) 1 s

/-- Goes to an address. -/
def jump (pc : Nat) : Action Unit := .modify fun s => { s with pc }

/-! ## Rows and columns -/

/-- Moves the row cursor. -/
def move (rows : Int) : Action Unit := .modify fun s => { s with cursor := s.cursor + rows }

/-- The cell of a column at a row, nothing outside the dataset. -/
def cell? {α : Type} (m : Machine) (column : Array α) (row : Int) : Option α :=
  if 0 ≤ row ∧ row < m.rows then column[row.toNat]? else none

/-- The cell of a column at the cursor. A cursor that has not been moved stands at a row of the
dataset, where every column has a cell. -/
def read {α : Type} (m : Machine) (column : Array α) : Action (Option α) := fun s =>
  if s.lagged then some (.done (m.cell? column s.cursor) s)
  else
    match (if 0 ≤ s.cursor then column[s.cursor.toNat]? else none) with
    | some value => some (.done (some value) s)
    | none => some (.fault .outOfBounds s)

/-- Runs an action with a cursor that may have been moved. -/
def lagged (self : Action Float) : Action Float := do
  let saved ← Action.get State.lagged
  Action.modify fun s => { s with lagged := true }
  let value ← self
  Action.modify fun s => { s with lagged := saved }
  return value

/-- Stops because the symbol of the node does not carry what the opcode needs. -/
def mismatch {α : Type} (i : BoundInstruction) : Action α :=
  .fault (.payloadMismatch i.opcode i.node.symbol.name)

/-! ## Operands -/

/-- The values of `count` operands one after another, behind those `found` before, the last
first. -/
def collect (self : Action Float) : (count : Nat) → (found : List Float) → Action (List Float)
  | 0, found => pure found.reverse
  | count + 1, found => do
    let value ← self
    collect self count (value :: found)

/-- The truth of a conjunction with `count` operands to go; they are run while the last value is
true. -/
def allTrue (m : Machine) (self : Action Float) : (count : Nat) → (last : Float) → Action Float
  | 0, last => pure (truth (holds last))
  | count + 1, last => do
    if holds last then
      let value ← self
      allTrue m self count value
    else
      m.skip
      allTrue m self count last

/-- The truth of a disjunction with `count` operands to go; they are run while the last value is at
most zero. -/
def anyTrue (m : Machine) (self : Action Float) : (count : Nat) → (last : Float) → Action Float
  | 0, last => pure (truth (holds last))
  | count + 1, last => do
    if last ≤ 0.0 then
      let value ← self
      anyTrue m self count value
    else
      m.skip
      anyTrue m self count last

/-- Adds the values of the operand at `start` over the next `count` rows, in the direction of
`step`, to `sum`. -/
def accumulate (self : Action Float) (start : Nat) (step : Int) :
    (count : Nat) → (sum : Float) → Action Float
  | 0, sum => pure sum
  | count + 1, sum => do
    move step
    let value ← lagged self
    jump start
    accumulate self start step count (sum + value)

/-- Runs `count` operands and puts their values aside as arguments. -/
def pushArguments (self : Action Float) : (count : Nat) → Action Unit
  | 0 => pure ()
  | count + 1 => do
    let value ← self
    Action.modify fun s => { s with stack := s.stack.push value }
    pushArguments self count

/-! ## Operations -/

/-- The sum of the operand over the rows up to `lag` away, the present one last. -/
def integrate (self : Action Float) (lag : Int) : Action Float := do
  let start ← Action.get State.pc
  let sum ← accumulate self start lag.sign lag.natAbs 0.0
  move (-lag)
  let value ← lagged self
  return sum + value

/-- The slope of the operand, from its values at the present row and one, three and four before. -/
def differentiate (self : Action Float) : Action Float := do
  let start ← Action.get State.pc
  let f0 ← lagged self
  move (-1)
  jump start
  let f1 ← lagged self
  move (-2)
  jump start
  let f3 ← lagged self
  move (-1)
  jump start
  let f4 ← lagged self
  move 4
  return recentSlope f0 f1 f3 f4

/-- Runs the function at `target` on the arguments put aside, and comes back. -/
def enter (self : Action Float) (count target : Nat) : Action Float := do
  let entered ← Action.get fun s => s.stack.enter? count
  let stack ← Action.ofOption .outOfBounds entered
  let back ← Action.get State.pc
  Action.modify fun s => { s with stack, pc := target, callDepth := s.callDepth + 1 }
  let value ← self
  Action.modify fun s =>
    { s with stack := s.stack.leave, pc := back, callDepth := s.callDepth - 1 }
  return value

/-- Runs the arguments of a call and then the function, unless there is none or the limit of nested
calls is reached. -/
def call (m : Machine) (self : Action Float) (i : BoundInstruction) : Action Float := do
  pushArguments self i.argCount
  let depth ← Action.get State.callDepth
  match i.data with
  | .jump target =>
    if depth < m.maxCallDepth then
      enter self i.argCount target
    else
      Action.modify fun s => { s with stack := s.stack.discard i.argCount }
      return nan
  | _ =>
    Action.modify fun s => { s with stack := s.stack.discard i.argCount }
    return nan

/-- Reads a numeric column and weighs the value. -/
def weighted (m : Machine) (i : BoundInstruction) (weight : Float) : Action Float := do
  match i.data with
  | .numeric column =>
    match ← m.read column with
    | some value => return value * weight
    | none => return nan
  | _ => return nan

/-- Reads a numeric column some rows away from the cursor and weighs the value. -/
def weightedAt (m : Machine) (i : BoundInstruction) (weight : Float) (lag : Int) :
    Action Float := do
  let cursor ← Action.get State.cursor
  match i.data with
  | .numeric column =>
    match m.cell? column (cursor + lag) with
    | some value => return value * weight
    | none => return nan
  | _ => return nan

/-- Reads a categorical column and gives the number of its category. -/
def categorized (m : Machine) (i : BoundInstruction) (number : String → Float) :
    Action Float := do
  match i.data with
  | .categorical column =>
    match ← m.read column with
    | some category => return number category
    | none => return nan
  | _ => return nan

/-- The numeric value at the cursor, if there is one. -/
def readNumber (m : Machine) (i : BoundInstruction) : Action (Option Float) :=
  match i.data with
  | .numeric column => m.read column
  | _ => pure none

/-- Chooses between two operands by a strict threshold, or blends them by a soft one. -/
def conditional (m : Machine) (self : Action Float) (i : BoundInstruction)
    (threshold steepness : Float) (ignoreSlope : Bool) : Action Float := do
  match ← m.readNumber i with
  | none =>
    m.skip
    m.skip
    return nan
  | some value =>
    if ignoreSlope then
      if value ≤ threshold then
        let left ← self
        m.skip
        return left
      else
        m.skip
        self
    else
      let p := logistic steepness (value - threshold)
      let left ← self
      let right ← self
      return left * p + right * (1.0 - p)

/-- Runs an instruction after it has been fetched. `self` runs the subtree at the program
counter. -/
def perform (m : Machine) (self : Action Float) (i : BoundInstruction) : Action Float :=
  match i.opcode.operation with
  | .strict operands combine => do
    let values ← collect self (operands i.argCount) []
    return combine i.argCount values
  | .choice => do
    let condition ← self
    if holds condition then
      let value ← self
      m.skip
      return value
    else
      m.skip
      self
  | .conjunction => do
    let first ← self
    m.allTrue self (i.argCount - 1) first
  | .disjunction => do
    let first ← self
    m.anyTrue self (i.argCount - 1) first
  | .timeLag =>
    match i.node.symbol with
    | .timeLag lag => do
      move lag.toInt
      let value ← lagged self
      move (-lag.toInt)
      return value
    | _ => mismatch i
  | .integral =>
    match i.node.symbol with
    | .integral lag => integrate self lag.toInt
    | _ => mismatch i
  | .derivative => differentiate self
  | .call => m.call self i
  | .argument =>
    match i.node.symbol with
    | .argument index => do
      let value ← Action.get fun s => s.stack.argument? index
      Action.ofOption .outOfBounds value
    | _ => mismatch i
  | .constant =>
    match i.node.symbol with
    | .constant value => pure value
    | _ => mismatch i
  | .numericVariable =>
    match i.node.symbol with
    | .numericVariable _ weight => m.weighted i weight
    | _ => mismatch i
  | .lagVariable =>
    match i.node.symbol with
    | .laggedVariable _ weight lag => m.weightedAt i weight lag.toInt
    | _ => mismatch i
  | .factorVariable =>
    match i.node.symbol with
    | .factorVariable _ weights =>
      m.categorized i fun category => (weights.lookup category).getD nan
    | _ => mismatch i
  | .binaryFactorVariable =>
    match i.node.symbol with
    | .binaryFactorVariable _ value weight =>
      m.categorized i fun category => if category == value then weight else 0.0
    | _ => mismatch i
  | .variableCondition =>
    match i.node.symbol with
    | .variableCondition _ threshold steepness ignoreSlope =>
      m.conditional self i threshold steepness ignoreSlope
    | _ => mismatch i

/-- Runs the instruction at the program counter. -/
def step (m : Machine) (self : Action Float) : Action Float := do
  let i ← m.fetch
  m.perform self i

/-- Runs the subtree at the program counter. Operands and functions are run with one step less, so
`steps` limits how deep they may nest. -/
def run (m : Machine) : (steps : Nat) → Action Float
  | 0 => .unfinished
  | steps + 1 => m.step (run m steps)

end Machine

end FormulaEngine
