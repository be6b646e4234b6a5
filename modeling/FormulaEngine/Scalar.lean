import FormulaEngine.Compilation
import FormulaEngine.Machine.Termination
import FormulaEngine.Rows

/-!
# Scalar interpreter

Evaluates a formula row by row on the machine. It runs every opcode.

- `Evaluation`: a bound program on a selection of rows, from which values are drawn one at a time;
- `Evaluation.InRange`: the rows at which the program is run;
- `Evaluation.evaluateRow`: the value at any row; `Evaluation.next`: the value at the next row;
- `Evaluation.resume_eq`: what one row has left behind does not matter to another;
- `Evaluation.outcomeIn`: how the program ends with the row cursor in a register;
- `Evaluation.drain`: the values and states of all rows that are left;
- `ScalarInterpreter`: hooks, limit of nested calls, and the number of evaluations started.
-/

namespace FormulaEngine

/-- The largest row, and the largest number of rows, that the row cursor can be compared with: it is
a signed number of 64 bits. -/
def cursorLimit : Nat := 9223372036854775807

/-- A bound program on the rows that are left to evaluate. -/
structure Evaluation where
  program : BoundProgram
  maxCallDepth : Nat
  rows : Rows
  /-- What the most recent row has left behind. -/
  state : Machine.State := {}

namespace Evaluation

/-- The machine that runs the program. -/
def machine (evaluation : Evaluation) : Machine where
  code := evaluation.program.code
  rows := evaluation.program.rows
  maxCallDepth := evaluation.maxCallDepth

/-- The rows at which the program is run: those of the dataset, unless it has more rows than the
cursor can count. -/
def InRange (evaluation : Evaluation) (row : Nat) : Prop :=
  (row ≤ cursorLimit ∧ evaluation.program.rows ≤ cursorLimit) ∧ row < evaluation.program.rows

instance (evaluation : Evaluation) : DecidablePred evaluation.InRange :=
  fun _ => inferInstanceAs (Decidable (_ ∧ _))

/-- Where the rows of a dataset can be counted, so can each of them. -/
theorem inRange_iff {evaluation : Evaluation} {row : Nat} :
    evaluation.InRange row ↔
      evaluation.program.rows ≤ cursorLimit ∧ row < evaluation.program.rows := by
  unfold InRange
  omega

/-- How the program ends at a row when the state that the row before has left is used again. A row
that is not in range has no value, and nothing is run. -/
def resume (evaluation : Evaluation) (row : Nat) : Machine.Outcome Float :=
  let state := evaluation.state.reset
  if evaluation.InRange row then evaluation.machine.evaluate { state with cursor := row }
  else .done nan state

/-- How the program ends at a row in a state of its own. -/
def outcomeAt (evaluation : Evaluation) (row : Nat) : Machine.Outcome Float :=
  if evaluation.InRange row then evaluation.machine.evaluate { cursor := row }
  else .done nan {}

/-- However the row before has ended, nothing of it is left in the state that is used again. -/
theorem resume_eq (evaluation : Evaluation) (row : Nat) :
    evaluation.resume row = evaluation.outcomeAt row := rfl

/-- How the program ends at a row with the cursor in a register. The row itself is the first
position. -/
def outcomeIn (register : CursorRegister) (evaluation : Evaluation) (row : Nat) :
    Option (Machine.Outcome Float) :=
  if evaluation.InRange row then
    match register row with
    | some cursor =>
      evaluation.machine.runIn register (evaluation.machine.stepBound 0 0) { cursor }
    | none => some (.fault .overflow {})
  else some (.done nan {})

/-- The value at a row, whatever rows are left. -/
def evaluateRow (evaluation : Evaluation) (row : Nat) : Except Fault Float × Evaluation :=
  match evaluation.resume row with
  | .done value state => (.ok value, { evaluation with state })
  | .fault cause state => (.error cause, { evaluation with state })

theorem evaluateRow_eq (evaluation : Evaluation) (row : Nat) :
    evaluation.evaluateRow row =
      match evaluation.outcomeAt row with
      | .done value state => (.ok value, { evaluation with state })
      | .fault cause state => (.error cause, { evaluation with state }) := by
  rw [evaluateRow, resume_eq]

/-- The value at the next row, if one is left. The row is used up even if it has no value. -/
def next (evaluation : Evaluation) : Option (Except Fault Float) × Evaluation :=
  match evaluation.rows.next? with
  | none => (none, evaluation)
  | some (row, rows) =>
    let (value, evaluation) := { evaluation with rows }.evaluateRow row
    (some value, evaluation)

/-- The values of at most `count` rows, each with the state after it, behind those `found` before,
the last one first. -/
def drainFrom (evaluation : Evaluation) :
    (count : Nat) → (found : List (Float × Machine.State)) →
      Except Fault (List (Float × Machine.State))
  | 0, found => .ok found.reverse
  | count + 1, found =>
    match evaluation.next with
    | (none, _) => .ok found.reverse
    | (some (.error cause), _) => .error cause
    | (some (.ok value), after) => drainFrom after count ((value, after.state) :: found)

/-- The values of all rows that are left, each with the state after it. More rows than there is
storage for are refused once the first one has its value. -/
def drain (evaluation : Evaluation) : Except Fault (List (Float × Machine.State)) :=
  if evaluation.rows.size ≤ storageLimit then evaluation.drainFrom evaluation.rows.size []
  else
    match evaluation.next with
    | (some (.error cause), _) => .error cause
    | _ => .error .outOfStorage

/-- The values of all rows that are left. -/
def values (evaluation : Evaluation) : Except Fault (List Float) :=
  evaluation.drain.map fun results => results.map (·.1)

end Evaluation

/-- The depth of nested calls that is allowed unless another limit is set. -/
def defaultMaxCallDepth : Nat := 64

/-- An interpreter for all formulas. -/
structure ScalarInterpreter where
  hooks : List Hook := []
  maxCallDepth : Nat := defaultMaxCallDepth
  /-- The evaluations started since the last reset. -/
  evaluated : Nat := 0

namespace ScalarInterpreter

/-- Starts evaluating a compiled program. -/
def start (interpreter : ScalarInterpreter) (program : Program) (data : Dataset) (rows : Rows) :
    Evaluation × ScalarInterpreter :=
  ({ program := program.bind data, maxCallDepth := interpreter.maxCallDepth, rows },
    { interpreter with evaluated := interpreter.evaluated + 1 })

/-- Compiles a formula and starts evaluating it. -/
def open? (interpreter : ScalarInterpreter) (formula : Formula) (data : Dataset) (rows : Rows) :
    Except EvalError (Evaluation × ScalarInterpreter) :=
  (formula.compile interpreter.hooks).map fun program => interpreter.start program data rows

/-- The values of a formula at all rows. The interpreter has counted the evaluation unless the
formula was refused. -/
def evaluate (interpreter : ScalarInterpreter) (formula : Formula) (data : Dataset) (rows : Rows) :
    Except Failure (List Float) × ScalarInterpreter :=
  match interpreter.open? formula data rows with
  | .error cause => (.error (.error cause), interpreter)
  | .ok (evaluation, interpreter) => (evaluation.values.mapError .fault, interpreter)

/-- Sets the counter back. -/
def reset (interpreter : ScalarInterpreter) : ScalarInterpreter :=
  { interpreter with evaluated := 0 }

end ScalarInterpreter

end FormulaEngine
