import FormulaEngine.Batch
import FormulaEngine.Scalar

/-!
# Interpreters

What the scalar and the batch interpreter have in common, so that either can stand where an
interpreter is asked for. The scalar interpreter leaves the rows to be evaluated when their values
are drawn; the batch interpreter has evaluated all of them.

- `RowValues`: the values of a formula, to be drawn one at a time;
- `Interpreter`: gives the values of formulas and counts its evaluations;
- `Interpreter.draw`: some or all of the values at once;
- `Interpreter.draw_batch`: what is drawn from a batch are the first of all its values.
-/

namespace FormulaEngine

/-- The values of a formula at the rows that were asked for. -/
inductive RowValues where
  /-- Every row is evaluated when its value is drawn. -/
  | pending (evaluation : Evaluation)
  /-- All rows have been evaluated. -/
  | ready (values : List Float)

namespace RowValues

/-- The next value, if one is left. -/
def next : RowValues → Option (Except Fault Float) × RowValues
  | pending evaluation =>
    let (value, evaluation) := evaluation.next
    (value, pending evaluation)
  | ready [] => (none, ready [])
  | ready (value :: rest) => (some (.ok value), ready rest)

/-- The first values, at most `count` of them. -/
def take : (count : Nat) → RowValues → Except Fault (List Float)
  | 0, _ => .ok []
  | count + 1, values =>
    match values.next with
    | (none, _) => .ok []
    | (some (.error cause), _) => .error cause
    | (some (.ok value), rest) => (take count rest).map (value :: ·)

/-- All values. -/
def collect : RowValues → Except Fault (List Float)
  | pending evaluation => evaluation.values
  | ready values => .ok values

/-- The first `count` values, or all of them. -/
def draw : (count : Option Nat) → RowValues → Except Fault (List Float)
  | some count, values => values.take count
  | none, values => values.collect

theorem take_ready (count : Nat) (values : List Float) :
    (ready values).take count = .ok (values.take count) := by
  induction count generalizing values with
  | zero => rfl
  | succ count ih =>
    cases values with
    | nil => rfl
    | cons value rest =>
      simp only [take, next, ih]
      rfl

/-- Values that are there are drawn without faults. -/
theorem draw_ready (count : Option Nat) (values : List Float) :
    (ready values).draw count = .ok (count.elim values values.take) := by
  cases count with
  | none => rfl
  | some count => exact take_ready count values

end RowValues

/-- The values of a formula, to be drawn while the program runs. -/
def ScalarInterpreter.rowValues (interpreter : ScalarInterpreter) (formula : Formula)
    (data : Dataset) (rows : Rows) : Except Failure RowValues × ScalarInterpreter :=
  match interpreter.open? formula data rows with
  | .error cause => (.error (.error cause), interpreter)
  | .ok (evaluation, interpreter) => (.ok (.pending evaluation), interpreter)

/-- The values of a formula, which have all been computed. -/
def BatchInterpreter.rowValues (interpreter : BatchInterpreter) (formula : Formula)
    (data : Dataset) (rows : Rows) : Except Failure RowValues × BatchInterpreter :=
  let (values, interpreter) := interpreter.evaluate formula data rows
  (values.map .ready, interpreter)

/-- What gives the values of formulas and counts its evaluations. -/
class Interpreter (ι : Type) where
  /-- The values of a formula at the rows. -/
  values : ι → Formula → Dataset → Rows → Except Failure RowValues × ι
  /-- The evaluations started since the last reset. -/
  evaluated : ι → Nat

namespace Interpreter

instance : Interpreter ScalarInterpreter where
  values := ScalarInterpreter.rowValues
  evaluated := ScalarInterpreter.evaluated

instance : Interpreter BatchInterpreter where
  values := BatchInterpreter.rowValues
  evaluated := BatchInterpreter.evaluated

/-- The first `count` values of a formula, or all of them. -/
def draw {ι : Type} [Interpreter ι] (interpreter : ι) (formula : Formula) (data : Dataset)
    (rows : Rows) (count : Option Nat) : Except Failure (List Float) × ι :=
  let (values, interpreter) := values interpreter formula data rows
  (values.bind fun values => (values.draw count).mapError .fault, interpreter)

variable (formula : Formula) (data : Dataset) (rows : Rows)

theorem values_scalar (scalar : ScalarInterpreter) :
    values scalar formula data rows = scalar.rowValues formula data rows := rfl

theorem values_batch (batch : BatchInterpreter) :
    values batch formula data rows = batch.rowValues formula data rows := rfl

theorem draw_batch (batch : BatchInterpreter) (count : Option Nat) :
    draw batch formula data rows count =
      ((batch.evaluate formula data rows).1.map fun values => count.elim values values.take,
        (batch.evaluate formula data rows).2) := by
  rw [draw, values_batch, BatchInterpreter.rowValues]
  rcases batch.evaluate formula data rows with ⟨result, after⟩
  cases result with
  | error cause => rfl
  | ok values =>
    simp only [Except.map, Except.bind, RowValues.draw_ready]
    rfl

end Interpreter

end FormulaEngine
