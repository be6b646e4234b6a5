import FormulaEngine.Batch
import FormulaEngine.Scalar

/-!
# Populations

Evaluates many formulas on the same rows of one dataset. A formula that a batch can run goes to the
batch interpreter, every other one to the scalar interpreter. The results stand in the order of the
formulas, and a formula that is refused gives its error without touching the others. But a formula
that stops with a fault takes the whole call with it, and there are no results at all.

- `Entry`: what stands for a formula in the results;
- `Worker.evaluatePopulation`: one worker evaluates all formulas;
- `Crew.evaluatePopulation`: several workers share them, each with a batch interpreter of its own.
-/

namespace FormulaEngine

/-- What stands for a formula in the results: its values, or the error for which it was refused. -/
abbrev Entry := Except EvalError (List Float)

/-- The entry that comes of an evaluation, unless it has stopped. -/
def Entry.ofResult : Except Failure (List Float) → Except Fault Entry
  | .ok values => .ok (.ok values)
  | .error (.error cause) => .ok (.error cause)
  | .error (.fault cause) => .error cause

/-- The two interpreters that one worker uses. -/
structure Worker where
  scalar : ScalarInterpreter := {}
  batch : BatchInterpreter := {}

namespace Worker

/-- The values of one formula, by the interpreter that is meant for it. -/
def evaluate (worker : Worker) (data : Dataset) (rows : Rows) (formula : Formula) :
    Except Failure (List Float) × Worker :=
  if formula.isBatchEligible then
    let (result, batch) := worker.batch.evaluate formula data rows
    (result, { worker with batch })
  else
    let (result, scalar) := worker.scalar.evaluate formula data rows
    (result, { worker with scalar })

/-- The entries of all formulas, in their order, unless one of them stops. -/
def evaluatePopulation (worker : Worker) (data : Dataset) (rows : Rows) :
    List Formula → Except Fault (List Entry × Worker)
  | [] => return ([], worker)
  | formula :: rest => do
    let (result, worker) := worker.evaluate data rows formula
    let entry ← Entry.ofResult result
    let (entries, worker) ← evaluatePopulation worker data rows rest
    return (entry :: entries, worker)

end Worker

/-! ## Several workers -/

/-- The evaluation of one formula by one of the workers. -/
structure Task where
  worker : Nat
  /-- The position of the formula in the population. -/
  position : Nat

/-- Workers that share a scalar interpreter. Each has a batch interpreter of its own. -/
structure Crew where
  scalar : ScalarInterpreter
  batches : Nat → BatchInterpreter

/-- Workers and what they have found so far: for every formula its entry or nothing yet. -/
structure Crew.Progress where
  crew : Crew
  entries : List (Option Entry)

namespace Crew

/-- The interpreters that a worker uses. -/
def worker (crew : Crew) (index : Nat) : Worker where
  scalar := crew.scalar
  batch := crew.batches index

/-- A worker leaves its interpreters as it has used them. -/
def putBack (crew : Crew) (index : Nat) (worker : Worker) : Crew where
  scalar := worker.scalar
  batches other := if other = index then worker.batch else crew.batches other

/-- Carries out a task. The entry is put where the formula stands in the population; if there is none
the whole call stops. The evaluation is a single event here: of what the workers share it changes
nothing but the counter, and that at most once. -/
def perform (data : Dataset) (rows : Rows) (population : List Formula) (progress : Progress)
    (task : Task) : Except Fault Progress :=
  match population[task.position]? with
  | none => return progress
  | some formula => do
    let (result, worker) := (progress.crew.worker task.worker).evaluate data rows formula
    let entry ← Entry.ofResult result
    return {
      crew := progress.crew.putBack task.worker worker
      entries := progress.entries.set task.position (some entry) }

/-- The entries when the tasks have been carried out, in the order in which the workers come to
them, unless one of them stops. -/
def evaluatePopulation (crew : Crew) (data : Dataset) (rows : Rows) (population : List Formula)
    (tasks : List Task) : Except Fault Progress :=
  tasks.foldlM (perform data rows population)
    { crew, entries := List.replicate population.length none }

end Crew

end FormulaEngine
