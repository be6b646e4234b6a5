import FormulaEngine.Batch.Layout
import FormulaEngine.Rows

/-!
# Chunks

Evaluates one chunk of rows on a layout: every instruction from the last to the first, so that
children come before their parents. A chunk may have fewer rows than the buffers have lanes; the
lanes behind stay as they are.

- `Rows.window`: the rows at consecutive positions;
- `BatchInstruction.lanes`: the new lanes of one instruction;
- `evaluateChunk`: all instructions.
-/

namespace FormulaEngine

/-- The rows at `count` positions from `offset` on. -/
def Rows.window (offset count : Nat) : Rows → Except Fault (List Nat)
  | .indices rows =>
    let found := (rows.drop offset).take count
    if found.length = count then .ok found else .error .outOfBounds
  | .range start stop =>
    if count = 0 ∨ offset + count ≤ stop - start then .ok (List.range' (start + offset) count)
    else .error .rowPosition

/-- The first `count` lanes of an instruction. -/
def BatchInstruction.front (i : BatchInstruction) (count : Nat) : Except Fault (List Float) :=
  if count ≤ i.buffer.length then .ok (i.buffer.take count) else .error .outOfBounds

/-- The lanes of a variable at the given rows, NaN where the column has no such row. -/
def loadLanes (column : Option (Array Float)) (weight : Float) (rows : Rows) (offset count : Nat) :
    Except Fault (List Float) :=
  match column with
  | none => .ok (List.replicate count nan)
  | some column => do
    let rows ← rows.window offset count
    return rows.map fun row =>
      match column[row]? with
      | some value => value * weight
      | none => nan

/-- The instructions at the positions of the children of instruction `i`. Children stand behind
their parent. -/
def childrenOf (code : Array BatchInstruction) (position : Nat) (i : BatchInstruction) :
    Except Fault (List BatchInstruction) :=
  if i.argCount = 0 then .ok []
  else if position < i.childIndex ∧ i.childIndex + i.argCount ≤ code.size then
    .ok (code.extract i.childIndex (i.childIndex + i.argCount)).toList
  else .error .outOfBounds

/-- The new first `count` lanes of an instruction, from the lanes of its children. -/
def BatchInstruction.lanes (i : BatchInstruction) (children : List BatchInstruction) (rows : Rows)
    (offset count : Nat) : Except Fault (List Float) := do
  match i.kernel, children with
  | .filled, _ => i.front count
  | .loaded, _ => loadLanes i.column i.weight rows offset count
  | .mapped change, first :: _ => return change (← first.front count)
  | .paired combine, first :: second :: _ =>
    return combine (← first.front count) (← second.front count)
  | .folded lone _, [first] => return lone (← first.front count)
  | .folded _ combine, first :: rest =>
    rest.foldlM (fun lanes child => return combine lanes (← child.front count))
      (← first.front count)
  | _, _ => throw .outOfBounds

/-- Evaluates the instruction at one position. -/
def evaluatePosition (rows : Rows) (offset count : Nat) (code : Array BatchInstruction)
    (position : Nat) : Except Fault (Array BatchInstruction) :=
  match code[position]? with
  | none => .error .outOfBounds
  | some i => do
    let _ ← i.front count
    let children ← childrenOf code position i
    let lanes ← i.lanes children rows offset count
    return code.setIfInBounds position { i with buffer := lanes ++ i.buffer.drop count }

/-- Evaluates the instructions at the positions below `stop`, the last one first. -/
def evaluateBelow (rows : Rows) (offset count : Nat) :
    (stop : Nat) → Array BatchInstruction → Except Fault (Array BatchInstruction)
  | 0, code => .ok code
  | stop + 1, code => do
    let code ← evaluatePosition rows offset count code stop
    evaluateBelow rows offset count stop code

/-- Evaluates `count` rows from position `offset` of the selection on. -/
def evaluateChunk (rows : Rows) (offset count : Nat) (code : Array BatchInstruction) :
    Except Fault (Array BatchInstruction) :=
  evaluateBelow rows offset count code.size code

end FormulaEngine
