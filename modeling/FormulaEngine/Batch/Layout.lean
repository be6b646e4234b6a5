import FormulaEngine.Batch.ColumnCache
import FormulaEngine.Batch.Lanes
import FormulaEngine.Compilation

/-!
# Batch layout

Lays the main body of a formula out level by level. The children of an instruction then stand next
to each other, behind it, and every instruction has a buffer with a lane for each row of a batch.

    position:      0        1        2       3       4
                 [Add]    [Mul]    [2.0]    [x]     [y]
    children at    1        3

- `Node.layout`: the instructions of a body, over the columns of a cache;
- `Formula.isBatchEligible`: whether a batch can run every node of the main body.
-/

namespace FormulaEngine

/-- One node of the body with its lanes. -/
structure BatchInstruction where
  opcode : Opcode
  kernel : Kernel
  argCount : Nat
  /-- The position of the first child; the others follow it. Without children it is zero. -/
  childIndex : Nat
  /-- The weight of a variable. -/
  weight : Float
  /-- The column of a variable, nothing if the variable is missing. -/
  column : Option (Array Float)
  /-- The values of a batch, one lane for each row. -/
  buffer : List Float

/-- A layout under construction. -/
structure BatchDraft where
  code : Array BatchInstruction := #[]
  /-- Where the children of the next node with children will stand. -/
  nextChild : Nat := 1

/-- The kernel of an opcode, or the error that a batch cannot run it. -/
def Opcode.kernel (op : Opcode) : Except EvalError Kernel :=
  match op.kernel? with
  | some kernel => .ok kernel
  | none => .error (.unsupportedBatchOpcode op)

/-- The weight that an instruction applies to its column. -/
def Symbol.batchWeight : Symbol → Float
  | .numericVariable _ weight => weight
  | _ => 1.0

/-- The column that an instruction loads. -/
def Symbol.batchColumn (cache : ColumnCache) : Symbol → Option (Array Float)
  | .numericVariable name _ => cache.get? name
  | _ => none

/-- The number that fills a new buffer. -/
def Symbol.batchFill : Symbol → Float
  | .constant value => value
  | _ => 0.0

/-- A new buffer. -/
def filledBuffer (batchSize : Nat) (value : Float) : Except Fault (List Float) :=
  if batchSize ≤ storageLimit then .ok (List.replicate batchSize value) else .error .outOfStorage

/-- The opcode, the kernel and the number of operands of the next node, if a batch can run it there.
`required` is the number of nodes of the body. -/
def BatchDraft.accept (required : Nat) (draft : BatchDraft) (node : Node) :
    Except EvalError (Opcode × Kernel × Nat) := do
  let opcode ← node.opcode
  let kernel ← opcode.kernel
  let argCount ← node.checkChildren opcode
  if addressLimit ≤ draft.code.size then
    throw (.programTooLong required)
  return (opcode, kernel, argCount)

/-- Appends one node. `required` is the number of nodes of the body. -/
def BatchDraft.append (cache : ColumnCache) (batchSize required : Nat) (draft : BatchDraft)
    (node : Node) : Except Failure BatchDraft := do
  let (opcode, kernel, argCount) ← (draft.accept required node).mapError .error
  let buffer ← (filledBuffer batchSize node.symbol.batchFill).mapError .fault
  let instruction : BatchInstruction := {
    opcode, kernel, argCount, buffer
    childIndex := if 0 < argCount then draft.nextChild else 0
    weight := node.symbol.batchWeight
    column := node.symbol.batchColumn cache }
  return { code := draft.code.push instruction, nextChild := draft.nextChild + argCount }

/-- The instructions of a body, level by level. -/
def Node.layout (body : Node) (cache : ColumnCache) (batchSize : Nat) :
    Except Failure (Array BatchInstruction) := do
  let draft ← body.breadthOrder.foldlM (BatchDraft.append cache batchSize body.count) {}
  return draft.code

/-- Whether a batch can run a node. -/
def Node.isBatchNode (node : Node) : Bool :=
  match node.symbol.opcode? with
  | some opcode => opcode.isBatchSupported
  | none => false

/-- Whether a batch can run every node of the main body. -/
def Formula.isBatchEligible (formula : Formula) : Bool :=
  match formula.body? with
  | some body => body.prefixOrder.all Node.isBatchNode
  | none => false

end FormulaEngine
