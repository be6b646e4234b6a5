import FormulaEngine.Error
import FormulaEngine.Formula
import FormulaEngine.Program

/-!
# Compilation

Turns a formula into a program. The main body is emitted in prefix order, then every function body
in the order of definition; at last the calls get the addresses of the functions that they name.
Hooks see every instruction right before it is appended and may change it. The calls are resolved
by the changed opcodes.

- `Node.checkChildren`: what every interpreter demands of the children of a node;
- `Formula.definitions`: the functions, if each has a body and none is defined twice;
- `Draft.emit`: appends the instructions of a subtree;
- `Instruction.resolve`: sets the target of a call;
- `Formula.compile`: all of it.
-/

namespace FormulaEngine

/-- Changes an instruction before it is appended. -/
abbrev Hook := Instruction → Instruction

/-- A hook in table form: what to put into the instructions that have the opcode `source`. -/
structure Replacement where
  source : Opcode
  opcode : Option Opcode := none
  argCount : Option Nat := none
  target : Option Nat := none

/-- Replaces the parts that are given and keeps the others. -/
def Replacement.hook (replacement : Replacement) : Hook := fun i =>
  if i.opcode = replacement.source then
    { i with
      opcode := replacement.opcode.getD i.opcode
      argCount := replacement.argCount.getD i.argCount
      target := replacement.target.or i.target }
  else i

/-! ## Checks -/

/-- The opcode of a node, or the error that its symbol has none. -/
def Node.opcode (node : Node) : Except EvalError Opcode :=
  match node.symbol.opcode? with
  | some opcode => .ok opcode
  | none => .error (.unsupportedSymbol node.symbol.name)

/-- The number of children, if instructions can count them and the opcode accepts as many. -/
def Node.checkChildren (node : Node) (opcode : Opcode) : Except EvalError Nat :=
  let count := node.children.length
  if addressLimit < count then .error (.tooManyChildren node.symbol.name count)
  else if opcode.arity.accepts count then .ok count
  else .error (.malformedTree (.childCount node.symbol.name count))

/-- Adds functions to those `defined` so far, the last one first. Each needs a body and a name of
its own. -/
def Formula.define (defined : List (String × Node)) :
    List (String × Option Node) → Except EvalError (List (String × Node))
  | [] => .ok defined.reverse
  | (name, none) :: _ => .error (.malformedTree (.functionWithoutBody name))
  | (name, some body) :: rest =>
    if defined.any (·.1 == name) then .error (.malformedTree (.functionDefinedTwice name))
    else define ((name, body) :: defined) rest

/-- The functions of the formula with their bodies, in the order of definition. -/
def Formula.definitions (formula : Formula) : Except EvalError (List (String × Node)) :=
  define [] formula.functions

/-! ## Emission -/

/-- A program under construction. -/
structure Draft where
  code : Array Instruction := #[]
  entryPoints : List (String × Nat) := []
  callStackSize : Nat := 0

namespace Draft

/-- Appends the instruction of one node. `required` is the number of instructions that the whole
formula needs. A call needs room for its arguments and the mark of its frame. -/
def append (hooks : List Hook) (required : Nat) (draft : Draft) (node : Node) :
    Except EvalError Draft := do
  let opcode ← node.opcode
  let argCount ← node.checkChildren opcode
  if addressLimit ≤ draft.code.size then
    throw (.programTooLong required)
  let instruction := hooks.foldl (fun i hook => hook i) { node, opcode, argCount }
  return { draft with
    code := draft.code.push instruction
    callStackSize := draft.callStackSize + if opcode = .call then argCount + 1 else 0 }

/-- Appends the instructions of a subtree in prefix order. -/
def emit (hooks : List Hook) (required : Nat) (draft : Draft) (root : Node) :
    Except EvalError Draft :=
  root.prefixOrder.foldlM (append hooks required) draft

/-- Appends a function. Its address is the length of the code before it, which `append` keeps within
the limit of addresses. -/
def emitFunction (hooks : List Hook) (required : Nat) (draft : Draft) (function : String × Node) :
    Except EvalError Draft :=
  emit hooks required
    { draft with entryPoints := draft.entryPoints ++ [(function.1, draft.code.size)] } function.2

end Draft

/-! ## Calls -/

/-- Points a call at the function that its node names. -/
def Instruction.resolve (entryPoints : List (String × Nat)) (i : Instruction) :
    Except EvalError Instruction :=
  if i.opcode = .call then
    match i.node.symbol with
    | .call function =>
      match entryPoints.lookup function with
      | some address => .ok { i with target := some address }
      | none => .error (.unresolvedFunction function)
    | symbol => .error (.malformedTree (.callInstruction symbol.name))
  else .ok i

/-- Compiles a formula. The first check that fails decides the error. -/
def Formula.compile (hooks : List Hook) (formula : Formula) : Except EvalError Program := do
  let some body := formula.body? | throw (.malformedTree .noBody)
  let functions ← formula.definitions
  let required := body.count + Node.countAll (functions.map (·.2))
  let main ← Draft.emit hooks required {} body
  let draft ← functions.foldlM (Draft.emitFunction hooks required) main
  let code ← draft.code.mapM (Instruction.resolve draft.entryPoints)
  return {
    code
    entryPoints := draft.entryPoints
    bodyLength := main.code.size
    callStackSize := draft.callStackSize }

end FormulaEngine
