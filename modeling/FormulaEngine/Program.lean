import FormulaEngine.Opcode
import FormulaEngine.Node

/-!
# Programs

A program is a linear sequence of instructions: the main body in prefix order, then the bodies of
the functions, each reached through calls only. The children of an instruction start right after it,
so a subtree is a stretch of consecutive instructions whose length follows from the argument counts.

- `Instruction`, `Program`: the compiled form of a formula;
- `spanLength?`: the length of the subtree that starts at an address, when the code holds all of it.
-/

namespace FormulaEngine

/-- One compiled node. The node stays at hand for what its symbol carries. -/
structure Instruction where
  node : Node
  opcode : Opcode
  /-- The number of operands that follow. -/
  argCount : Nat
  /-- The address that a call enters. -/
  target : Option Nat := none

/-- The main body followed by the bodies of the functions. -/
structure Program where
  code : Array Instruction
  /-- Names and addresses of the functions in the order of their definition. -/
  entryPoints : List (String × Nat)
  /-- The number of instructions of the main body. -/
  bodyLength : Nat
  /-- The stack that all calls together need when none is entered twice. -/
  callStackSize : Nat

/-- Walks over whole subtrees, `pending` of them, from address `i` on, for at most `left`
instructions. Gives the address after the last one, unless the code ends before. -/
def spanEnd? {α : Type} (argCount : α → Nat) (code : Array α) :
    (left pending i : Nat) → Option Nat
  | _, 0, i => some i
  | 0, _ + 1, _ => none
  | left + 1, pending + 1, i =>
    match code[i]? with
    | some instruction => spanEnd? argCount code left (pending + argCount instruction) (i + 1)
    | none => none

/-- The length of the subtree at address `i`. -/
def spanLength? {α : Type} (argCount : α → Nat) (code : Array α) (i : Nat) : Option Nat := do
  let instruction ← code[i]?
  let stop ← spanEnd? argCount code (code.size - i) (argCount instruction) (i + 1)
  return stop - i

namespace Program

/-- The number of instructions. -/
def size (program : Program) : Nat := program.code.size

/-- The address of the function called `name`. -/
def entryPoint? (program : Program) (name : String) : Option Nat := program.entryPoints.lookup name

/-- The length of the subtree at address `i`. -/
def subtreeLength? (program : Program) (i : Nat) : Option Nat :=
  spanLength? Instruction.argCount program.code i

end Program

end FormulaEngine
