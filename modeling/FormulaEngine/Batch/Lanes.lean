import FormulaEngine.Arithmetic
import FormulaEngine.Opcode

/-!
# Lanes

A batch computes many values of one instruction at once. The values stand in lanes; operations take
four lanes at a time as long as there are four, and single lanes after that.

- `unaryLanes`, `binaryLanes`: an operation on all lanes, given on four lanes and on one;
- `Kernel`: what an instruction does to the lanes of its operands;
- `Opcode.kernel?`: the kernels, for the opcodes that a batch can run.
-/

namespace FormulaEngine

/-- Four neighbouring lanes. -/
structure Quad (α : Type) where
  a : α
  b : α
  c : α
  d : α
deriving DecidableEq

namespace Quad

variable {α : Type}

/-- Applies an operation to each of the four lanes. -/
def map (f : α → α) (x : Quad α) : Quad α := ⟨f x.a, f x.b, f x.c, f x.d⟩

/-- Applies an operation to each pair of lanes. -/
def zipWith (f : α → α → α) (x y : Quad α) : Quad α :=
  ⟨f x.a y.a, f x.b y.b, f x.c y.c, f x.d y.d⟩

/-- The lanes before others. -/
def append (x : Quad α) (rest : List α) : List α := x.a :: x.b :: x.c :: x.d :: rest

end Quad

variable {α : Type}

/-- Applies `quad` to groups of four lanes and `single` to the lanes that are left. -/
def unaryLanes (quad : Quad α → Quad α) (single : α → α) : List α → List α
  | a :: b :: c :: d :: rest => (quad ⟨a, b, c, d⟩).append (unaryLanes quad single rest)
  | rest => rest.map single

/-- Combines the lanes of `target` with those of `source`, lane by lane. Lanes without a partner
stay. -/
def zipLanes (single : α → α → α) : (target source : List α) → List α
  | x :: target, y :: source => single x y :: zipLanes single target source
  | target, _ => target

/-- Combines the lanes of `target` with those of `source`, groups of four by `quad` and the lanes
that are left by `single`. -/
def binaryLanes (quad : Quad α → Quad α → Quad α) (single : α → α → α) :
    (target source : List α) → List α
  | a :: b :: c :: d :: target, e :: f :: g :: h :: source =>
    (quad ⟨a, b, c, d⟩ ⟨e, f, g, h⟩).append (binaryLanes quad single target source)
  | target, source => zipLanes single target source

/-- What an instruction does to lanes. -/
inductive Kernel where
  /-- The lanes were filled in advance and stay. -/
  | filled
  /-- The lanes are loaded from a column. -/
  | loaded
  /-- The lanes of the first operand, changed. -/
  | mapped (change : List Float → List Float)
  /-- The lanes of the first operand, combined with those of the second. -/
  | paired (combine : List Float → List Float → List Float)
  /-- The lanes of the first operand, combined with those of the others from left to right; a lone
  operand is changed by `lone`. -/
  | folded (lone : List Float → List Float) (combine : List Float → List Float → List Float)

namespace Kernel

/-- A fold with an operation that runs on four lanes at once. -/
def arithmetic (lone : List Float → List Float) (f : Float → Float → Float) : Kernel :=
  .folded lone (binaryLanes (Quad.zipWith f) f)

/-- A change that runs on four lanes at once. -/
def vector (f : Float → Float) : Kernel := .mapped (unaryLanes (Quad.map f) f)

/-- A change that runs on single lanes. -/
def each (f : Float → Float) : Kernel := .mapped (List.map f)

/-- A combination that runs on single lanes. -/
def eachPair (f : Float → Float → Float) : Kernel := .paired (zipLanes f)

end Kernel

open Kernel in
/-- The kernel of an opcode that a batch can run. -/
def Opcode.kernel? : Opcode → Option Kernel
  | .constant => some .filled
  | .numericVariable => some .loaded
  | .add => some (arithmetic id (· + ·))
  | .sub => some (arithmetic (List.map (- ·)) (· - ·))
  | .mul => some (arithmetic id (· * ·))
  | .div => some (arithmetic
      (unaryLanes (Quad.map Arithmetic.reciprocal) Arithmetic.reciprocal) (· / ·))
  | .analyticQuotient => some (.paired
      (binaryLanes (Quad.zipWith Arithmetic.analyticQuotient) Arithmetic.analyticQuotient))
  | .power => some (eachPair Arithmetic.power)
  | .root => some (eachPair Arithmetic.root)
  | .square => some (vector Arithmetic.square)
  | .cube => some (vector Arithmetic.cube)
  | .squareRoot => some (vector Float.sqrt)
  | .absolute => some (vector Float.abs)
  | .cubeRoot => some (each Float.cbrt)
  | .exp => some (each Float.exp)
  | .log => some (each Float.log)
  | .sin => some (each Float.sin)
  | .cos => some (each Float.cos)
  | .tan => some (each Float.tan)
  | .tanh => some (each Float.tanh)
  | .subFunction => some (.mapped id)
  | _ => none

/-- Whether a batch can run the opcode. -/
def Opcode.isBatchSupported (op : Opcode) : Bool := op.kernel?.isSome

end FormulaEngine
