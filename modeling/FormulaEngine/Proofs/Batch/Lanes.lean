import FormulaEngine.Batch.Lanes
import FormulaEngine.Proofs.Meaning

/-!
# Lanes are independent

Operations on lanes take four lanes at a time and the rest one by one. What they make of a lane does
not depend on the others, whatever the number of lanes, and it is what the symbol means for one row.

- `unaryLanes_eq_map`, `binaryLanes_eq_zipWith`: groups of four make no difference;
- `Kernel.combined?`: what a kernel makes of the lanes of the operands;
- `Kernel.Pointwise`: every lane is combined on its own;
- `Symbol.kernel_pointwise`: the kernel of a symbol combines every lane as the symbol means.
-/

namespace FormulaEngine

open Meaning

section Groups

variable {α : Type}

/-- An operation on four lanes that works on each of them may be replaced by the one on single
lanes. -/
theorem unaryLanes_eq_map {quad : Quad α → Quad α} {single : α → α}
    (hquad : ∀ lanes, quad lanes = lanes.map single) (lanes : List α) :
    unaryLanes quad single lanes = lanes.map single := by
  fun_induction unaryLanes quad single lanes with
  | case1 a b c d rest ih =>
    rw [ih, hquad]
    rfl
  | case2 rest _ => rfl

theorem zipLanes_eq_zipWith (single : α → α → α) {target source : List α}
    (h : target.length = source.length) :
    zipLanes single target source = List.zipWith single target source := by
  induction target generalizing source with
  | nil => rfl
  | cons x target ih =>
    cases source with
    | nil => simp at h
    | cons y source =>
      have hrest : target.length = source.length := by simpa using h
      rw [zipLanes, ih hrest, List.zipWith_cons_cons]

theorem binaryLanes_eq_zipWith {quad : Quad α → Quad α → Quad α} {single : α → α → α}
    (hquad : ∀ target source, quad target source = target.zipWith single source)
    {target source : List α} (h : target.length = source.length) :
    binaryLanes quad single target source = List.zipWith single target source := by
  fun_induction binaryLanes quad single target source with
  | case1 a b c d target e f g i source ih =>
    have hrest : target.length = source.length := by simpa using h
    rw [ih hrest, hquad]
    rfl
  | case2 target source _ => exact zipLanes_eq_zipWith single h

end Groups

/-! ## Kernels -/

namespace Kernel

/-- What a kernel makes of the lanes of the operands. Kernels that do not look at operands, and
kernels with too few of them, make nothing. -/
def combined? : Kernel → (operands : List (List Float)) → Option (List Float)
  | .mapped change, first :: _ => some (change first)
  | .paired combine, first :: second :: _ => some (combine first second)
  | .folded lone _, [first] => some (lone first)
  | .folded _ combine, first :: rest => some (rest.foldl combine first)
  | _, _ => none

/-- With as many operands as the arity accepts, the kernel combines the lanes of every row on their
own. -/
def Pointwise (kernel : Kernel) (arity : Arity) (combine : List Float → Float) : Prop :=
  ∀ (rows : List Nat) (operands : List (Nat → Float)), arity.accepts operands.length = true →
    kernel.combined? (operands.map fun operand => rows.map operand) =
      some (rows.map fun row => combine (operands.map (· row)))

theorem mapped_pointwise {change : List Float → List Float} {f : Float → Float}
    (hchange : ∀ lanes, change lanes = lanes.map f) :
    (Kernel.mapped change).Pointwise (.exactly 1) (unary f) := by
  intro rows operands harity
  obtain ⟨x, rfl⟩ := List.length_eq_one_iff.mp (of_decide_eq_true harity)
  show some (change (rows.map x)) = some (rows.map fun row => f (x row))
  rw [hchange, List.map_map]
  rfl

theorem paired_pointwise {combine : List Float → List Float → List Float}
    {f : Float → Float → Float}
    (hcombine : ∀ target source : List Float, target.length = source.length →
      combine target source = List.zipWith f target source) :
    (Kernel.paired combine).Pointwise (.exactly 2) (binary f) := by
  intro rows operands harity
  have hlen : operands.length = 2 := of_decide_eq_true harity
  match operands with
  | [x, y] =>
    show some (combine (rows.map x) (rows.map y)) = some (rows.map fun row => f (x row) (y row))
    rw [hcombine _ _ (by simp), List.zipWith_map, List.zipWith_self]

/-- Operands that are combined from left to right are combined so in every lane. -/
theorem foldl_lanes {combine : List Float → List Float → List Float} {f : Float → Float → Float}
    (hcombine : ∀ target source : List Float, target.length = source.length →
      combine target source = List.zipWith f target source)
    (rows : List Nat) (first : Nat → Float) (rest : List (Nat → Float)) :
    (rest.map fun operand => rows.map operand).foldl combine (rows.map first) =
      rows.map fun row => (rest.map (· row)).foldl f (first row) := by
  induction rest generalizing first with
  | nil => rfl
  | cons next rest ih =>
    have hnext : combine (rows.map first) (rows.map next) =
        rows.map fun row => f (first row) (next row) := by
      rw [hcombine _ _ (by simp), List.zipWith_map, List.zipWith_self]
    rw [List.map_cons, List.foldl_cons, hnext, ih]
    rfl

theorem folded_pointwise {lone : List Float → List Float}
    {combine : List Float → List Float → List Float} {f : Float → Float → Float}
    {single : Float → Float} (hlone : ∀ lanes, lone lanes = lanes.map single)
    (hcombine : ∀ target source : List Float, target.length = source.length →
      combine target source = List.zipWith f target source) :
    (Kernel.folded lone combine).Pointwise (.atLeast 1) (Meaning.folded f single) := by
  intro rows operands harity
  have hlen : 1 ≤ operands.length := of_decide_eq_true harity
  match operands with
  | [x] =>
    show some (lone (rows.map x)) = some (rows.map fun row => single (x row))
    rw [hlone, List.map_map]
    rfl
  | x :: y :: rest => exact congrArg some (foldl_lanes hcombine rows x (y :: rest))

theorem vector_pointwise (f : Float → Float) : (vector f).Pointwise (.exactly 1) (unary f) :=
  mapped_pointwise (unaryLanes_eq_map fun _ => rfl)

theorem each_pointwise (f : Float → Float) : (each f).Pointwise (.exactly 1) (unary f) :=
  mapped_pointwise fun _ => rfl

theorem eachPair_pointwise (f : Float → Float → Float) :
    (eachPair f).Pointwise (.exactly 2) (binary f) :=
  paired_pointwise fun _ _ => zipLanes_eq_zipWith f

theorem arithmetic_pointwise {lone : List Float → List Float} (f : Float → Float → Float)
    {single : Float → Float} (hlone : ∀ lanes, lone lanes = lanes.map single) :
    (arithmetic lone f).Pointwise (.atLeast 1) (Meaning.folded f single) :=
  folded_pointwise hlone fun _ _ => binaryLanes_eq_zipWith fun _ _ => rfl

end Kernel

/-- The kernel of a symbol that combines all operands combines every lane as the symbol means. -/
theorem Symbol.kernel_pointwise {symbol : Symbol} {op : Opcode} {kernel : Kernel}
    {combine : List Float → Float} (hop : symbol.opcode? = some op)
    (hkernel : op.kernel? = some kernel) (hcombine : symbol.combine? = some combine) :
    kernel.Pointwise op.arity combine := by
  have hid : ∀ lanes : List Float, id lanes = lanes.map id := fun lanes => (List.map_id lanes).symm
  cases symbol <;> cases hop <;> cases hkernel <;> cases hcombine <;>
    first
    | exact Kernel.vector_pointwise _
    | exact Kernel.each_pointwise _
    | exact Kernel.eachPair_pointwise _
    | exact Kernel.arithmetic_pointwise _ hid
    | exact Kernel.arithmetic_pointwise _ fun _ => rfl
    | exact Kernel.arithmetic_pointwise _ (unaryLanes_eq_map fun _ => rfl)
    | exact Kernel.paired_pointwise fun _ _ => binaryLanes_eq_zipWith fun _ _ => rfl
    | exact Kernel.mapped_pointwise hid

end FormulaEngine
