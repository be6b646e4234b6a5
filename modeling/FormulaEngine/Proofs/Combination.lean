import FormulaEngine.Opcode
import FormulaEngine.Operation
import FormulaEngine.Proofs.Meaning

/-!
# Operations that combine all operands

The table of operations and the meaning of symbols were written apart: the one goes by opcode and
argument count, the other by symbol and list of values. For symbols that evaluate all operands the
two agree on every number of operands that the opcode accepts.

- `Operation.Combines`: an operation runs all operands and joins the values in a given way;
- `Symbol.operation_combines`: so does the operation of every symbol with a `combine?`.
-/

namespace FormulaEngine

open Meaning

namespace Operation

/-- With as many operands as the arity accepts, the operation runs all of them and makes of the
values what `combine` makes of them. -/
def Combines (operation : Operation) (arity : Arity) (combine : List Float → Float) : Prop :=
  ∃ operands join, operation = .strict operands join ∧
    ∀ values : List Float, arity.accepts values.length = true →
      operands values.length = values.length ∧ join values.length values = combine values

theorem unary_combines (f : Float → Float) :
    (Operation.unary f).Combines (.exactly 1) (Meaning.unary f) := by
  refine ⟨_, _, rfl, fun values hvalues => ?_⟩
  have hlen : values.length = 1 := by simpa [Arity.accepts] using hvalues
  exact ⟨hlen.symm, rfl⟩

theorem binary_combines (f : Float → Float → Float) :
    (Operation.binary f).Combines (.exactly 2) (Meaning.binary f) := by
  refine ⟨_, _, rfl, fun values hvalues => ?_⟩
  have hlen : values.length = 2 := by simpa [Arity.accepts] using hvalues
  exact ⟨hlen.symm, rfl⟩

theorem folded_combines (f : Float → Float → Float) (single : Float → Float) :
    (Operation.folded f single).Combines (.atLeast 1) (Meaning.folded f single) := by
  refine ⟨_, _, rfl, fun values hvalues => ?_⟩
  have hlen : 1 ≤ values.length := by simpa [Arity.accepts] using hvalues
  refine ⟨Nat.max_eq_right hlen, ?_⟩
  match values with
  | [] => simp at hlen
  | [x] => rfl
  | x :: y :: rest => rfl

theorem mean_combines : Operation.mean.Combines (.atLeast 1) Meaning.mean := by
  refine ⟨_, _, rfl, fun values hvalues => ?_⟩
  have hlen : 1 ≤ values.length := by simpa [Arity.accepts] using hvalues
  refine ⟨Nat.max_eq_right hlen, ?_⟩
  cases values with
  | nil => simp at hlen
  | cons x rest => rfl

theorem parity_combines : Operation.parity.Combines (.atLeast 1) Meaning.parity :=
  ⟨_, _, rfl, fun _ _ => ⟨rfl, rfl⟩⟩

end Operation

namespace Symbol

variable {symbol : Symbol} {combine : List Float → Float}

/-- What the operation of an opcode makes of all operands is what the symbol means. -/
theorem operation_combines {op : Opcode} (hop : symbol.opcode? = some op)
    (h : symbol.combine? = some combine) : op.operation.Combines op.arity combine := by
  cases symbol <;> cases hop <;> cases h <;>
    first
    | exact Operation.unary_combines _
    | exact Operation.binary_combines _
    | exact Operation.folded_combines _ _
    | exact Operation.mean_combines
    | exact Operation.parity_combines

end Symbol

end FormulaEngine
