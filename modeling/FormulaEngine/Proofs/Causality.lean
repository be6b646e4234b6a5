import FormulaEngine.Proofs.Lockstep
import FormulaEngine.Proofs.Refusal

/-!
# Causality

A formula whose lags all lead to earlier rows does not see what comes later: where two datasets
agree up to a row, it has one value there, reached by one way through the code.

- `Formula.LooksBack`: no lag of a formula is positive;
- `Dataset.AgreesUpTo`: two datasets with the same variables, whose columns have the same cells up
  to a row;
- `Machine.Starts.cursor_le`: no operand is run at a later row than its instruction;
- `Machine.perform_agree`: up to the row, both machines do the same with an instruction;
- `Machine.run_agree`: so they run in lockstep;
- `Evaluation.evaluateRow_causal`: value and state are the same.

A slope is taken over rows before the cursor, so a derivative has no lag to restrict.
-/

namespace FormulaEngine

/-! ## Lags -/

/-- The lag that the symbol carries, if it carries one, does not lead to later rows. -/
def Symbol.LooksBack : Symbol → Prop
  | .timeLag lag | .integral lag | .laggedVariable _ _ lag => lag.toInt ≤ 0
  | _ => True

instance (symbol : Symbol) : Decidable symbol.LooksBack := by
  unfold Symbol.LooksBack
  split <;> infer_instance

/-- No lag in the main body or in the body of a function leads to later rows. -/
def Formula.LooksBack (formula : Formula) : Prop :=
  ∀ node ∈ Node.preorderAll formula.bodies, node.symbol.LooksBack

/-- An instruction that looks back runs its operand at no later row. -/
theorem BoundInstruction.Shifts.nonpos {i : BoundInstruction} {offset : Int} (h : i.Shifts offset)
    (hback : i.node.symbol.LooksBack) : offset ≤ 0 := by
  unfold Shifts at h
  split at h
  · next lag _ hsymbol =>
    rw [hsymbol] at hback
    rw [h]
    exact hback
  · next lag _ hsymbol =>
    rw [hsymbol] at hback
    obtain ⟨count, -, rfl⟩ := h
    exact Int.mul_nonpos_of_nonpos_of_nonneg (Int.sign_nonpos_iff.mpr hback) (Int.natCast_nonneg _)
  · omega
  · exact h.elim

/-! ## Data up to a row -/

/-- Columns of one kind with the same cells up to a row. -/
def Column.AgreesUpTo (row : Nat) : Column → Column → Prop
  | .numeric values, .numeric values' => ∀ k ≤ row, values[k]? = values'[k]?
  | .categorical values, .categorical values' => ∀ k ≤ row, values[k]? = values'[k]?
  | _, _ => False

/-- Datasets with the same number of rows and the same variables, whose columns agree up to a
row. -/
structure Dataset.AgreesUpTo (row : Nat) (data data' : Dataset) : Prop where
  rows : data.rows = data'.rows
  columns : ∀ name, Option.Rel (Column.AgreesUpTo row) (data.column? name) (data'.column? name)

/-- Data of instructions that agree up to a row: columns do, and what is no column is the same. -/
inductive Data.AgreesUpTo (row : Nat) : Data → Data → Prop where
  | none : AgreesUpTo row .none .none
  | numeric {values values' : Array Float} (cells : ∀ k ≤ row, values[k]? = values'[k]?) :
      AgreesUpTo row (.numeric values) (.numeric values')
  | categorical {values values' : Array String} (cells : ∀ k ≤ row, values[k]? = values'[k]?) :
      AgreesUpTo row (.categorical values) (.categorical values')
  | jump (target : Nat) : AgreesUpTo row (.jump target) (.jump target)
  | missing : AgreesUpTo row .missing .missing

section Binding

variable {row : Nat} {data data' : Dataset}

theorem Symbol.data_agree (hagree : data.AgreesUpTo row data') (symbol : Symbol)
    (categories : Bool) :
    Data.AgreesUpTo row (symbol.data categories data) (symbol.data categories data') := by
  unfold Symbol.data
  cases symbol.variableName? with
  | none => exact .missing
  | some name =>
    have hcolumns := hagree.columns name
    dsimp only
    generalize data.column? name = found at hcolumns ⊢
    generalize data'.column? name = found' at hcolumns ⊢
    rcases hcolumns with @⟨column, column', hcells⟩ | _
    · cases column <;> cases column' <;> cases categories
      case numeric.numeric.false => exact .numeric hcells
      case categorical.categorical.true => exact .categorical hcells
      case numeric.numeric.true | categorical.categorical.false => exact .missing
      all_goals exact hcells.elim
    · exact .missing

/-- Bound to datasets that agree, an instruction gets data that agree. -/
theorem Instruction.data_agree (hagree : data.AgreesUpTo row data') (i : Instruction) :
    Data.AgreesUpTo row (i.data data) (i.data data') := by
  unfold Instruction.data
  split
  · cases i.target with
    | none => exact .missing
    | some target => exact .jump target
  · split
    · exact i.node.symbol.data_agree hagree _
    · exact .none

end Binding

/-! ## Two machines -/

/-- The machine for a program on a dataset. -/
def Program.machineOn (program : Program) (maxCallDepth : Nat) (data : Dataset) : Machine where
  code := (program.bind data).code
  rows := data.rows
  maxCallDepth := maxCallDepth

/-- No instruction carries a lag that leads to later rows. -/
def Program.LooksBack (program : Program) : Prop :=
  ∀ i ∈ program.code, i.node.symbol.LooksBack

namespace Machine

/-- Operands and functions are run at no later row than the instruction that runs them. -/
theorem Starts.cursor_le {m : Machine} {i : BoundInstruction} {s t : State} (h : m.Starts i s t)
    (hback : i.node.symbol.LooksBack) : t.cursor ≤ s.cursor := by
  cases h with
  | operand => exact Int.le_refl _
  | shifted reached =>
    have hoffset := reached.nonpos hback
    show s.cursor + _ ≤ s.cursor
    omega
  | argument => exact Int.le_refl _
  | body => exact Int.le_refl _

variable {program : Program} {maxCallDepth row : Nat} {data data' : Dataset} {s : State}

theorem code_machineOn (pc : Nat) :
    (program.machineOn maxCallDepth data).code[pc]? =
      program.code[pc]?.map (Instruction.bind data) :=
  Array.getElem?_map

theorem skip_machineOn :
    (program.machineOn maxCallDepth data).skip = (program.machineOn maxCallDepth data').skip := by
  have hcounts : ∀ data, (program.machineOn maxCallDepth data).code.map BoundInstruction.argCount =
      program.code.map Instruction.argCount := fun data => Array.map_map
  exact skip_of_argCounts ((hcounts data).trans (hcounts data').symm)

section Cells

variable {α : Type} {column column' : Array α} (hrows : data.rows = data'.rows)
  (hcells : ∀ k ≤ row, column[k]? = column'[k]?)

include hrows hcells

theorem cell?_agree {cursor : Int} (hcursor : cursor ≤ row) :
    (program.machineOn maxCallDepth data).cell? column cursor =
      (program.machineOn maxCallDepth data').cell? column' cursor := by
  have hcell := hcells cursor.toNat (Int.toNat_le.mpr hcursor)
  show (if 0 ≤ cursor ∧ cursor < data.rows then column[cursor.toNat]? else none) =
    (if 0 ≤ cursor ∧ cursor < data'.rows then column'[cursor.toNat]? else none)
  rw [hrows, hcell]

theorem read_agree (hcursor : s.cursor ≤ row) :
    (program.machineOn maxCallDepth data).read column s =
      (program.machineOn maxCallDepth data').read column' s := by
  have hcell := hcells s.cursor.toNat (Int.toNat_le.mpr hcursor)
  unfold read
  rw [cell?_agree hrows hcells hcursor, hcell]

end Cells

/-- With the cursor at the row or before it, everything that an instruction reads is the same. -/
theorem readsAlike_of_agree (hrows : data.rows = data'.rows) {i : BoundInstruction} {found : Data}
    (hdata : Data.AgreesUpTo row i.data found) (hback : i.node.symbol.LooksBack)
    (hcursor : s.cursor ≤ row) :
    ReadsAlike (program.machineOn maxCallDepth data) (program.machineOn maxCallDepth data') i found
      s := by
  obtain ⟨node, opcode, argCount, bound⟩ := i
  constructor
  · cases hdata with
    | numeric hcells => exact read_agree hrows hcells hcursor
    | _ => rfl
  · intro weight
    cases hdata with
    | numeric hcells => exact bind_of_eq (read_agree hrows hcells hcursor) _
    | _ => rfl
  · intro name weight lag hsymbol
    rw [hsymbol] at hback
    have hlagged : s.cursor + lag.toInt ≤ row := by
      have hlag : lag.toInt ≤ 0 := hback
      omega
    cases hdata with
    | numeric hcells =>
      unfold weightedAt
      rw [get_bind, get_bind]
      dsimp only
      rw [cell?_agree hrows hcells hlagged]
    | _ => rfl
  · intro number
    cases hdata with
    | categorical hcells => exact bind_of_eq (read_agree hrows hcells hcursor) _
    | _ => rfl

section Runs

variable (hagree : data.AgreesUpTo row data') (hback : program.LooksBack)

include hagree hback

/-- At the row or before it, both machines do the same with an instruction, if the one ends its
operands as the other does wherever the cursor has not passed the row. -/
theorem perform_agree {self self' : Action Float}
    (hself : (program.machineOn maxCallDepth data).Balances .exact 1 self)
    (hoperands : ∀ t : State, t.cursor ≤ row → EndsAs t self self') {i : Instruction}
    (hi : i ∈ program.code) (hcursor : s.cursor ≤ row) :
    EndsAs s ((program.machineOn maxCallDepth data).perform self (i.bind data))
      ((program.machineOn maxCallDepth data').perform self' (i.bind data')) := by
  have hlooks : i.node.symbol.LooksBack := hback i hi
  have hsame : (program.machineOn maxCallDepth data).perform self' (i.bind data) s =
      (program.machineOn maxCallDepth data').perform self' (i.bind data') s := by
    refine perform_of_reads skip_machineOn
      (readsAlike_of_agree hagree.rows (i.data_agree hagree) hlooks hcursor) fun hcall => ?_
    -- the address of a function does not depend on the dataset
    have hopcode : i.opcode = .call := Opcode.eq_call hcall
    have hjump : i.data data = i.data data' := by
      unfold Instruction.data
      rw [if_pos hopcode, if_pos hopcode]
    rw [← hjump]
    rfl
  have hends : EndsAs s ((program.machineOn maxCallDepth data).perform self (i.bind data))
      ((program.machineOn maxCallDepth data).perform self' (i.bind data)) :=
    perform_endsAs_of_starts hself fun t ht =>
      hoperands t (Int.le_trans (ht.cursor_le hlooks) hcursor)
  intro outcome hrun
  rw [← hsame]
  exact hends outcome hrun

/-- From the row or before it both machines run alike, for any number of steps. -/
theorem run_agree (steps : Nat) (hcursor : s.cursor ≤ row) :
    EndsAs s ((program.machineOn maxCallDepth data).run steps)
      ((program.machineOn maxCallDepth data').run steps) := by
  induction steps generalizing s with
  | zero => exact EndsAs.refl s _
  | succ steps ih =>
    intro outcome hrun
    change Action.bind (fetch _) _ s = _ at hrun
    show Action.bind (fetch _) _ s = _
    unfold Action.bind fetch at hrun ⊢
    rw [code_machineOn] at hrun ⊢
    cases hfetch : program.code[s.pc]? with
    | none =>
      rw [hfetch] at hrun
      exact hrun
    | some i =>
      rw [hfetch] at hrun
      exact perform_agree (s := { s with pc := s.pc + 1, executed := s.executed + 1 }) hagree hback
        (balances_run _ steps) (fun t ht => ih ht) (Array.mem_of_getElem? hfetch) hcursor outcome
        hrun

/-- So they end alike. -/
theorem evaluate_agree (hcursor : s.cursor ≤ row) :
    (program.machineOn maxCallDepth data).evaluate s =
      (program.machineOn maxCallDepth data').evaluate s := by
  have hrun := (program.machineOn maxCallDepth data).run_stepBound s
  exact (evaluate_eq_of_run (run_agree hagree hback _ hcursor _ hrun)).symm

end Runs

end Machine

/-! ## Compiled formulas -/

/-- The program of a formula that looks back does so as well. -/
theorem Formula.LooksBack.program {formula : Formula} (h : formula.LooksBack) {program : Program}
    (hcompile : formula.compile [] = .ok program) : program.LooksBack := by
  obtain ⟨main, functions, hcompilable, rfl⟩ := Formula.compile_eq_ok.mp hcompile
  have hbodies := Formula.bodies_eq hcompilable.body_eq hcompilable.functions_eq
  intro i hi
  obtain ⟨node, hnode, rfl⟩ := List.mem_map.mp (List.mem_toArray.mp hi)
  refine h node ?_
  rw [hbodies]
  exact hnode

namespace Recall

theorem looksBack_formula : formula.LooksBack := by
  unfold Formula.LooksBack
  decide

/-- The numbers of `data`, and one more row behind them. -/
def longer (last : Float) : Dataset := ⟨1, true, 4, [("x", .numeric #[1.0, 2.0, 4.0, last])]⟩

theorem agreesUpTo_longer (last last' : Float) : (longer last).AgreesUpTo 2 (longer last') := by
  refine ⟨rfl, fun name => ?_⟩
  simp only [Dataset.column?, longer, List.lookup_cons]
  cases name == "x" with
  | false => exact .none
  | true =>
    refine .some fun k hk => ?_
    obtain rfl | rfl | rfl : k = 0 ∨ k = 1 ∨ k = 2 := by omega
    · simp
    · simp
    · simp

end Recall

namespace Evaluation

/-- On datasets that agree up to a row, a formula that looks back does the same at this row: it has
the same value and has run as many instructions. In a rectangular dataset there is a value. -/
theorem evaluateRow_causal {formula : Formula} {program : Program} {data data' : Dataset}
    {row : Nat} (hcompile : formula.compile [] = .ok program) (hback : formula.LooksBack)
    (hagree : data.AgreesUpTo row data') (maxCallDepth : Nat) (rows : Rows)
    (state : Machine.State) :
    AgreeAt row ⟨program.bind data, maxCallDepth, rows, state⟩
        ⟨program.bind data', maxCallDepth, rows, state⟩ ∧
      (data.Rectangular → ∃ value,
        (evaluateRow ⟨program.bind data, maxCallDepth, rows, state⟩ row).1 = .ok value) := by
  constructor
  · refine agreeAt_of_outcomeAt (outcomeAt_congr hagree.rows fun _ => ?_)
    exact Machine.evaluate_agree hagree (hback.program hcompile) (Int.le_refl _)
  · intro hdata
    obtain ⟨after, hdone⟩ := outcomeAt_eq hcompile hdata
      ⟨program.bind data, maxCallDepth, rows, state⟩ rfl row
    rw [evaluateRow_eq, hdone]
    exact ⟨_, rfl⟩

/-- At row two it makes no difference what stands in row three. -/
theorem evaluateRow_causal_recall :
    Recall.formula.compile [] = .ok Recall.program ∧ Recall.formula.LooksBack ∧
      (Recall.longer 8.0).AgreesUpTo 2 (Recall.longer 9.0) ∧
      AgreeAt 2 ⟨Recall.program.bind (Recall.longer 8.0), 3, .indices [], {}⟩
        ⟨Recall.program.bind (Recall.longer 9.0), 3, .indices [], {}⟩ := by
  have hagree := Recall.agreesUpTo_longer 8.0 9.0
  obtain ⟨hsame, -⟩ := evaluateRow_causal Recall.compile_formula Recall.looksBack_formula hagree 3
    (.indices []) {}
  exact ⟨Recall.compile_formula, Recall.looksBack_formula, hagree, hsame⟩

end Evaluation

end FormulaEngine
