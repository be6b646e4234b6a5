import FormulaEngine.Proofs.Instructions
import FormulaEngine.Scalar

/-!
# Correctness of evaluation

A compiled formula that is bound to a dataset and run at a row gives the meaning of the formula at
that row. The induction is on the steps that a run is allowed, since a call does not go to a smaller
subtree: the bound on steps falls from an instruction to its operands, and from a call to the body
of the function that it enters.

- `Machine.runWithin`: runs that are cut off at a state which is not allowed;
- `Machine.runWithin_evaluates`: a run gives every loaded subtree its value, and where it starts an
  instruction the cursor has not left the requested row unnoticed;
- `Machine.evaluate_subtree`: the outcome of a loaded subtree, wherever it is started;
- `Machine.evaluate_eq`: the outcome of the whole program, with the state that it leaves behind;
- `Formula.valueAt`: what a formula means at a row, if the rows of the dataset can be counted;
- `Evaluation.evaluateRow_eq_value`: the value at any row that is in range is the meaning of the
  formula;
- `Evaluation.evaluateRow_faultless`: there is a value at any row;
- `ScalarInterpreter.evaluate_eq_values`: without hooks, the scalar interpreter gives the values that
  a formula means at all rows.
-/

namespace FormulaEngine

namespace Machine

/-! ## Watched runs -/

/-- Runs the subtree at the program counter like `run`, but stays unfinished as soon as an
instruction is about to be fetched in a state that is not allowed. -/
def runWithin (m : Machine) (allowed : State → Prop) [DecidablePred allowed] :
    (steps : Nat) → Action Float
  | 0 => .unfinished
  | steps + 1 => fun s => if allowed s then m.step (runWithin m allowed steps) s else none

/-- Every instruction of the run from `s` is fetched in an allowed state: cutting the run off at
other states makes no difference. -/
def Always (m : Machine) (allowed : State → Prop) [DecidablePred allowed] (s : State) : Prop :=
  m.runWithin allowed (m.stepBound s.pc s.callDepth) s = m.run (m.stepBound s.pc s.callDepth) s

theorem runWithin_succ (m : Machine) {allowed : State → Prop} [DecidablePred allowed] {s : State}
    (h : allowed s) (steps : Nat) :
    m.runWithin allowed (steps + 1) s = m.step (m.runWithin allowed steps) s :=
  if_pos h

/-- Where every state is allowed no run is cut off. -/
theorem runWithin_true (m : Machine) (steps : Nat) :
    m.runWithin (fun _ => True) steps = m.run steps := by
  induction steps with
  | zero => rfl
  | succ steps ih =>
    funext s
    rw [runWithin_succ m trivial, ih, run]

/-! ## Runs of loaded subtrees -/

section Runs

variable {m : Machine} {entryPoints : List (String × Nat)} {data : Dataset} {formula : Formula}
  {body : Node} {row : Nat}

theorem fetch_eq {s : State} {i : BoundInstruction} (h : m.code[s.pc]? = some i) :
    m.fetch s = some (.done i (s.advance 1 1)) := by
  rw [fetch, h]
  rfl

/-- Where the machine is about to fetch: inside the code, and with the cursor at the requested row
unless a lag is under way. -/
def State.Steady (m : Machine) (row : Nat) (s : State) : Prop :=
  s.pc < m.code.size ∧ s.Anchored row

instance : DecidablePred (State.Steady m row) := fun s =>
  inferInstanceAs (Decidable (s.pc < m.code.size ∧ (s.lagged = false → s.cursor = row)))

/-- A steady state with a whole frame around it. -/
def State.Startable (m : Machine) (row : Nat) (s : State) : Prop :=
  State.Steady m row s ∧ s.stack.Framed

instance : DecidablePred (State.Startable m row) := fun s =>
  inferInstanceAs (Decidable (State.Steady m row s ∧ s.stack.Framed))

/-- Within the bound on steps every loaded subtree gets its value, and the run is never cut off if
all startable states are allowed. -/
theorem runWithin_evaluates (hloaded : m.Loaded formula data entryPoints body)
    {allowed : State → Prop} [DecidablePred allowed]
    (hallowed : ∀ s, State.Startable m row s → allowed s) (steps : Nat) :
    ∀ {p d : Nat} (arguments : List Float), m.stepBound p d ≤ steps →
      m.Evaluates entryPoints data (m.runWithin allowed steps) p d row
        (formula.scope data (m.maxCallDepth - d) arguments) := by
  induction steps with
  | zero =>
    intro p d arguments hsteps
    simp [stepBound] at hsteps
  | succ steps ih =>
    intro p d arguments hsteps node s hs hrow hholds
    obtain ⟨hfetch, hnode, hdefined, hoperands⟩ := hholds.root
    have hsize : s.pc < m.code.size := (Array.getElem?_eq_some_iff.mp hfetch).1
    -- operands stand behind the instruction that was fetched
    have hself : m.Evaluates entryPoints data (m.runWithin allowed steps) (s.pc + 1) d row
        (formula.scope data (m.maxCallDepth - d) arguments) := by
      refine ih arguments ?_
      have hpc := hs.within.1
      simp only [stepBound] at hsteps ⊢
      omega
    -- a body may start anywhere in the code, but one more function is running in it
    have hbody : d < m.maxCallDepth → ∀ target arguments, m.Evaluates entryPoints data
        (m.runWithin allowed steps) target (d + 1) row
        (formula.scope data (m.maxCallDepth - (d + 1)) arguments) := by
      intro hroom target arguments
      have henter := stepBound_enter m hroom p target
      exact ih arguments (by omega)
    have hready : State.Ready (s.pc + 1) d arguments (s.advance 1 1) :=
      ⟨⟨Nat.le_refl _, hs.within.2⟩, hs.frames⟩
    have hstartable : s.Startable m row := ⟨⟨hsize, hrow.anchored⟩, hs.frames.framed⟩
    rw [runWithin_succ m (hallowed s hstartable), step, bind_of_done (fetch_eq hfetch)]
    refine (perform_eq hloaded rfl hself hbody hready hrow hnode hdefined hoperands).trans ?_
    rw [State.advance_advance, Node.value_eq, Node.cost_eq, Node.count_eq]
    rfl

/-- The state in which a program has given its value at a row. -/
def State.finished (row instructions executed : Nat) : State where
  pc := instructions
  cursor := row
  executed := executed

variable {lagged : Bool}

theorem runWithin_eq (hloaded : m.Loaded formula data entryPoints body)
    (hrow : State.Grounded m data row { cursor := row, lagged }) (allowed : State → Prop)
    [DecidablePred allowed] (hallowed : ∀ s, State.Startable m row s → allowed s) :
    m.runWithin allowed (m.stepBound 0 0) { cursor := row, lagged } =
      some (.done (body.value (formula.scope data m.maxCallDepth []) row)
        { State.finished row body.count (body.cost (formula.scope data m.maxCallDepth []) row) with
          lagged }) := by
  have hready : State.Ready 0 0 [] { cursor := row, lagged } :=
    ⟨⟨Nat.le_refl 0, rfl⟩, Or.inl ⟨rfl, rfl⟩⟩
  rw [runWithin_evaluates hloaded hallowed _ [] (Nat.le_refl _) body _ hready hrow
    hloaded.body_holds]
  simp [State.advance, State.finished]

/-- Wherever a loaded subtree is started with a frame around it, its run ends with its meaning as the
value, as long as columns can be read. -/
theorem evaluate_subtree (hloaded : m.Loaded formula data entryPoints body) {node : Node}
    {arguments : List Float} {s : State} (hframes : s.stack.Frames arguments)
    (hrow : s.Grounded m data row) (hholds : m.Holds entryPoints data s.pc [node]) :
    m.evaluate s =
      .done (node.value (formula.scope data (m.maxCallDepth - s.callDepth) arguments) s.cursor)
        (s.advance node.count
          (node.cost (formula.scope data (m.maxCallDepth - s.callDepth) arguments) s.cursor)) := by
  have hready : s.Ready s.pc s.callDepth arguments := ⟨⟨Nat.le_refl _, rfl⟩, hframes⟩
  have hall : ∀ s : State, s.Startable m row → True := fun _ _ => trivial
  have hrun := runWithin_evaluates hloaded hall _ arguments (Nat.le_refl _) node s hready hrow hholds
  rw [runWithin_true] at hrun
  exact Option.get_of_eq_some _ hrun

/-- A loaded formula runs to its end wherever columns can be read, with its meaning as the value. -/
theorem evaluate_eq (hloaded : m.Loaded formula data entryPoints body)
    (hrow : State.Grounded m data row { cursor := row, lagged }) :
    m.evaluate { cursor := row, lagged } =
      .done (body.value (formula.scope data m.maxCallDepth []) row)
        { State.finished row body.count (body.cost (formula.scope data m.maxCallDepth []) row) with
          lagged } := by
  refine (evaluate_subtree hloaded (Or.inl ⟨rfl, rfl⟩) hrow hloaded.body_holds).trans ?_
  simp [State.advance, State.finished]

/-- If startable states are allowed, a loaded formula runs in allowed states only. -/
theorem always_of_startable (hloaded : m.Loaded formula data entryPoints body)
    (hdata : data.Rectangular) (hlt : row < m.rows) {allowed : State → Prop}
    [DecidablePred allowed] (hallowed : ∀ s, State.Startable m row s → allowed s) :
    m.Always allowed { cursor := row } := by
  have hrow : State.Grounded m data row { cursor := row } := fun _ => ⟨rfl, hlt, hdata⟩
  have hrun := runWithin_eq hloaded hrow (fun _ => True) fun _ _ => trivial
  rw [runWithin_true] at hrun
  exact (runWithin_eq hloaded hrow allowed hallowed).trans hrun.symm

/-- The program counter never leaves the code, and no instruction is fetched with the cursor away
from the requested row unless a lag is under way. -/
theorem always_steady (hloaded : m.Loaded formula data entryPoints body)
    (hdata : data.Rectangular) (hlt : row < m.rows) :
    m.Always (State.Steady m row) { cursor := row } :=
  always_of_startable hloaded hdata hlt fun _ h => h.1

end Runs

end Machine

/-! ## A formula that calls itself -/

namespace Recall

/-- Goes back row by row for as many rows as the argument says, and reads `x` there. -/
def back : Node :=
  ⟨.ifThenElse,
    [.leaf (.argument 0),
      ⟨.timeLag (-1), [⟨.call "back", [⟨.subtraction, [.leaf (.argument 0), .leaf (.constant 1.0)]⟩]⟩]⟩,
      .leaf (.numericVariable "x" 1.0)]⟩

def main : Node := ⟨.call "back", [.leaf (.constant 2.0)]⟩

def formula : Formula := .withFunctions main [("back", back)]

def data : Dataset := ⟨0, false, 3, [("x", .numeric #[1.0, 2.0, 4.0])]⟩

/-- The program that it compiles to. -/
def program : Program := Formula.programOf main [("back", back)]

theorem compile_formula : formula.compile [] = .ok program := by
  refine Formula.compile_eq_ok.mpr ⟨main, [("back", back)], ?_, rfl⟩
  constructor
  · rfl
  · rfl
  · decide
  · decide
  · decide
  · decide

theorem rectangular_data : data.Rectangular := by
  intro column hcolumn
  simp only [data, List.mem_singleton] at hcolumn
  rw [hcolumn]
  rfl

end Recall

/-! ## A dataset without columns

It may have any number of rows, more than the cursor can count as well. -/

namespace Endless

def data : Dataset := ⟨0, false, cursorLimit + 1, []⟩

def body : Node := .leaf (.constant 5.0)

/-- The program of a formula with this body. -/
def program : Program := Formula.programOf body []

theorem compile_body : (Formula.ofBody body).compile [] = .ok program := by
  refine Formula.compile_eq_ok.mpr ⟨body, [], ?_, rfl⟩
  constructor
  · rfl
  · rfl
  · decide
  · decide
  · decide
  · decide

theorem rectangular_data : data.Rectangular := by
  intro column hcolumn
  cases hcolumn

end Endless

/-! ## Evaluations -/

/-- The value of a formula at a row as it is evaluated: what the formula means there, if the rows of
the dataset can be counted. -/
def Formula.valueAt (formula : Formula) (data : Dataset) (maxCallDepth row : Nat) : Float :=
  if data.rows ≤ cursorLimit then formula.value data maxCallDepth row else nan

theorem Formula.valueAt_eq_value {formula : Formula} {data : Dataset} {maxCallDepth row : Nat}
    (h : data.rows ≤ cursorLimit) :
    formula.valueAt data maxCallDepth row = formula.value data maxCallDepth row :=
  if_pos h

namespace Evaluation

variable {formula : Formula} {program : Program} {data : Dataset}

/-- A bound program is run at the rows of its dataset, if they can be counted. -/
theorem inRange_of_bind {evaluation : Evaluation} (hprogram : evaluation.program = program.bind data)
    {row : Nat} : evaluation.InRange row ↔ data.rows ≤ cursorLimit ∧ row < data.rows := by
  rw [inRange_iff, hprogram]
  rfl

/-- Every row has an outcome with the meaning of the formula as its value. -/
theorem outcomeAt_eq (hcompile : formula.compile [] = .ok program) (hdata : data.Rectangular)
    (evaluation : Evaluation) (hprogram : evaluation.program = program.bind data) (row : Nat) :
    ∃ state, evaluation.outcomeAt row =
      .done (formula.valueAt data evaluation.maxCallDepth row) state := by
  have hrows : evaluation.program.rows = data.rows := by rw [hprogram]; rfl
  have hcode : evaluation.machine.code = (program.bind data).code := by rw [← hprogram]; rfl
  obtain ⟨entryPoints, body, hloaded⟩ :=
    Formula.loaded_of_compile hcompile hcode hrows
  have hvalue : formula.value data evaluation.maxCallDepth row =
      if row < data.rows then
        body.value (formula.scope data evaluation.maxCallDepth []) row else nan := by
    rw [Formula.value, hloaded.body_eq]
  rw [Formula.valueAt, hvalue, outcomeAt]
  by_cases hrange : evaluation.InRange row
  · obtain ⟨hcounted, hlt⟩ := (inRange_of_bind hprogram).mp hrange
    have hinside : row < evaluation.machine.rows := hloaded.rows ▸ hlt
    rw [if_pos hrange, if_pos hcounted, if_pos hlt,
      Machine.evaluate_eq hloaded fun _ => ⟨rfl, hinside, hdata⟩]
    exact ⟨_, rfl⟩
  · refine ⟨{}, ?_⟩
    rw [if_neg hrange]
    rw [inRange_of_bind hprogram] at hrange
    split
    · next hcounted => rw [if_neg fun hlt => hrange ⟨hcounted, hlt⟩]
    · rfl

theorem evaluateRow_eq_ok {evaluation : Evaluation} {row : Nat} {value : Float} :
    (evaluation.evaluateRow row).1 = .ok value ↔
      ∃ after, evaluation.outcomeAt row = .done value after := by
  rw [evaluateRow_eq]
  cases evaluation.outcomeAt row with
  | fault cause after => simp
  | done found after => simp

/-- Where nothing is run there is no value, and the state is that of the beginning. -/
theorem evaluateRow_of_not_inRange {evaluation : Evaluation} {row : Nat}
    (h : ¬ evaluation.InRange row) :
    evaluation.evaluateRow row = (.ok nan, { evaluation with state := {} }) := by
  rw [evaluateRow_eq, outcomeAt, if_neg h]

/-- Compiled, bound and run, a formula has the value that it means: at every row of a dataset whose
rows can be counted, for every limit of nested calls, whatever rows are left and whatever was
evaluated before. At every other row the value is NaN, and nothing is run. -/
theorem evaluateRow_eq_value (hcompile : formula.compile [] = .ok program)
    (hdata : data.Rectangular) (maxCallDepth : Nat) (rows : Rows) (state : Machine.State)
    (row : Nat) :
    (data.rows ≤ cursorLimit →
      (evaluateRow ⟨program.bind data, maxCallDepth, rows, state⟩ row).1 =
        .ok (formula.value data maxCallDepth row)) ∧
      (data.rows ≤ row ∨ cursorLimit < data.rows →
        evaluateRow ⟨program.bind data, maxCallDepth, rows, state⟩ row =
          (.ok nan, ⟨program.bind data, maxCallDepth, rows, {}⟩)) := by
  constructor
  · intro hcounted
    obtain ⟨after, houtcome⟩ := outcomeAt_eq hcompile hdata
      ⟨program.bind data, maxCallDepth, rows, state⟩ rfl row
    rw [evaluateRow_eq, houtcome, Formula.valueAt_eq_value hcounted]
  · intro hbeyond
    refine evaluateRow_of_not_inRange ?_
    rw [inRange_of_bind rfl]
    omega

/-- Two calls from row two the lag has led to row zero. -/
theorem evaluateRow_eq_value_recall :
    Recall.formula.compile [] = .ok Recall.program ∧ Recall.data.Rectangular ∧
      (evaluateRow ⟨Recall.program.bind Recall.data, 3, .indices [], {}⟩ 2).1 =
        .ok (Recall.formula.value Recall.data 3 2) ∧
      Recall.formula.value Recall.data 3 2 = 1.0 ∧
      evaluateRow ⟨Recall.program.bind Recall.data, 3, .indices [], {}⟩ 3 =
        (.ok nan, ⟨Recall.program.bind Recall.data, 3, .indices [], {}⟩) := by
  have hrow := evaluateRow_eq_value Recall.compile_formula Recall.rectangular_data 3 (.indices []) {}
  exact ⟨Recall.compile_formula, Recall.rectangular_data, (hrow 2).1 (by decide),
    by decide +kernel, (hrow 3).2 (by decide)⟩

/-- A constant has its value at every row, but it is not run where the rows cannot be counted, and
not behind the last row either. -/
theorem evaluateRow_endless :
    (Formula.ofBody Endless.body).compile [] = .ok Endless.program ∧
      Endless.data.Rectangular ∧ 0 < Endless.data.rows ∧
      Endless.body.value ((Formula.ofBody Endless.body).scope Endless.data 64 []) 0 = 5.0 ∧
      (evaluateRow ⟨Endless.program.bind Endless.data, 64, .indices [], {}⟩ 0).1 = .ok nan ∧
      Endless.body.value ((Formula.ofBody Endless.body).scope Recall.data 64 []) 3 = 5.0 ∧
      (evaluateRow ⟨Endless.program.bind Recall.data, 64, .indices [], {}⟩ 3).1 = .ok nan ∧
      (5.0 : Float) ≠ nan := by
  refine ⟨Endless.compile_body, Endless.rectangular_data, by decide, rfl, ?_, rfl, ?_, by decide⟩
  · decide +kernel
  · decide +kernel

/-- No row ends in a fault, and inside the dataset the program counter stays in the code and columns
are read without a check only at the requested row. -/
theorem evaluateRow_faultless (hcompile : formula.compile [] = .ok program)
    (hdata : data.Rectangular) (maxCallDepth : Nat) (rows : Rows) (state : Machine.State)
    (row : Nat) :
    (∃ value, (evaluateRow ⟨program.bind data, maxCallDepth, rows, state⟩ row).1 = .ok value) ∧
      (row < data.rows →
        (machine ⟨program.bind data, maxCallDepth, rows, state⟩).Always
          (Machine.State.Steady (machine ⟨program.bind data, maxCallDepth, rows, state⟩) row)
          { cursor := row }) := by
  constructor
  · obtain ⟨after, houtcome⟩ := outcomeAt_eq hcompile hdata
      ⟨program.bind data, maxCallDepth, rows, state⟩ rfl row
    rw [evaluateRow_eq, houtcome]
    exact ⟨_, rfl⟩
  · intro hlt
    obtain ⟨entryPoints, body, hloaded⟩ := Formula.loaded_of_compile hcompile
      (m := machine ⟨program.bind data, maxCallDepth, rows, state⟩) rfl rfl
    exact Machine.always_steady hloaded hdata hlt

theorem evaluateRow_faultless_recall :
    Recall.formula.compile [] = .ok Recall.program ∧ Recall.data.Rectangular ∧
      (∃ value,
        (evaluateRow ⟨Recall.program.bind Recall.data, 3, .indices [], {}⟩ 2).1 = .ok value) ∧
      (machine ⟨Recall.program.bind Recall.data, 3, .indices [], {}⟩).Always
        (Machine.State.Steady (machine ⟨Recall.program.bind Recall.data, 3, .indices [], {}⟩) 2)
        { cursor := 2 } := by
  obtain ⟨hvalue, halways⟩ := evaluateRow_faultless Recall.compile_formula
    Recall.rectangular_data 3 (.indices []) {} 2
  exact ⟨Recall.compile_formula, Recall.rectangular_data, hvalue, halways (by decide)⟩

/-! ## Drawing all rows -/

/-- The next row is the first of those that are left, and it has the value of the formula. -/
theorem next_eq (hcompile : formula.compile [] = .ok program) (hdata : data.Rectangular)
    {evaluation : Evaluation} (hprogram : evaluation.program = program.bind data) {row : Nat}
    {rest : Rows} (hrows : evaluation.rows.next? = some (row, rest)) :
    ∃ state, evaluation.next =
      (some (.ok (formula.valueAt data evaluation.maxCallDepth row)),
        { evaluation with rows := rest, state }) := by
  obtain ⟨state, houtcome⟩ :=
    outcomeAt_eq hcompile hdata { evaluation with rows := rest } hprogram row
  refine ⟨state, ?_⟩
  unfold next
  simp only [hrows, evaluateRow_eq, houtcome]

/-- As many rows as are asked for are drawn in order, unless fewer are left. -/
theorem drainFrom_eq (hcompile : formula.compile [] = .ok program) (hdata : data.Rectangular)
    (count : Nat) :
    ∀ {evaluation : Evaluation} (found : List (Float × Machine.State)),
      evaluation.program = program.bind data →
        ∃ results, evaluation.drainFrom count found = .ok results ∧
          results.map (·.1) = found.reverse.map (·.1) ++
            (evaluation.rows.toList.take count).map
              (formula.valueAt data evaluation.maxCallDepth) := by
  induction count with
  | zero =>
    intro evaluation found _
    exact ⟨found.reverse, rfl, by simp⟩
  | succ count ih =>
    intro evaluation found hprogram
    cases hrows : evaluation.rows.next? with
    | none =>
      refine ⟨found.reverse, ?_, ?_⟩
      · simp only [drainFrom, next, hrows]
      · rw [Rows.toList_eq_nil hrows]
        simp
    | some drawn =>
      obtain ⟨row, rest⟩ := drawn
      obtain ⟨state, hnext⟩ := next_eq hcompile hdata hprogram hrows
      obtain ⟨results, hresults, hvalues⟩ := @ih { evaluation with rows := rest, state }
        ((formula.valueAt data evaluation.maxCallDepth row, state) :: found) hprogram
      refine ⟨results, ?_, ?_⟩
      · simp only [drainFrom, hnext, hresults]
      · rw [hvalues, Rows.toList_eq_cons hrows]
        simp

/-- All rows together have their values, if so many values can be kept. -/
theorem values_eq (hcompile : formula.compile [] = .ok program) (hdata : data.Rectangular)
    {evaluation : Evaluation} (hprogram : evaluation.program = program.bind data)
    (hsize : evaluation.rows.size ≤ storageLimit) :
    evaluation.values =
      .ok (evaluation.rows.toList.map (formula.valueAt data evaluation.maxCallDepth)) := by
  obtain ⟨results, hresults, hvalues⟩ :=
    drainFrom_eq hcompile hdata evaluation.rows.size [] hprogram
  have hall : evaluation.rows.toList.take evaluation.rows.size = evaluation.rows.toList := by
    rw [← Rows.length_toList, List.take_length]
  rw [values, drain, if_pos hsize, hresults]
  rw [hall] at hvalues
  exact congrArg Except.ok hvalues

end Evaluation

/-! ## Values of formulas -/

/-- The values that a formula means at all rows, if so many values can be kept. -/
def Formula.values (formula : Formula) (data : Dataset) (maxCallDepth : Nat) (rows : Rows) :
    Except Failure (List Float) :=
  if rows.size ≤ storageLimit then .ok (rows.toList.map (formula.value data maxCallDepth))
  else .error (.fault .outOfStorage)

/-- Where storage has room for the values of a formula there are such values. -/
theorem Formula.exists_values {formula : Formula} {data : Dataset} {maxCallDepth : Nat} {rows : Rows}
    (h : rows.size ≤ storageLimit) :
    ∃ values, formula.values data maxCallDepth rows = .ok values :=
  ⟨_, if_pos h⟩

namespace ScalarInterpreter

variable {interpreter : ScalarInterpreter} {formula : Formula} {program : Program} {data : Dataset}
  {rows : Rows}

/-- A formula that compiles has a value at every row, if so many values can be kept. -/
theorem evaluate_eq_map (hhooks : interpreter.hooks = [])
    (hcompile : formula.compile [] = .ok program) (hdata : data.Rectangular) :
    (interpreter.evaluate formula data rows).1 =
      if rows.size ≤ storageLimit then
        .ok (rows.toList.map (formula.valueAt data interpreter.maxCallDepth))
      else .error (.fault .outOfStorage) := by
  have hevaluated : (interpreter.evaluate formula data rows).1 =
      (Evaluation.values ⟨program.bind data, interpreter.maxCallDepth, rows, {}⟩).mapError
        .fault := by
    unfold evaluate open?
    rw [hhooks, hcompile]
    rfl
  rw [hevaluated]
  by_cases hsize : rows.size ≤ storageLimit
  · rw [Evaluation.values_eq hcompile hdata rfl hsize, if_pos hsize]
    rfl
  · -- the first row has its value, but there is no room for all of them
    rw [Evaluation.values, Evaluation.drain, if_neg hsize, if_neg hsize]
    cases hnext : rows.next? with
    | none => simp only [Evaluation.next, hnext, Except.map, Except.mapError]
    | some drawn =>
      obtain ⟨state, hfirst⟩ := @Evaluation.next_eq _ _ _ hcompile hdata
        ⟨program.bind data, interpreter.maxCallDepth, rows, {}⟩ rfl _ _ hnext
      simp only [hfirst, Except.map, Except.mapError]

/-- If the rows of the dataset can be counted, these are the values that the formula means. -/
theorem evaluate_eq_values (hhooks : interpreter.hooks = [])
    (hcompile : formula.compile [] = .ok program) (hdata : data.Rectangular)
    (hcounted : data.rows ≤ cursorLimit) :
    (interpreter.evaluate formula data rows).1 =
      formula.values data interpreter.maxCallDepth rows := by
  have hvalue : formula.valueAt data interpreter.maxCallDepth =
      formula.value data interpreter.maxCallDepth :=
    funext fun _ => Formula.valueAt_eq_value hcounted
  rw [evaluate_eq_map hhooks hcompile hdata, hvalue, Formula.values]

/-- A formula that does not compile has the error of its compilation. -/
theorem evaluate_eq_error {cause : EvalError} (hhooks : interpreter.hooks = [])
    (hcompile : formula.compile [] = .error cause) :
    (interpreter.evaluate formula data rows).1 = .error (.error cause) := by
  unfold evaluate open?
  rw [hhooks, hcompile]
  rfl

/-- Without hooks, the values of a formula at all rows are those that it means, whenever there are
values at all. -/
theorem evaluate_eq_ok (hdata : data.Rectangular) (hcounted : data.rows ≤ cursorLimit)
    (hsize : rows.size ≤ storageLimit) {maxCallDepth evaluated : Nat} {values : List Float}
    (h : (evaluate ⟨[], maxCallDepth, evaluated⟩ formula data rows).1 = .ok values) :
    values = rows.toList.map (formula.value data maxCallDepth) := by
  cases hcompile : formula.compile [] with
  | error cause =>
    rw [evaluate_eq_error rfl hcompile] at h
    cases h
  | ok program =>
    rw [evaluate_eq_values rfl hcompile hdata hcounted, Formula.values, if_pos hsize] at h
    exact (Except.ok.inj h).symm

/-- Evaluating changes nothing but the counter. -/
theorem evaluate_settings (interpreter : ScalarInterpreter) (formula : Formula) (data : Dataset)
    (rows : Rows) :
    (interpreter.evaluate formula data rows).2.hooks = interpreter.hooks ∧
      (interpreter.evaluate formula data rows).2.maxCallDepth = interpreter.maxCallDepth := by
  unfold evaluate open?
  cases formula.compile interpreter.hooks with
  | error cause => exact ⟨rfl, rfl⟩
  | ok program => exact ⟨rfl, rfl⟩

end ScalarInterpreter

end FormulaEngine
