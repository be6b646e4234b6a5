import FormulaEngine.Proofs.MoreSteps
import Mathlib.Data.List.MinMax

/-!
# The effort of runs

Whatever the code holds, a run is over after a number of instructions that can be told beforehand
from the code, the address, the limit of nested calls and the number of functions running. It ends
with a value, or with one of the two faults that a machine knows: something lies outside what should
hold it, or a node does not carry what the opcode needs. A cursor that is kept in a register adds
nothing to this if the register wraps positions around; if it refuses some, the run may also end
because the cursor would have gone to one of them.

- `BoundInstruction.runs`: how many subtrees an instruction runs at most, every run of an operand
  that is started again counted;
- `Machine.effort`: how many instructions a run counts at most, by how deep it may nest;
- `Machine.Spends`: an action has an expected end and counts no more than a number of instructions;
- `Machine.spends_performIn`, `Machine.spends_runIn`: instructions and runs;
- `Machine.skipSubtrees_of_le`: a skip is over where the code is;
- `Machine.evaluate_ends`: the end of every run.
-/

namespace FormulaEngine

/-- How many subtrees an instruction runs at most. -/
def BoundInstruction.runs (i : BoundInstruction) : Nat :=
  match i.opcode.operation with
  | .integral =>
    match i.node.symbol with
    | .integral lag => lag.toInt.natAbs + 1
    | _ => 0
  | .derivative => 4
  | .call => i.argCount + 1
  | operation => operation.operandCount i.argCount

namespace Machine

variable {α β : Type} {m : Machine} {register : CursorRegister}

/-! ## Expected ends -/

/-- The state in which an action ends. -/
def Outcome.state : Outcome α → State
  | .done _ state => state
  | .fault _ state => state

/-- There is a value, or something was out of bounds, or a node did not carry what its opcode needs, or
the cursor would have gone to a position that its register refuses. -/
def Outcome.Expected (register : CursorRegister) : Outcome α → Prop
  | .done _ _ => True
  | .fault cause _ =>
    cause = .outOfBounds ∨ (∃ opcode symbol, cause = .payloadMismatch opcode symbol) ∨
      cause = .overflow ∧ ∃ position, register position = none

/-- The action has an expected end, if it ends, and has counted at most `effort` instructions
then. -/
def Spends (register : CursorRegister) (effort : Nat) (action : Action α) : Prop :=
  ∀ ⦃s : State⦄ ⦃outcome : Outcome α⦄, action s = some outcome →
    outcome.Expected register ∧ outcome.state.executed ≤ s.executed + effort

theorem Spends.mono {effort more : Nat} {action : Action α} (h : Spends register effort action)
    (hle : effort ≤ more) : Spends register more action := by
  intro s outcome hrun
  obtain ⟨hexpected, hexecuted⟩ := h hrun
  exact ⟨hexpected, by omega⟩

/-- What costs nothing keeps to any effort. -/
theorem Spends.free {effort : Nat} {action : Action α} (h : Spends register 0 action) :
    Spends register effort action :=
  h.mono (Nat.zero_le effort)

theorem spends_pure (value : α) : Spends register 0 (pure value : Action α) := by
  intro s outcome h
  cases h
  exact ⟨trivial, Nat.le_refl _⟩

theorem spends_outOfBounds : Spends register 0 (Action.fault .outOfBounds : Action α) := by
  intro s outcome h
  cases h
  exact ⟨Or.inl rfl, Nat.le_refl _⟩

theorem spends_mismatch (i : BoundInstruction) : Spends register 0 (mismatch i : Action α) := by
  intro s outcome h
  cases h
  exact ⟨Or.inr (Or.inl ⟨_, _, rfl⟩), Nat.le_refl _⟩

theorem spends_ofOption (value : Option α) :
    Spends register 0 (Action.ofOption .outOfBounds value) := by
  cases value with
  | none => exact spends_outOfBounds
  | some value => exact spends_pure value

theorem spends_get (read : State → α) : Spends register 0 (Action.get read) := by
  intro s outcome h
  cases h
  exact ⟨trivial, Nat.le_refl _⟩

theorem spends_modify {change : State → State} (h : ∀ s, (change s).executed = s.executed) :
    Spends register 0 (Action.modify change) := by
  intro s outcome hrun
  cases hrun
  exact ⟨trivial, Nat.le_of_eq (h s)⟩

theorem spends_bind {effort more : Nat} {action : Action α} {next : α → Action β}
    (h : Spends register effort action) (hnext : ∀ value, Spends register more (next value)) :
    Spends register (effort + more) (action >>= next) := by
  intro s outcome hrun
  change Action.bind action next s = _ at hrun
  unfold Action.bind at hrun
  split at hrun
  · next value s' haction =>
    obtain ⟨-, hfirst⟩ := h haction
    obtain ⟨hexpected, hsecond⟩ := hnext value hrun
    refine ⟨hexpected, ?_⟩
    change s'.executed ≤ _ at hfirst
    omega
  · next cause s' haction =>
    obtain ⟨hexpected, hfirst⟩ := h haction
    cases hrun
    refine ⟨hexpected, ?_⟩
    change s'.executed ≤ _ at hfirst
    show s'.executed ≤ _
    omega
  · cases hrun

/-- What costs nothing may come first. -/
theorem spends_zero_bind {effort : Nat} {action : Action α} {next : α → Action β}
    (h : Spends register 0 action) (hnext : ∀ value, Spends register effort (next value)) :
    Spends register effort (action >>= next) :=
  Nat.zero_add effort ▸ spends_bind h hnext

/-- What costs nothing may come last. -/
theorem spends_bind_zero {effort : Nat} {action : Action α} {next : α → Action β}
    (h : Spends register effort action) (hnext : ∀ value, Spends register 0 (next value)) :
    Spends register effort (action >>= next) :=
  spends_bind h hnext

/-! ## Skips and columns -/

theorem spends_skipSubtrees (left pending : Nat) :
    Spends register 0 (m.skipSubtrees left pending) := by
  induction left generalizing pending with
  | zero =>
    cases pending with
    | zero => exact spends_pure ()
    | succ pending => exact spends_outOfBounds
  | succ left ih =>
    cases pending with
    | zero => exact spends_pure ()
    | succ pending =>
      intro s outcome h
      unfold skipSubtrees at h
      split at h
      · next i _ =>
        have hrest := @ih (pending + i.argCount) { s with pc := s.pc + 1 } outcome
        exact hrest h
      · cases h
        exact ⟨Or.inl rfl, Nat.le_refl _⟩

theorem spends_skip : Spends register 0 m.skip :=
  fun _ _ h => spends_skipSubtrees _ _ h

/-- A walk that may go on to the end of the code may as well go on for longer: it never stops
because of the number of instructions it was allowed. -/
theorem skipSubtrees_of_le {left left' : Nat} (pending : Nat) {s : State}
    (hleft : m.code.size - s.pc ≤ left) (hleft' : m.code.size - s.pc ≤ left') :
    m.skipSubtrees left pending s = m.skipSubtrees left' pending s := by
  induction left generalizing left' pending s with
  | zero =>
    have hnone : m.code[s.pc]? = none := Array.getElem?_eq_none (by omega)
    cases pending with
    | zero => cases left' <;> rfl
    | succ pending =>
      cases left' with
      | zero => rfl
      | succ left' => simp only [skipSubtrees, hnone, Action.fault]
  | succ left ih =>
    cases pending with
    | zero => cases left' <;> rfl
    | succ pending =>
      cases left' with
      | zero =>
        have hnone : m.code[s.pc]? = none := Array.getElem?_eq_none (by omega)
        simp only [skipSubtrees, hnone, Action.fault]
      | succ left' =>
        simp only [skipSubtrees]
        split
        · refine ih _ ?_ ?_
          · show m.code.size - (s.pc + 1) ≤ left
            omega
          · show m.code.size - (s.pc + 1) ≤ left'
            omega
        · rfl

theorem spends_read (column : Array α) : Spends register 0 (m.read column) := by
  intro s outcome h
  unfold read at h
  split at h
  · cases h
    exact ⟨trivial, Nat.le_refl _⟩
  · split at h
    · cases h
      exact ⟨trivial, Nat.le_refl _⟩
    · cases h
      exact ⟨Or.inl rfl, Nat.le_refl _⟩

theorem spends_readNumber (i : BoundInstruction) : Spends register 0 (m.readNumber i) := by
  unfold readNumber
  split
  · exact spends_read _
  · exact spends_pure _

theorem spends_weighted (i : BoundInstruction) (weight : Float) :
    Spends register 0 (m.weighted i weight) := by
  unfold weighted
  split
  · refine spends_zero_bind (spends_read _) fun value => ?_
    cases value <;> exact spends_pure _
  · exact spends_pure _

/-- A register that refuses a position has refused one. -/
theorem spends_place (position : Int) : Spends register 0 (place register position) := by
  intro s outcome h
  unfold place at h
  cases hheld : register position with
  | some held =>
    rw [hheld] at h
    cases h
    exact ⟨trivial, Nat.le_refl _⟩
  | none =>
    rw [hheld] at h
    cases h
    exact ⟨Or.inr (Or.inr ⟨rfl, position, hheld⟩), Nat.le_refl _⟩

theorem spends_weightedAtIn (i : BoundInstruction) (weight : Float) (lag : Int) :
    Spends register 0 (m.weightedAtIn register i weight lag) := by
  refine spends_zero_bind (spends_get _) fun cursor => ?_
  split
  · refine spends_zero_bind (spends_place _) fun position => ?_
    split <;> exact spends_pure _
  · exact spends_pure _

theorem spends_categorized (i : BoundInstruction) (number : String → Float) :
    Spends register 0 (m.categorized i number) := by
  unfold categorized
  split
  · refine spends_zero_bind (spends_read _) fun value => ?_
    cases value <;> exact spends_pure _
  · exact spends_pure _

theorem spends_moveIn (rows : Int) : Spends register 0 (moveIn register rows) :=
  spends_zero_bind (spends_get _) fun _ =>
    spends_zero_bind (spends_place _) fun _ => spends_modify fun _ => rfl

theorem spends_jump (pc : Nat) : Spends register 0 (jump pc) :=
  spends_modify fun _ => rfl

/-! ## Operands -/

section Operands

variable {self : Action Float} {effort : Nat}

theorem spends_collect (hself : Spends register effort self) (count : Nat) (found : List Float) :
    Spends register (count * effort) (collect self count found) := by
  induction count generalizing found with
  | zero => exact (spends_pure _).free
  | succ count ih =>
    rw [Nat.succ_mul, Nat.add_comm]
    exact spends_bind hself fun value => ih _

theorem spends_operandsWhile (hself : Spends register effort self) (goesOn : Float → Bool)
    (count : Nat) (last : Float) : Spends register (count * effort) (m.operandsWhile self goesOn count last) := by
  induction count generalizing last with
  | zero => exact (spends_pure _).free
  | succ count ih =>
    rw [Nat.succ_mul, Nat.add_comm, operandsWhile]
    split
    · exact spends_bind hself fun value => ih _
    · exact (spends_zero_bind spends_skip fun _ => ih _).mono (Nat.le_add_left _ _)

/-- Of two operands one is run. -/
theorem spends_either (hself : Spends register effort self) (first : Prop) [Decidable first] :
    Spends register effort (if first then (self >>= fun value => m.skip >>= fun _ => pure value)
      else (m.skip >>= fun _ => self) : Action Float) := by
  split
  · exact spends_bind_zero hself fun value => spends_zero_bind spends_skip fun _ => spends_pure value
  · exact spends_zero_bind spends_skip fun _ => hself

theorem spends_conditional (hself : Spends register effort self) (i : BoundInstruction)
    (threshold steepness : Float) (ignoreSlope : Bool) :
    Spends register (effort + effort) (m.conditional self i threshold steepness ignoreSlope) := by
  refine spends_zero_bind (spends_readNumber i) fun value => ?_
  cases value with
  | none =>
    refine Spends.free ?_
    exact spends_zero_bind spends_skip fun _ => spends_zero_bind spends_skip fun _ => spends_pure _
  | some value =>
    cases ignoreSlope with
    | true => exact (spends_either hself (value ≤ threshold)).mono (Nat.le_add_left _ _)
    | false => exact spends_bind hself fun left => spends_bind_zero hself fun right => spends_pure _

theorem spends_lagged (hself : Spends register effort self) : Spends register effort (lagged self) :=
  spends_zero_bind (spends_get _) fun _ =>
    spends_zero_bind (spends_modify fun _ => rfl) fun _ =>
      spends_bind_zero hself fun value =>
        spends_zero_bind (spends_modify fun _ => rfl) fun _ => spends_pure value

theorem spends_accumulateIn (hself : Spends register effort self) (start : Nat) (step : Int)
    (count : Nat) (sum : Float) :
    Spends register (count * effort) (accumulateIn register self start step count sum) := by
  induction count generalizing sum with
  | zero => exact (spends_pure _).free
  | succ count ih =>
    rw [Nat.succ_mul, Nat.add_comm]
    exact spends_zero_bind (spends_moveIn step) fun _ =>
      spends_bind (spends_lagged hself) fun value =>
        spends_zero_bind (spends_jump start) fun _ => ih _

/-- Every row of the stretch costs a run, and the present one costs another. -/
theorem spends_integrateIn (hself : Spends register effort self) (lag : Int) :
    Spends register ((lag.natAbs + 1) * effort) (integrateIn register self lag) := by
  rw [Nat.succ_mul]
  exact spends_zero_bind (spends_get _) fun start =>
    spends_bind (spends_accumulateIn hself start _ _ _) fun sum =>
      spends_zero_bind (spends_moveIn _) fun _ =>
        spends_bind_zero (spends_lagged hself) fun value => spends_pure _

theorem spends_differentiateIn (hself : Spends register effort self) :
    Spends register (4 * effort) (differentiateIn register self) := by
  have hfour : 4 * effort = effort + (effort + (effort + effort)) := by omega
  have hlagged := spends_lagged hself
  rw [hfour]
  exact spends_zero_bind (spends_get _) fun start =>
    spends_bind hlagged fun f0 => spends_zero_bind (spends_moveIn _) fun _ =>
      spends_zero_bind (spends_jump start) fun _ =>
    spends_bind hlagged fun f1 => spends_zero_bind (spends_moveIn _) fun _ =>
      spends_zero_bind (spends_jump start) fun _ =>
    spends_bind hlagged fun f3 => spends_zero_bind (spends_moveIn _) fun _ =>
      spends_zero_bind (spends_jump start) fun _ =>
    spends_bind_zero hlagged fun f4 => spends_zero_bind (spends_moveIn _) fun _ => spends_pure _

/-! ## Calls and instructions -/

theorem spends_pushArguments (hself : Spends register effort self) (count : Nat) :
    Spends register (count * effort) (pushArguments self count) := by
  induction count with
  | zero => exact (spends_pure _).free
  | succ count ih =>
    rw [Nat.succ_mul, Nat.add_comm]
    exact spends_bind hself fun value =>
      spends_zero_bind (spends_modify fun _ => rfl) fun _ => ih

theorem spends_enter (hself : Spends register effort self) (count target : Nat) :
    Spends register effort (enter self count target) :=
  spends_zero_bind (spends_get _) fun entered =>
    spends_zero_bind (spends_ofOption entered) fun _ =>
      spends_zero_bind (spends_get _) fun _ =>
        spends_zero_bind (spends_modify fun _ => rfl) fun _ =>
          spends_bind_zero hself fun value =>
            spends_zero_bind (spends_modify fun _ => rfl) fun _ => spends_pure value

/-- The arguments of a call cost a run each, and its function costs another. -/
theorem spends_call (hself : Spends register effort self) (i : BoundInstruction) :
    Spends register ((i.argCount + 1) * effort) (m.call self i) := by
  have hdiscard : Spends register 0 (Action.modify fun s =>
      { s with stack := s.stack.discard i.argCount }) := spends_modify fun _ => rfl
  have hgiveUp : Spends register effort (do
      Action.modify fun s => { s with stack := s.stack.discard i.argCount }
      return nan : Action Float) :=
    (spends_zero_bind hdiscard fun _ => spends_pure nan).free
  rw [Nat.succ_mul]
  refine spends_bind (spends_pushArguments hself _) fun _ =>
    spends_zero_bind (spends_get _) fun depth => ?_
  split
  · split
    · exact spends_enter hself _ _
    · exact hgiveUp
  · exact hgiveUp

theorem spends_performIn (hself : Spends register effort self) (i : BoundInstruction) :
    Spends register (i.runs * effort) (m.performIn register self i) := by
  unfold performIn perform BoundInstruction.runs
  cases i.opcode.operation with
  | strict operands combine =>
    exact spends_bind_zero (spends_collect hself _ _) fun _ => spends_pure _
  | choice =>
    refine (spends_bind hself fun condition => spends_either hself _).mono ?_
    show effort + effort ≤ 3 * effort
    omega
  | conjunction =>
    show Spends register ((1 + (i.argCount - 1)) * effort) _
    rw [Nat.add_mul, Nat.one_mul]
    refine spends_bind hself fun first => ?_
    rw [allTrue_eq_operandsWhile]
    exact spends_operandsWhile hself _ _ _
  | disjunction =>
    show Spends register ((1 + (i.argCount - 1)) * effort) _
    rw [Nat.add_mul, Nat.one_mul]
    refine spends_bind hself fun first => ?_
    rw [anyTrue_eq_operandsWhile]
    exact spends_operandsWhile hself _ _ _
  | timeLag =>
    show Spends register (1 * effort) _
    rw [Nat.one_mul]
    dsimp only
    split
    · exact spends_zero_bind (spends_moveIn _) fun _ =>
        spends_bind_zero (spends_lagged hself) fun value =>
          spends_zero_bind (spends_moveIn _) fun _ => spends_pure value
    · exact (spends_mismatch i).free
  | integral =>
    cases i.node.symbol with
    | integral lag => exact spends_integrateIn hself _
    | _ => exact (spends_mismatch i).free
  | derivative => exact spends_differentiateIn hself
  | call => exact spends_call hself i
  | variableCondition =>
    show Spends register (2 * effort) _
    rw [Nat.two_mul]
    dsimp only
    split
    · exact spends_conditional hself i _ _ _
    · exact (spends_mismatch i).free
  | argument =>
    dsimp only
    split
    · exact (spends_zero_bind (spends_get _) fun value => spends_ofOption value).free
    · exact (spends_mismatch i).free
  | constant =>
    dsimp only
    split
    · exact (spends_pure _).free
    · exact (spends_mismatch i).free
  | numericVariable =>
    dsimp only
    split
    · exact (spends_weighted i _).free
    · exact (spends_mismatch i).free
  | lagVariable =>
    dsimp only
    split
    · exact (spends_weightedAtIn i _ _).free
    · exact (spends_mismatch i).free
  | factorVariable =>
    dsimp only
    split
    · exact (spends_categorized i _).free
    · exact (spends_mismatch i).free
  | binaryFactorVariable =>
    dsimp only
    split
    · exact (spends_categorized i _).free
    · exact (spends_mismatch i).free

end Operands

/-! ## Runs -/

/-- The largest number of subtrees that an instruction of the code runs. -/
def widest (m : Machine) : Nat := (m.code.toList.map BoundInstruction.runs).foldr max 0

theorem runs_le_widest {i : BoundInstruction} (h : i ∈ m.code.toList) : i.runs ≤ m.widest :=
  List.le_max_of_le' 0 (List.mem_map_of_mem h) (Nat.le_refl _)

/-- How many instructions a run counts at most when it nests at most `steps` deep: its own, and
those of the subtrees that it runs. -/
def effort (m : Machine) : (steps : Nat) → Nat
  | 0 => 0
  | steps + 1 => 1 + m.widest * effort m steps

/-- One instruction costs its fetch and the runs that it makes. -/
theorem spends_stepIn {self : Action Float} {effort : Nat} (hself : Spends register effort self) :
    Spends register (1 + m.widest * effort) (m.stepIn register self) := by
  intro s outcome h
  change Action.bind m.fetch (m.performIn register self) s = _ at h
  simp only [Action.bind, fetch] at h
  split at h
  · next i s' hfetch =>
    split at hfetch
    · next i' hi =>
      cases hfetch
      have hmem : i ∈ m.code.toList := Array.mem_toList_iff.mpr (Array.mem_of_getElem? hi)
      obtain ⟨hexpected, hexecuted⟩ := spends_performIn hself i h
      refine ⟨hexpected, ?_⟩
      have hwidest := Nat.mul_le_mul_right effort (runs_le_widest hmem)
      change outcome.state.executed ≤ s.executed + 1 + _ at hexecuted
      omega
    · cases hfetch
  · next cause s' hfetch =>
    split at hfetch
    · cases hfetch
    · cases hfetch
      cases h
      exact ⟨Or.inl rfl, Nat.le_add_right _ _⟩
  · cases h

theorem spends_runIn (m : Machine) (register : CursorRegister) (steps : Nat) :
    Spends register (m.effort steps) (m.runIn register steps) := by
  induction steps with
  | zero =>
    intro s outcome h
    cases h
  | succ steps ih => exact spends_stepIn ih

/-- On whatever code, from whatever state, a run ends, with the cursor in whatever register: with
every number of steps from the bound on the outcome is the same, and it is a value or one of the two
faults of machines, or else the register refuses some position and the cursor has overflown. On the
way the run has counted no more instructions than its effort, and no skip has gone on behind the end
of the code. The machine itself has its cursor in a register that holds everything. -/
theorem evaluate_ends (m : Machine) (register : CursorRegister) (s : State) :
    (∀ steps, m.stepBound s.pc s.callDepth ≤ steps →
      m.runIn register steps s = some (m.evaluateIn register s)) ∧
      (m.evaluateIn register s).Expected register ∧
      (m.evaluateIn register s).state.executed ≤
        s.executed + m.effort (m.stepBound s.pc s.callDepth) ∧
      (∀ left, m.code.size - s.pc ≤ left → m.skipSubtrees left 1 s = m.skip s) ∧
      (∀ steps, m.runIn .exact steps = m.run steps) ∧ m.evaluateIn .exact s = m.evaluate s := by
  obtain ⟨hexpected, hexecuted⟩ := spends_runIn m register _ (m.runIn_stepBound register s)
  exact ⟨fun steps hsteps => runIn_eq_evaluateIn register hsteps, hexpected, hexecuted,
    fun left hleft => skipSubtrees_of_le 1 hleft (Nat.le_refl _), m.runIn_exact,
    m.evaluateIn_exact s⟩

/-- A lag that leads beyond 64 bits. -/
example :
    let m : Machine := ⟨#[⟨⟨.timeLag 1, []⟩, .timeLag, 1, .none⟩,
      ⟨⟨.constant 5.0, []⟩, .constant, 0, .none⟩], 1, 0⟩
    let s : State := { cursor := Int64.maxValue.toInt }
    (m.evaluateIn .wrapped s).isDone = true ∧ (m.evaluateIn .checked s).isDone = false := by
  decide +kernel

end Machine

end FormulaEngine
