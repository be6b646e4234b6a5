import FormulaEngine.Machine.CursorRegister

/-!
# The machine ends

A subtree that is run lies behind its parent in the code, and a function is entered only while fewer
functions are running than the limit allows. So runs nest no deeper than `Machine.stepBound`,
whatever the code holds and wherever the cursor goes.

- `Keeps`: an action ends, and if it ends with a value it has not moved back before an address and
  has left as many functions as it entered;
- `keeps_runIn`: this holds of runs within the bound, with the cursor in any register;
- `runIn_isSome`, `run_isSome`: so such runs are finished;
- `Machine.evaluateIn`, `Machine.evaluate`: the run within the bound, with no number of steps to give.
-/

namespace FormulaEngine.Machine

variable {α β : Type} {p d : Nat}

/-- A state at or behind the address `p` with `d` functions running. -/
def State.Within (p d : Nat) (s : State) : Prop := p ≤ s.pc ∧ s.callDepth = d

/-- Started at or behind `p` with `d` functions running, the action ends, and if it ends with a
value it ends in such a state again. -/
def Keeps (p d : Nat) (action : Action α) : Prop :=
  ∀ s : State, s.Within p d →
    ∃ outcome, action s = some outcome ∧ ∀ value s', outcome = .done value s' → s'.Within p d

/-! ## Parts of actions -/

theorem keeps_pure (value : α) : Keeps p d (pure value : Action α) :=
  fun s hs => ⟨.done value s, rfl, fun _ _ h => by cases h; exact hs⟩

theorem keeps_fault (cause : Fault) : Keeps p d (Action.fault cause : Action α) :=
  fun s _ => ⟨.fault cause s, rfl, fun _ _ h => by cases h⟩

theorem keeps_bind {action : Action α} {next : α → Action β} (h : Keeps p d action)
    (hnext : ∀ value, Keeps p d (next value)) : Keeps p d (action >>= next) := by
  intro s hs
  obtain ⟨outcome, hrun, hdone⟩ := h s hs
  change ∃ o, Action.bind action next s = some o ∧ _
  simp only [Action.bind, hrun]
  cases outcome with
  | done value s' => exact hnext value s' (hdone value s' rfl)
  | fault cause s' => exact ⟨.fault cause s', rfl, fun _ _ h => by cases h⟩

/-- Reading the state changes nothing, and what was read comes from a state within the bounds. -/
theorem keeps_get_bind {read : State → α} {next : α → Action β}
    (hnext : ∀ s : State, s.Within p d → Keeps p d (next (read s))) :
    Keeps p d (Action.get read >>= next) :=
  fun s hs => hnext s hs s hs

theorem keeps_modify {change : State → State}
    (h : ∀ s : State, s.Within p d → (change s).Within p d) :
    Keeps p d (Action.modify change) :=
  fun s hs => ⟨.done () (change s), rfl, fun _ _ e => by cases e; exact h s hs⟩

theorem keeps_ofOption (cause : Fault) (value : Option α) :
    Keeps p d (Action.ofOption cause value) := by
  cases value with
  | none => exact keeps_fault cause
  | some value => exact keeps_pure value

theorem keeps_mismatch (i : BoundInstruction) : Keeps p d (mismatch i : Action α) :=
  keeps_fault _

theorem keeps_moveIn (register : CursorRegister) (rows : Int) : Keeps p d (moveIn register rows) :=
  keeps_get_bind fun _ _ =>
    keeps_bind (keeps_ofOption _ _) fun _ => keeps_modify fun _ hs => hs

theorem keeps_jump {pc : Nat} (h : p ≤ pc) : Keeps p d (jump pc) :=
  keeps_modify fun _ hs => ⟨h, hs.2⟩

theorem keeps_skipSubtrees (m : Machine) (left pending : Nat) :
    Keeps p d (m.skipSubtrees left pending) := by
  induction left generalizing pending with
  | zero =>
    cases pending with
    | zero => exact keeps_pure ()
    | succ n => exact keeps_fault _
  | succ left ih =>
    cases pending with
    | zero => exact keeps_pure ()
    | succ n =>
      intro s hs
      simp only [skipSubtrees]
      split
      · next i _ => exact ih _ _ ⟨Nat.le_succ_of_le hs.1, hs.2⟩
      · exact ⟨_, rfl, fun _ _ h => by cases h⟩

theorem keeps_skip (m : Machine) : Keeps p d m.skip :=
  fun s hs => keeps_skipSubtrees m _ _ s hs

theorem keeps_read (m : Machine) (column : Array α) : Keeps p d (m.read column) := by
  intro s hs
  simp only [read]
  split
  · exact ⟨_, rfl, fun _ _ h => by cases h; exact hs⟩
  · split
    · exact ⟨_, rfl, fun _ _ h => by cases h; exact hs⟩
    · exact ⟨_, rfl, fun _ _ h => by cases h⟩

/-! ## Operands and operations -/

section Operands

variable {self : Action Float} (m : Machine)

theorem keeps_lagged (hself : Keeps p d self) : Keeps p d (lagged self) :=
  keeps_get_bind fun _ _ =>
    keeps_bind (keeps_modify fun _ hs => hs) fun _ =>
      keeps_bind hself fun _ => keeps_bind (keeps_modify fun _ hs => hs) fun _ => keeps_pure _

theorem keeps_collect (hself : Keeps p d self) (count : Nat) (found : List Float) :
    Keeps p d (collect self count found) := by
  induction count generalizing found with
  | zero => exact keeps_pure _
  | succ count ih => exact keeps_bind hself fun _ => ih _

theorem keeps_allTrue (hself : Keeps p d self) (count : Nat) (last : Float) :
    Keeps p d (m.allTrue self count last) := by
  induction count generalizing last with
  | zero => exact keeps_pure _
  | succ count ih =>
    simp only [allTrue]
    split
    · exact keeps_bind hself fun _ => ih _
    · exact keeps_bind (keeps_skip m) fun _ => ih _

theorem keeps_anyTrue (hself : Keeps p d self) (count : Nat) (last : Float) :
    Keeps p d (m.anyTrue self count last) := by
  induction count generalizing last with
  | zero => exact keeps_pure _
  | succ count ih =>
    simp only [anyTrue]
    split
    · exact keeps_bind hself fun _ => ih _
    · exact keeps_bind (keeps_skip m) fun _ => ih _

theorem keeps_accumulateIn (register : CursorRegister) (hself : Keeps p d self) {start : Nat}
    (hstart : p ≤ start) (step : Int) (count : Nat) (sum : Float) :
    Keeps p d (accumulateIn register self start step count sum) := by
  induction count generalizing sum with
  | zero => exact keeps_pure _
  | succ count ih =>
    exact keeps_bind (keeps_moveIn register _) fun _ => keeps_bind (keeps_lagged hself) fun _ =>
      keeps_bind (keeps_jump hstart) fun _ => ih _

theorem keeps_pushArguments (hself : Keeps p d self) (count : Nat) :
    Keeps p d (pushArguments self count) := by
  induction count with
  | zero => exact keeps_pure _
  | succ count ih =>
    exact keeps_bind hself fun _ => keeps_bind (keeps_modify fun _ hs => hs) fun _ => ih

theorem keeps_timeLagIn (register : CursorRegister) (hself : Keeps p d self) (lag : Int) :
    Keeps p d (do
      moveIn register lag
      let value ← lagged self
      moveIn register (-lag)
      return value : Action Float) :=
  keeps_bind (keeps_moveIn register _) fun _ => keeps_bind (keeps_lagged hself) fun _ =>
    keeps_bind (keeps_moveIn register _) fun _ => keeps_pure _

theorem keeps_integrateIn (register : CursorRegister) (hself : Keeps p d self) (lag : Int) :
    Keeps p d (integrateIn register self lag) :=
  keeps_get_bind fun _ hs =>
    keeps_bind (keeps_accumulateIn register hself hs.1 _ _ _) fun _ =>
      keeps_bind (keeps_moveIn register _) fun _ =>
        keeps_bind (keeps_lagged hself) fun _ => keeps_pure _

theorem keeps_differentiateIn (register : CursorRegister) (hself : Keeps p d self) :
    Keeps p d (differentiateIn register self) :=
  have hlag := keeps_lagged hself
  have hmove := keeps_moveIn register
  keeps_get_bind fun _ hs =>
    keeps_bind hlag fun _ => keeps_bind (hmove _) fun _ =>
      keeps_bind (keeps_jump hs.1) fun _ => keeps_bind hlag fun _ =>
        keeps_bind (hmove _) fun _ => keeps_bind (keeps_jump hs.1) fun _ =>
          keeps_bind hlag fun _ => keeps_bind (hmove _) fun _ =>
            keeps_bind (keeps_jump hs.1) fun _ => keeps_bind hlag fun _ =>
              keeps_bind (hmove _) fun _ => keeps_pure _

/-- Inside a function one more is running; it is left at the address after the call. -/
theorem keeps_enter {count target : Nat} (hself : Keeps target (d + 1) self) :
    Keeps p d (enter self count target) := by
  refine keeps_get_bind fun s₀ _ => keeps_bind (keeps_ofOption _ _) fun stack =>
    keeps_get_bind fun s₁ hs₁ => ?_
  intro s hs
  obtain ⟨outcome, hrun, hdone⟩ :=
    hself { s with stack, pc := target, callDepth := s.callDepth + 1 }
      ⟨Nat.le_refl _, by rw [hs.2]⟩
  cases outcome with
  | done value s' =>
    have hdepth := (hdone value s' rfl).2
    refine ⟨.done value { s' with
      stack := s'.stack.leave, pc := s₁.pc, callDepth := s'.callDepth - 1 }, ?_, ?_⟩
    · simp only [bind, Action.bind, Action.modify, hrun, pure, Action.pure]
    · intro _ _ h
      cases h
      exact ⟨hs₁.1, by simp only [hdepth]; rfl⟩
  | fault cause s' =>
    refine ⟨.fault cause s', ?_, fun _ _ h => by cases h⟩
    simp only [bind, Action.bind, Action.modify, hrun]

theorem keeps_call (hself : Keeps p d self)
    (hbody : d < m.maxCallDepth → ∀ target, Keeps target (d + 1) self) (i : BoundInstruction) :
    Keeps p d (m.call self i) := by
  have hgiveUp : Keeps p d (do
      Action.modify fun s => { s with stack := s.stack.discard i.argCount }
      return nan : Action Float) :=
    keeps_bind (keeps_modify fun _ hs => hs) fun _ => keeps_pure _
  refine keeps_bind (keeps_pushArguments hself _) fun _ => keeps_get_bind fun s hs => ?_
  split
  · split
    · next hlt => exact keeps_enter (hbody (hs.2 ▸ hlt) _)
    · exact hgiveUp
  · exact hgiveUp

theorem keeps_weighted (i : BoundInstruction) (weight : Float) :
    Keeps p d (m.weighted i weight) := by
  simp only [weighted]
  split
  · refine keeps_bind (keeps_read m _) fun value => ?_
    cases value <;> exact keeps_pure _
  · exact keeps_pure _

theorem keeps_weightedAtIn (register : CursorRegister) (i : BoundInstruction) (weight : Float)
    (lag : Int) : Keeps p d (m.weightedAtIn register i weight lag) := by
  refine keeps_get_bind fun _ _ => ?_
  split
  · refine keeps_bind (keeps_ofOption _ _) fun position => ?_
    split <;> exact keeps_pure _
  · exact keeps_pure _

theorem keeps_categorized (i : BoundInstruction) (number : String → Float) :
    Keeps p d (m.categorized i number) := by
  simp only [categorized]
  split
  · refine keeps_bind (keeps_read m _) fun value => ?_
    cases value <;> exact keeps_pure _
  · exact keeps_pure _

theorem keeps_readNumber (i : BoundInstruction) : Keeps p d (m.readNumber i) := by
  simp only [readNumber]
  split
  · exact keeps_read m _
  · exact keeps_pure _

theorem keeps_conditional (hself : Keeps p d self) (i : BoundInstruction)
    (threshold steepness : Float) (ignoreSlope : Bool) :
    Keeps p d (m.conditional self i threshold steepness ignoreSlope) := by
  refine keeps_bind (keeps_readNumber m i) fun value => ?_
  cases value with
  | none =>
    exact keeps_bind (keeps_skip m) fun _ => keeps_bind (keeps_skip m) fun _ => keeps_pure _
  | some value =>
    dsimp only
    split
    · split
      · exact keeps_bind hself fun _ => keeps_bind (keeps_skip m) fun _ => keeps_pure _
      · exact keeps_bind (keeps_skip m) fun _ => hself
    · exact keeps_bind hself fun _ => keeps_bind hself fun _ => keeps_pure _

theorem keeps_performIn (register : CursorRegister) (hself : Keeps p d self)
    (hbody : d < m.maxCallDepth → ∀ target, Keeps target (d + 1) self) (i : BoundInstruction) :
    Keeps p d (m.performIn register self i) := by
  unfold performIn perform
  cases i.opcode.operation with
  | strict operands combine => exact keeps_bind (keeps_collect hself _ _) fun _ => keeps_pure _
  | choice =>
    refine keeps_bind hself fun _ => ?_
    split
    · exact keeps_bind hself fun _ => keeps_bind (keeps_skip m) fun _ => keeps_pure _
    · exact keeps_bind (keeps_skip m) fun _ => hself
  | conjunction => exact keeps_bind hself fun _ => keeps_allTrue m hself _ _
  | disjunction => exact keeps_bind hself fun _ => keeps_anyTrue m hself _ _
  | timeLag =>
    dsimp only
    split
    · exact keeps_timeLagIn register hself _
    · exact keeps_mismatch i
  | integral =>
    dsimp only
    split
    · exact keeps_integrateIn register hself _
    · exact keeps_mismatch i
  | derivative => exact keeps_differentiateIn register hself
  | call => exact keeps_call m hself hbody i
  | argument =>
    dsimp only
    split
    · exact keeps_get_bind fun _ _ => keeps_ofOption _ _
    · exact keeps_mismatch i
  | constant =>
    dsimp only
    split
    · exact keeps_pure _
    · exact keeps_mismatch i
  | numericVariable =>
    dsimp only
    split
    · exact keeps_weighted m i _
    · exact keeps_mismatch i
  | lagVariable =>
    dsimp only
    split
    · exact keeps_weightedAtIn m register i _ _
    · exact keeps_mismatch i
  | factorVariable =>
    dsimp only
    split
    · exact keeps_categorized m i _
    · exact keeps_mismatch i
  | binaryFactorVariable =>
    dsimp only
    split
    · exact keeps_categorized m i _
    · exact keeps_mismatch i
  | variableCondition =>
    dsimp only
    split
    · exact keeps_conditional m hself i _ _ _
    · exact keeps_mismatch i

end Operands

/-! ## Runs -/

/-- How deep runs may nest from the address `p` on with `d` functions running: over the rest of the
code, and over all of it for every function that may still be entered. -/
def stepBound (m : Machine) (p d : Nat) : Nat :=
  (m.maxCallDepth - d) * (m.code.size + 1) + (m.code.size - p) + 1

/-- Entering a function leaves room for all of the code. -/
theorem stepBound_enter (m : Machine) {d : Nat} (h : d < m.maxCallDepth) (p target : Nat) :
    m.stepBound target (d + 1) ≤ m.stepBound p d - 1 := by
  obtain ⟨k, hk⟩ : ∃ k, m.maxCallDepth - d = k + 1 := ⟨m.maxCallDepth - d - 1, by omega⟩
  have hk' : m.maxCallDepth - (d + 1) = k := by omega
  simp only [stepBound, hk, hk', Nat.add_mul]
  omega

theorem keeps_runIn (m : Machine) (register : CursorRegister) (steps : Nat) :
    ∀ {p d : Nat}, m.stepBound p d ≤ steps → Keeps p d (m.runIn register steps) := by
  induction steps with
  | zero => intro p d h; simp [stepBound] at h
  | succ steps ih =>
    intro p d h s hs
    change ∃ o, Action.bind m.fetch (m.performIn register (m.runIn register steps)) s = some o ∧ _
    simp only [Action.bind, fetch]
    cases hfetch : m.code[s.pc]? with
    | none => exact ⟨_, rfl, fun _ _ h => by cases h⟩
    | some i =>
      have hlt : s.pc < m.code.size := (Array.getElem?_eq_some_iff.mp hfetch).1
      have hself : Keeps (s.pc + 1) d (m.runIn register steps) := by
        refine ih ?_
        have := hs.1
        simp only [stepBound] at h ⊢
        omega
      have hbody : d < m.maxCallDepth → ∀ target, Keeps target (d + 1) (m.runIn register steps) :=
        fun hd target => ih (Nat.le_trans (stepBound_enter m hd p target) (by omega))
      obtain ⟨outcome, hrun, hdone⟩ := keeps_performIn m register hself hbody i
        { s with pc := s.pc + 1, executed := s.executed + 1 } ⟨Nat.le_refl _, hs.2⟩
      refine ⟨outcome, hrun, fun value s' e => ?_⟩
      obtain ⟨hpc, hdepth⟩ := hdone value s' e
      exact ⟨by have := hs.1; omega, hdepth⟩

/-- A run within the bound is finished. -/
theorem runIn_isSome (m : Machine) (register : CursorRegister) (s : State) :
    (m.runIn register (m.stepBound s.pc s.callDepth) s).isSome := by
  obtain ⟨outcome, hrun, -⟩ := m.keeps_runIn register _ (Nat.le_refl _) s ⟨Nat.le_refl _, rfl⟩
  simp [hrun]

theorem run_isSome (m : Machine) (s : State) :
    (m.run (m.stepBound s.pc s.callDepth) s).isSome := by
  rw [← runIn_exact]
  exact m.runIn_isSome .exact s

/-- Runs the subtree at the program counter to its end. -/
def evaluate (m : Machine) (s : State) : Outcome Float :=
  (m.run (m.stepBound s.pc s.callDepth) s).get (m.run_isSome s)

theorem run_stepBound (m : Machine) (s : State) :
    m.run (m.stepBound s.pc s.callDepth) s = some (m.evaluate s) :=
  (Option.some_get (m.run_isSome s)).symm

/-- Runs the subtree at the program counter to its end, with the cursor in a register. -/
def evaluateIn (m : Machine) (register : CursorRegister) (s : State) : Outcome Float :=
  (m.runIn register (m.stepBound s.pc s.callDepth) s).get (m.runIn_isSome register s)

theorem runIn_stepBound (m : Machine) (register : CursorRegister) (s : State) :
    m.runIn register (m.stepBound s.pc s.callDepth) s = some (m.evaluateIn register s) :=
  (Option.some_get (m.runIn_isSome register s)).symm

theorem evaluateIn_exact (m : Machine) (s : State) : m.evaluateIn .exact s = m.evaluate s :=
  Option.some.inj <| by rw [← runIn_stepBound, runIn_exact, run_stepBound]

end FormulaEngine.Machine
