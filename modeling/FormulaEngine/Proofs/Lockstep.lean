import FormulaEngine.Proofs.Balance
import FormulaEngine.Proofs.Observation

/-!
# Runs in lockstep

Two ways to run subtrees make no difference to an instruction if they make none where the
instruction runs its operands and functions. Which states these are is said once, so that every
comparison of two runs of a machine is an induction that looks at these states only.

- `Machine.EndsAs`: from a state, one action ends as another one does, if it ends at all;
- `Machine.Starts`: the states in which an instruction may run an operand or a function;
- `Machine.Occurs`: the states in which an instruction may be looked at;
- `Machine.performIn_endsAs`: an instruction ends as it does with another way to run subtrees, and
  with the cursor in a register, if the two agree in these states and the register holds the rows
  that a lag may lead to;
- `Machine.performObserved_endsAs`: an instruction ends as it does with another way to run subtrees,
  and under other eyes;
- `Machine.runObserved_endsAs`, `Machine.run_endsAs`: allowing more states or more steps does not
  change how a run ends;
- `Machine.perform_of_reads`: a machine on another dataset performs an instruction alike if it reads
  the same;
- `Evaluation.AgreeAt`: two evaluations do the same at a row.

The states are described from the balance of runs: operands leave everything as it was but program
counter and count of instructions, so only these two are open.
-/

namespace FormulaEngine

namespace ArgumentStack

/-- The stack with a frame of arguments on top. -/
def framed (values : List Float) (stack : ArgumentStack) : ArgumentStack :=
  ⟨.length values.length :: (values.map .argument ++ stack.cells), stack.pending⟩

/-- The places in use: those of all frames, their marks included, and the arguments of calls under
construction. -/
def occupied (stack : ArgumentStack) : Nat := stack.depth + stack.pending.length

@[simp] theorem occupied_pushAll (values : List Float) (stack : ArgumentStack) :
    (stack.pushAll values).occupied = stack.occupied + values.length := by
  simp only [occupied, depth, pushAll, List.length_append, List.length_reverse]
  omega

@[simp] theorem occupied_framed (values : List Float) (stack : ArgumentStack) :
    (stack.framed values).occupied = stack.occupied + values.length + 1 := by
  simp only [occupied, depth, framed, List.length_cons, List.length_append, List.length_map]
  omega

/-- A frame that has been made comes off again. -/
theorem leave_framed (values : List Float) (stack : ArgumentStack) :
    (stack.framed values).leave = stack := by
  have hlength : (values.map Cell.argument).length = values.length := List.length_map _
  simp only [framed, leave, List.drop_left' hlength]

/-- Putting aside one value after another. -/
theorem pushAll_push (value : Float) (values : List Float) (stack : ArgumentStack) :
    (stack.push value).pushAll values = stack.pushAll (value :: values) := by
  simp [pushAll, push]

end ArgumentStack

/-- Only one opcode calls functions. -/
theorem Opcode.eq_call {op : Opcode} (h : op.operation = .call) : op = .call := by
  cases op <;> first | rfl | cases h

/-- The rows, counted from the cursor, at which an instruction runs its operand as lagged. -/
def BoundInstruction.Shifts (i : BoundInstruction) (offset : Int) : Prop :=
  match i.opcode.operation, i.node.symbol with
  | .timeLag, .timeLag lag => offset = lag.toInt
  | .integral, .integral lag => ∃ count ≤ lag.toInt.natAbs, offset = lag.toInt.sign * count
  | .derivative, _ => offset = 0 ∨ offset = -1 ∨ offset = -3 ∨ offset = -4
  | _, _ => False

/-- As far as a lag can lead. -/
def lagReach : Int := 2147483648

theorem Lag.toInt_within (lag : Lag) : -lagReach ≤ lag.toInt ∧ lag.toInt ≤ lagReach := by
  have hlow := lag.le_toInt
  have hhigh := lag.toInt_lt
  unfold lagReach
  omega

theorem BoundInstruction.Shifts.within {i : BoundInstruction} {offset : Int} (h : i.Shifts offset) :
    -lagReach ≤ offset ∧ offset ≤ lagReach := by
  unfold Shifts at h
  split at h
  · next lag _ _ =>
    rw [h]
    exact Lag.toInt_within lag
  · next lag _ _ =>
    obtain ⟨count, hcount, rfl⟩ := h
    have hlag := Lag.toInt_within lag
    rcases Int.lt_trichotomy lag.toInt 0 with hneg | hzero | hpos
    · rw [Int.sign_eq_neg_one_of_neg hneg]
      omega
    · rw [hzero]
      unfold lagReach
      simp
    · rw [Int.sign_eq_one_of_pos hpos]
      omega
  · unfold lagReach
    omega
  · exact h.elim

namespace Machine

variable {α β : Type} {m : Machine}

/-! ## Ending alike -/

/-- If `action` ends from `s`, then `other` ends from there with the same outcome. -/
def EndsAs (s : State) (action other : Action α) : Prop :=
  ∀ outcome, action s = some outcome → other s = some outcome

theorem EndsAs.refl (s : State) (action : Action α) : EndsAs s action action :=
  fun _ h => h

theorem EndsAs.trans {s : State} {first second third : Action α} (h : EndsAs s first second)
    (h' : EndsAs s second third) : EndsAs s first third :=
  fun outcome hfirst => h' outcome (h outcome hfirst)

/-- An action that ends as a finished one does has no other outcome. -/
theorem EndsAs.eq_of_isSome {s : State} {action other : Action α} (h : EndsAs s action other)
    (hsome : (action s).isSome) : other s = action s := by
  obtain ⟨outcome, houtcome⟩ := Option.isSome_iff_exists.mp hsome
  rw [houtcome, h outcome houtcome]

theorem endsAs_bind {s : State} {action other : Action α} {next next' : α → Action β}
    (h : EndsAs s action other)
    (hnext : ∀ value s', action s = some (.done value s') →
      EndsAs s' (next value) (next' value)) :
    EndsAs s (action >>= next) (other >>= next') := by
  intro outcome hrun
  change Action.bind action next s = _ at hrun
  change Action.bind other next' s = _
  unfold Action.bind at hrun ⊢
  cases haction : action s with
  | none =>
    rw [haction] at hrun
    cases hrun
  | some found =>
    rw [haction] at hrun
    rw [h found haction]
    cases found with
    | done value s' => exact hnext value s' haction outcome hrun
    | fault cause s' => exact hrun

/-- After the same beginning. -/
theorem endsAs_after {s : State} (action : Action α) {next next' : α → Action β}
    (hnext : ∀ value s', action s = some (.done value s') →
      EndsAs s' (next value) (next' value)) :
    EndsAs s (action >>= next) (action >>= next') :=
  endsAs_bind (EndsAs.refl s action) hnext

/-- Before the same end. -/
theorem endsAs_before {s : State} {action other : Action α} (h : EndsAs s action other)
    (next : α → Action β) : EndsAs s (action >>= next) (other >>= next) :=
  endsAs_bind h fun value s' _ => EndsAs.refl s' (next value)

/-! ## States in which subtrees are run -/

/-- Behind its fetch in `s`, the instruction `i` may run an operand or a function in this state. -/
inductive Starts (m : Machine) (i : BoundInstruction) (s : State) : State → Prop where
  /-- The operand behind `count` others. -/
  | operand {count pc executed : Nat}
      (more : count < i.opcode.operation.operandCount i.argCount)
      (before : m.Passes count s.pc pc) : Starts m i s { s with pc, executed }
  /-- The only operand, at another row. -/
  | shifted {offset : Int} {executed : Nat} (reached : i.Shifts offset) :
      Starts m i s { s with cursor := s.cursor + offset, lagged := true, executed }
  /-- An argument of a call, behind others that have been put aside. -/
  | argument {values : List Float} {pc executed : Nat} (called : i.opcode.operation = .call)
      (more : values.length < i.argCount) (before : m.Passes values.length s.pc pc) :
      Starts m i s { s with pc, executed, stack := s.stack.pushAll values }
  /-- The function of a call, in a frame of all arguments. -/
  | body {values : List Float} {target executed : Nat} (called : i.opcode.operation = .call)
      (jumps : i.data = .jump target) (room : s.callDepth < m.maxCallDepth)
      (all : values.length = i.argCount) :
      Starts m i s { s with
        pc := target, executed, stack := s.stack.framed values, callDepth := s.callDepth + 1 }

/-- Behind its fetch in `s`, the instruction `i` may be looked at in this state. -/
inductive Occurs (m : Machine) (i : BoundInstruction) (s : State) : Moment → State → Prop where
  | pushed {values : List Float} {pc executed : Nat} (called : i.opcode.operation = .call)
      (upTo : values.length ≤ i.argCount) :
      Occurs m i s .pushed { s with pc, executed, stack := s.stack.pushAll values }
  | entered {values : List Float} {target executed : Nat} (called : i.opcode.operation = .call)
      (jumps : i.data = .jump target) (room : s.callDepth < m.maxCallDepth)
      (all : values.length = i.argCount) :
      Occurs m i s .entered { s with
        pc := target, executed, stack := s.stack.framed values, callDepth := s.callDepth + 1 }
  | left {pc executed : Nat} : Occurs m i s .left { s with pc, executed }
  | cutOff {values : List Float} {pc executed : Nat} (called : i.opcode.operation = .call)
      (full : m.maxCallDepth ≤ s.callDepth) (all : values.length = i.argCount) :
      Occurs m i s .cutOff { s with pc, executed, stack := s.stack.pushAll values }
  | discarded {pc executed : Nat} : Occurs m i s .discarded { s with pc, executed }

/-! ## Operands one after another -/

section Operands

variable {self self' : Action Float} {s : State}

/-- Each of the next `count` operands ends with `self` as it does with `self'`. -/
def OperandsAlike (m : Machine) (self self' : Action Float) (count : Nat) (s : State) : Prop :=
  ∀ before pc executed, before < count → m.Passes before s.pc pc →
    EndsAs { s with pc, executed } self self'

theorem OperandsAlike.head {count : Nat} (h : m.OperandsAlike self self' (count + 1) s) :
    EndsAs s self self' :=
  h 0 s.pc s.executed (Nat.succ_pos count) (.nothing s.pc)

theorem OperandsAlike.tail {count pc executed : Nat}
    (h : m.OperandsAlike self self' (count + 1) s) (hpc : m.Passes 1 s.pc pc) :
    m.OperandsAlike self self' count { s with pc, executed } := by
  intro before pc' executed' hbefore hpc'
  exact h (before + 1) pc' executed' (by omega) (Nat.add_comm 1 before ▸ hpc.append hpc')

/-- The first operand is run and what follows runs the others. -/
theorem OperandsAlike.bind {count : Nat} (hself : m.Balances .exact 1 self)
    (h : m.OperandsAlike self self' (count + 1) s) {next next' : Float → Action α}
    (hnext : ∀ value s', m.OperandsAlike self self' count s' →
      EndsAs s' (next value) (next' value)) : EndsAs s (self >>= next) (self' >>= next') := by
  refine endsAs_bind h.head fun value s' hrun => ?_
  obtain ⟨pc, executed, hpc, -, rfl⟩ := hself hrun rfl
  exact hnext value _ (h.tail hpc)

/-- The first operand is skipped and what follows runs the others. -/
theorem OperandsAlike.skip_bind {count : Nat} (h : m.OperandsAlike self self' (count + 1) s)
    {next next' : Unit → Action α}
    (hnext : ∀ s', m.OperandsAlike self self' count s' → EndsAs s' (next ()) (next' ())) :
    EndsAs s (m.skip >>= next) (m.skip >>= next') := by
  refine endsAs_after m.skip fun value s' hrun => ?_
  obtain ⟨pc, executed, hpc, -, rfl⟩ := (balances_skip : m.Balances .exact 1 m.skip) hrun rfl
  exact hnext _ (h.tail hpc)

theorem collect_endsAs (hself : m.Balances .exact 1 self) {count : Nat}
    (h : m.OperandsAlike self self' count s) (found : List Float) :
    EndsAs s (collect self count found) (collect self' count found) := by
  induction count generalizing s found with
  | zero => exact EndsAs.refl s _
  | succ count ih => exact h.bind hself fun value s' h' => ih h' (value :: found)

theorem operandsWhile_endsAs (hself : m.Balances .exact 1 self) (goesOn : Float → Bool) {count : Nat}
    (h : m.OperandsAlike self self' count s) (last : Float) :
    EndsAs s (m.operandsWhile self goesOn count last) (m.operandsWhile self' goesOn count last) := by
  induction count generalizing s last with
  | zero => exact EndsAs.refl s _
  | succ count ih =>
    unfold operandsWhile
    split
    · exact h.bind hself fun value s' h' => ih h' value
    · exact h.skip_bind fun s' h' => ih h' last

/-- Of two operands the first is run and the second skipped, or the other way round. -/
theorem either_endsAs (h : m.OperandsAlike self self' 2 s)
    (first : Prop) [Decidable first] :
    EndsAs s
      (if first then (self >>= fun value => m.skip >>= fun _ => pure value)
        else (m.skip >>= fun _ => self) : Action Float)
      (if first then (self' >>= fun value => m.skip >>= fun _ => pure value)
        else (m.skip >>= fun _ => self') : Action Float) := by
  split
  · exact endsAs_before h.head _
  · exact h.skip_bind fun s' h' => h'.head

theorem conditional_endsAs (hself : m.Balances .exact 1 self) (h : m.OperandsAlike self self' 2 s)
    (i : BoundInstruction) (threshold steepness : Float) (ignoreSlope : Bool) :
    EndsAs s (m.conditional self i threshold steepness ignoreSlope)
      (m.conditional self' i threshold steepness ignoreSlope) := by
  refine endsAs_after (m.readNumber i) fun value s' hread => ?_
  obtain ⟨pc, executed, hpc, -, rfl⟩ :=
    (balances_readNumber i : m.Balances .exact 0 _) hread rfl
  cases value with
  | none => exact EndsAs.refl _ _
  | some value =>
    -- reading has not moved past anything
    obtain rfl : pc = s.pc := by cases hpc; rfl
    have hagain : m.OperandsAlike self self' 2 { s with pc := s.pc, executed } :=
      fun before pc executed hbefore hpc => h before pc executed hbefore hpc
    cases ignoreSlope with
    | true => exact either_endsAs hagain (value ≤ threshold)
    | false => exact hagain.bind hself fun left s' h' => endsAs_before h'.head _

/-! ## Operands at other rows -/

section Shifted

variable {register : CursorRegister}

theorem place_bind {position : Int} (h : register position = some position)
    (next : Int → Action α) : (place register position >>= next) s = next position s := by
  show Action.bind (place register position) next s = _
  unfold Action.bind place
  rw [h]
  rfl

/-- A register that holds the new position is moved to it. -/
theorem moveIn_bind {rows : Int} (h : register (s.cursor + rows) = some (s.cursor + rows))
    (next : Unit → Action α) :
    (moveIn register rows >>= next) s = next () { s with cursor := s.cursor + rows } := by
  have hmove : moveIn register rows s = some (.done () { s with cursor := s.cursor + rows }) := by
    rw [moveIn, get_bind, place_bind h]
    rfl
  exact bind_of_done hmove

theorem lagged_endsAs (h : EndsAs { s with lagged := true } self self') :
    EndsAs s (lagged self) (lagged self') := by
  intro outcome hrun
  rw [lagged, get_bind, modify_bind] at hrun ⊢
  exact endsAs_before h _ outcome hrun

/-- The rounds of an accumulation go over the rows behind the cursor. -/
theorem accumulate_endsAs (hself : m.Balances .exact 1 self) {step : Int} {count : Nat}
    (hregister : ∀ round : Nat, round ≤ count →
      register (s.cursor + step * round) = some (s.cursor + step * round))
    (h : ∀ (round : Nat) executed, round ≤ count →
      EndsAs { s with cursor := s.cursor + step * round, lagged := true, executed } self self')
    (sum : Float) :
    EndsAs s (accumulate self s.pc step count sum)
      (accumulateIn register self' s.pc step count sum) := by
  induction count generalizing s sum with
  | zero => exact EndsAs.refl s _
  | succ count ih =>
    -- the rows of the other rounds, counted from where the first one is
    have hrow : ∀ round : Nat,
        s.cursor + step * (round + 1 : Nat) = s.cursor + step + step * round := by
      intro round
      rw [Int.natCast_succ, Int.mul_add]
      omega
    have hfirst := hrow 0
    rw [Int.natCast_zero, Int.mul_zero, Int.add_zero] at hfirst
    have hone : register (s.cursor + step) = some (s.cursor + step) := by
      rw [← hfirst]
      exact hregister 1 (by omega)
    have hround : EndsAs { s with cursor := s.cursor + step } (lagged self) (lagged self') := by
      refine lagged_endsAs ?_
      rw [← hfirst]
      exact h 1 s.executed (by omega)
    intro outcome hrun
    rw [accumulate, move_bind] at hrun
    rw [accumulateIn, moveIn_bind hone]
    refine endsAs_bind hround (fun value s' hvalue => ?_) outcome hrun
    obtain ⟨pc, executed, -, -, rfl⟩ := balances_lagged hself hvalue rfl
    have hrest := ih (s := { s with cursor := s.cursor + step, executed })
      (fun round hle => by
        rw [← hrow]
        exact hregister (round + 1) (by omega))
      (fun round executed' hle => by
        have hnext := h (round + 1) executed' (by omega)
        rw [hrow] at hnext
        exact hnext) (sum + value)
    exact hrest

/-- The operand is run as lagged, and the cursor is moved afterwards. -/
theorem returned_endsAs (hself : m.Balances .exact 1 self)
    (h : EndsAs { s with lagged := true } self self') {rows : Int}
    (hregister : register (s.cursor + rows) = some (s.cursor + rows))
    (next : Float → Action Float) :
    EndsAs s (lagged self >>= fun value => move rows >>= fun _ => next value)
      (lagged self' >>= fun value => moveIn register rows >>= fun _ => next value) := by
  refine endsAs_bind (lagged_endsAs h) fun value s' hvalue => ?_
  obtain ⟨pc, executed, -, -, rfl⟩ := balances_lagged hself hvalue rfl
  intro outcome hrun
  rw [moveIn_bind (s := { s with pc, executed }) hregister]
  exact hrun

theorem integrate_endsAs (hself : m.Balances .exact 1 self) {lag : Int}
    (hregister : ∀ count : Nat, count ≤ lag.natAbs →
      register (s.cursor + lag.sign * count) = some (s.cursor + lag.sign * count))
    (h : ∀ (count : Nat) executed, count ≤ lag.natAbs →
      EndsAs { s with cursor := s.cursor + lag.sign * count, lagged := true, executed } self
        self') : EndsAs s (integrate self lag) (integrateIn register self' lag) := by
  intro outcome hrun
  rw [integrate, get_bind] at hrun
  rw [integrateIn, get_bind]
  refine endsAs_bind (accumulate_endsAs hself hregister h 0.0) (fun sum s' hsum => ?_) outcome hrun
  obtain ⟨executed, -, rfl⟩ := accumulate_done hself hsum
  -- the cursor comes back to where it was
  have hback : s.cursor + lag.sign * lag.natAbs + -lag = s.cursor + lag.sign * (0 : Nat) := by
    rw [Int.sign_mul_natAbs, Int.natCast_zero, Int.mul_zero]
    omega
  have hplace : register (s.cursor + lag.sign * lag.natAbs + -lag) =
      some (s.cursor + lag.sign * lag.natAbs + -lag) := by
    rw [hback]
    exact hregister 0 (Nat.zero_le _)
  intro outcome hrun
  rw [move_bind] at hrun
  rw [moveIn_bind hplace]
  refine endsAs_before (lagged_endsAs ?_) _ outcome hrun
  have hlast := h 0 executed (Nat.zero_le _)
  rw [← hback] at hlast
  exact hlast

/-- The operand is run as lagged, then the cursor is moved on and the operand started again. -/
theorem rewound_endsAs (hself : m.Balances .exact 1 self)
    (h : EndsAs { s with lagged := true } self self') {rows : Int}
    (hregister : register (s.cursor + rows) = some (s.cursor + rows))
    {next next' : Float → Action Float}
    (hnext : ∀ value executed,
      EndsAs { s with cursor := s.cursor + rows, executed } (next value) (next' value)) :
    EndsAs s (lagged self >>= fun found => move rows >>= fun _ => jump s.pc >>= fun _ => next found)
      (lagged self' >>= fun found =>
        moveIn register rows >>= fun _ => jump s.pc >>= fun _ => next' found) := by
  refine endsAs_bind (lagged_endsAs h) fun value s' hvalue => ?_
  obtain ⟨pc, executed, -, -, rfl⟩ := balances_lagged hself hvalue rfl
  intro outcome hrun
  rw [moveIn_bind (s := { s with pc, executed }) hregister]
  exact hnext value executed outcome hrun

theorem differentiate_endsAs (hself : m.Balances .exact 1 self)
    (hregister : ∀ offset, offset = 0 ∨ offset = -1 ∨ offset = -3 ∨ offset = -4 →
      register (s.cursor + offset) = some (s.cursor + offset))
    (h : ∀ offset executed, offset = 0 ∨ offset = -1 ∨ offset = -3 ∨ offset = -4 →
      EndsAs { s with cursor := s.cursor + offset, lagged := true, executed } self self') :
    EndsAs s (differentiate self) (differentiateIn register self') := by
  have h0 := h 0 s.executed (Or.inl rfl)
  have h1 := fun executed => h (-1) executed (Or.inr (Or.inl rfl))
  have h3 := fun executed => h (-3) executed (Or.inr (Or.inr (Or.inl rfl)))
  have h4 := fun executed => h (-4) executed (Or.inr (Or.inr (Or.inr rfl)))
  have hplace0 := hregister 0 (Or.inl rfl)
  have hplace1 := hregister (-1) (Or.inr (Or.inl rfl))
  have hplace3 := hregister (-3) (Or.inr (Or.inr (Or.inl rfl)))
  have hplace4 := hregister (-4) (Or.inr (Or.inr (Or.inr rfl)))
  -- the rows as the moves come to them, one after another
  have hrow3 : s.cursor + -3 = s.cursor + -1 + -2 := by omega
  have hrow4 : s.cursor + -4 = s.cursor + -1 + -2 + -1 := by omega
  have hrow0 : s.cursor + 0 = s.cursor + -1 + -2 + -1 + 4 := by omega
  rw [Int.add_zero] at h0
  rw [hrow3] at h3 hplace3
  rw [hrow4] at h4 hplace4
  rw [hrow0] at hplace0
  intro outcome hrun
  rw [differentiate, get_bind] at hrun
  rw [differentiateIn, get_bind]
  refine rewound_endsAs hself h0 hplace1 (fun f0 executed₁ => ?_) outcome hrun
  refine rewound_endsAs (s := { s with cursor := s.cursor + -1, executed := executed₁ }) hself
    (h1 executed₁) hplace3 fun f1 executed₂ => ?_
  refine rewound_endsAs (s := { s with cursor := s.cursor + -1 + -2, executed := executed₂ }) hself
    (h3 executed₂) hplace4 fun f3 executed₃ => ?_
  exact returned_endsAs
    (s := { s with cursor := s.cursor + -1 + -2 + -1, executed := executed₃ }) hself
    (h4 executed₃) hplace0 _

/-- The cursor is moved away, the operand is run there, and the cursor comes back. -/
theorem timeLag_endsAs (hself : m.Balances .exact 1 self) {lag : Int}
    (haway : register (s.cursor + lag) = some (s.cursor + lag))
    (hback : register s.cursor = some s.cursor)
    (h : EndsAs { s with cursor := s.cursor + lag, lagged := true } self self') :
    EndsAs s
      (do
        move lag
        let value ← lagged self
        move (-lag)
        return value : Action Float)
      (do
        moveIn register lag
        let value ← lagged self'
        moveIn register (-lag)
        return value : Action Float) := by
  intro outcome hrun
  rw [move_bind] at hrun
  rw [moveIn_bind haway]
  refine returned_endsAs (s := { s with cursor := s.cursor + lag }) hself h ?_ _ outcome hrun
  show register (s.cursor + lag + -lag) = some (s.cursor + lag + -lag)
  rw [Int.add_neg_cancel_right]
  exact hback

/-- A lagged variable reads at a position that the register holds. -/
theorem weightedAt_endsAs (i : BoundInstruction) (weight : Float) {lag : Int}
    (hregister : register (s.cursor + lag) = some (s.cursor + lag)) :
    EndsAs s (m.weightedAt i weight lag) (m.weightedAtIn register i weight lag) := by
  intro outcome hrun
  rw [weightedAt, get_bind] at hrun
  rw [weightedAtIn, get_bind]
  cases hdata : i.data with
  | numeric column =>
    rw [hdata] at hrun
    show (place register (s.cursor + lag) >>= _) s = _
    rw [place_bind hregister]
    exact hrun
  | none | missing | jump _ | categorical _ =>
    rw [hdata] at hrun
    exact hrun

end Shifted

end Operands

/-! ## Calls under observation -/

section Calls

variable {allowed allowed' : Moment → State → Prop} [∀ moment, DecidablePred (allowed moment)]
  [∀ moment, DecidablePred (allowed' moment)] {self self' : Action Float} {s : State}

/-- A look that allows more, and what follows it. -/
theorem look_endsAs {moment : Moment} (h : allowed moment s → allowed' moment s)
    {next next' : Unit → Action α} (hnext : EndsAs s (next ()) (next' ())) :
    EndsAs s (look allowed moment >>= next) (look allowed' moment >>= next') := by
  refine endsAs_bind ?_ fun value s' hlook => ?_
  · intro outcome hlook
    unfold look at hlook ⊢
    split at hlook
    · next hallowed => rw [if_pos (h hallowed), ← hlook]
    · cases hlook
  · unfold look at hlook
    split at hlook
    · cases hlook
      exact hnext
    · cases hlook

theorem pushObserved_endsAs (hself : m.Balances .exact 1 self) {count : Nat}
    (h : ∀ (values : List Float) pc executed, values.length < count →
      m.Passes values.length s.pc pc →
        EndsAs { s with pc, executed, stack := s.stack.pushAll values } self self')
    (hlook : ∀ (values : List Float) pc executed, values.length ≤ count →
      allowed .pushed { s with pc, executed, stack := s.stack.pushAll values } →
        allowed' .pushed { s with pc, executed, stack := s.stack.pushAll values }) :
    EndsAs s (pushObserved allowed self count) (pushObserved allowed' self' count) := by
  induction count generalizing s with
  | zero => exact EndsAs.refl s _
  | succ count ih =>
    refine endsAs_bind (h [] s.pc s.executed (Nat.succ_pos count) (.nothing s.pc))
      fun value s' hrun => ?_
    obtain ⟨pc, executed, hpc, -, rfl⟩ := hself hrun rfl
    intro outcome hrun
    rw [modify_bind] at hrun ⊢
    refine look_endsAs (hlook [value] pc executed (by simp)) (ih ?_ ?_) outcome hrun
    · intro values pc' executed' hlt hpc'
      show EndsAs { s with
        pc := pc', executed := executed', stack := (s.stack.push value).pushAll values } self self'
      rw [ArgumentStack.pushAll_push]
      have hboth : m.Passes (values.length + 1) s.pc pc' :=
        Nat.add_comm 1 values.length ▸ hpc.append hpc'
      exact h (value :: values) pc' executed' (Nat.succ_lt_succ hlt) hboth
    · intro values pc' executed' hle
      show allowed .pushed { s with
          pc := pc', executed := executed', stack := (s.stack.push value).pushAll values } →
        allowed' .pushed { s with
          pc := pc', executed := executed', stack := (s.stack.push value).pushAll values }
      rw [ArgumentStack.pushAll_push]
      exact hlook (value :: values) pc' executed' (Nat.succ_le_succ hle)

/-- The arguments are put aside as they are unobserved. -/
theorem pushObserved_done (hself : m.Balances .exact 1 self) {count : Nat} {s' : State}
    (h : pushObserved allowed self count s = some (.done () s')) :
    ∃ values pc executed, values.length = count ∧ m.Passes count s.pc pc ∧
      s' = { s with pc, executed, stack := s.stack.pushAll values } := by
  have hpush : EndsAs s (pushObserved allowed self count)
      (pushObserved (fun _ _ => True) self count) :=
    pushObserved_endsAs hself (fun values pc executed _ _ => EndsAs.refl _ self)
      fun values pc executed _ _ => trivial
  rw [pushObserved_true] at hpush
  obtain ⟨values, pc, executed, hlength, hpc, -, rfl⟩ := pushArguments_done hself (hpush _ h) rfl
  exact ⟨values, pc, executed, hlength, hpc, rfl⟩

/-- A function ends alike in its frame, and the stack is looked at with the frame and without. -/
theorem enterObserved_endsAs (hself : m.Balances .exact 1 self) {values : List Float} {target : Nat}
    (h : EndsAs { s with
      pc := target, stack := s.stack.framed values, callDepth := s.callDepth + 1 } self self')
    (hentered : allowed .entered { s with
        pc := target, stack := s.stack.framed values, callDepth := s.callDepth + 1 } →
      allowed' .entered { s with
        pc := target, stack := s.stack.framed values, callDepth := s.callDepth + 1 })
    (hleft : ∀ executed, allowed .left { s with executed } → allowed' .left { s with executed }) :
    EndsAs { s with stack := s.stack.pushAll values }
      (enterObserved allowed self values.length target)
      (enterObserved allowed' self' values.length target) := by
  intro outcome hrun
  rw [enterObserved, get_bind, ArgumentStack.enter?_pushAll] at hrun ⊢
  refine look_endsAs hentered (endsAs_bind h fun value s' hvalue => ?_) outcome hrun
  obtain ⟨pc, executed, -, -, rfl⟩ := hself hvalue rfl
  intro outcome hrun
  rw [modify_bind] at hrun ⊢
  refine look_endsAs ?_ (EndsAs.refl _ _) outcome hrun
  simp only [ArgumentStack.leave_framed]
  exact hleft executed

theorem callObserved_endsAs (hself : m.Balances .exact 1 self) {i : BoundInstruction}
    (hcall : i.opcode.operation = .call) (h : ∀ t, m.Starts i s t → EndsAs t self self')
    (hlook : ∀ moment t, m.Occurs i s moment t → allowed moment t → allowed' moment t) :
    EndsAs s (m.callObserved allowed self i) (m.callObserved allowed' self' i) := by
  refine endsAs_bind (pushObserved_endsAs hself
    (fun values pc executed hlt hpc => h _ (.argument hcall hlt hpc))
    (fun values pc executed hle => hlook _ _ (.pushed hcall hle))) fun _ s' hpush => ?_
  obtain ⟨values, pc, executed, hlength, hpc, rfl⟩ := pushObserved_done hself hpush
  intro outcome hrun
  rw [get_bind, ← hlength] at hrun ⊢
  -- whatever comes instead of the function throws the arguments away
  have hdiscard : EndsAs { s with pc, executed, stack := s.stack.pushAll values }
      (do
        Action.modify fun s => { s with stack := s.stack.discard values.length }
        look allowed .discarded
        return nan : Action Float)
      (do
        Action.modify fun s => { s with stack := s.stack.discard values.length }
        look allowed' .discarded
        return nan : Action Float) := by
    intro outcome hrun
    rw [modify_bind] at hrun ⊢
    refine look_endsAs ?_ (EndsAs.refl _ _) outcome hrun
    simp only [ArgumentStack.discard_pushAll]
    exact hlook _ _ .discarded
  cases hdata : i.data with
  | jump target =>
    rw [hdata] at hrun
    change (if s.callDepth < m.maxCallDepth then enterObserved allowed self _ target else _) _ = _
      at hrun
    show (if s.callDepth < m.maxCallDepth then enterObserved allowed' self' _ target else _) _ = _
    by_cases hroom : s.callDepth < m.maxCallDepth
    · rw [if_pos hroom] at hrun ⊢
      exact enterObserved_endsAs (s := { s with pc, executed }) hself
        (h _ (.body hcall hdata hroom hlength)) (hlook _ _ (.entered hcall hdata hroom hlength))
        (fun executed => hlook _ _ .left) outcome hrun
    · rw [if_neg hroom] at hrun ⊢
      exact look_endsAs (hlook _ _ (.cutOff hcall (Nat.not_lt.mp hroom) hlength)) hdiscard
        outcome hrun
  | none | missing | numeric _ | categorical _ =>
    rw [hdata] at hrun
    exact hdiscard outcome hrun

end Calls

/-! ## Instructions -/

section Instructions

variable {self self' : Action Float} {s : State} {i : BoundInstruction}

/-- An instruction that calls no function ends alike if its operands do, with the cursor in any
register that holds the rows that a lag may lead to. -/
theorem performIn_endsAs {register : CursorRegister} (hself : m.Balances .exact 1 self)
    (hcall : i.opcode.operation ≠ .call)
    (hregister : register.Faithful (s.cursor - lagReach) (s.cursor + lagReach))
    (h : ∀ t, m.Starts i s t → EndsAs t self self') :
    EndsAs s (m.perform self i) (m.performIn register self' i) := by
  have hplace : ∀ {offset : Int}, -lagReach ≤ offset ∧ offset ≤ lagReach →
      register (s.cursor + offset) = some (s.cursor + offset) := by
    intro offset hoffset
    exact hregister _ (by omega) (by omega)
  have hhere : register s.cursor = some s.cursor := by
    have hzero := @hplace 0 (by unfold lagReach; omega)
    rwa [Int.add_zero] at hzero
  have hoperands : ∀ {count : Nat}, i.opcode.operation.operandCount i.argCount = count →
      m.OperandsAlike self self' count s := by
    rintro _ rfl before pc executed hbefore hpc
    exact h _ (.operand hbefore hpc)
  have hshifted : ∀ {offset : Int} {executed : Nat}, i.Shifts offset →
      EndsAs { s with cursor := s.cursor + offset, lagged := true, executed } self self' :=
    fun hreached => h _ (.shifted hreached)
  unfold performIn perform
  cases hoperation : i.opcode.operation with
  | strict operands combine =>
    exact endsAs_before (collect_endsAs hself (hoperands (by rw [hoperation]; rfl)) []) _
  | choice =>
    have hthree : m.OperandsAlike self self' 3 s := hoperands (by rw [hoperation]; rfl)
    exact hthree.bind hself fun condition s' htwo => either_endsAs htwo _
  | conjunction =>
    have hall : m.OperandsAlike self self' (i.argCount - 1 + 1) s :=
      hoperands (by rw [hoperation, Nat.add_comm]; rfl)
    refine hall.bind hself fun first s' hrest => ?_
    rw [allTrue_eq_operandsWhile, allTrue_eq_operandsWhile]
    exact operandsWhile_endsAs hself _ hrest first
  | disjunction =>
    have hall : m.OperandsAlike self self' (i.argCount - 1 + 1) s :=
      hoperands (by rw [hoperation, Nat.add_comm]; rfl)
    refine hall.bind hself fun first s' hrest => ?_
    rw [anyTrue_eq_operandsWhile, anyTrue_eq_operandsWhile]
    exact operandsWhile_endsAs hself _ hrest first
  | timeLag =>
    cases hsymbol : i.node.symbol with
    | timeLag lag =>
      have hreached : i.Shifts lag.toInt := by
        unfold BoundInstruction.Shifts
        rw [hoperation, hsymbol]
      exact timeLag_endsAs hself (hplace hreached.within) hhere (hshifted hreached)
    | _ => exact EndsAs.refl s _
  | integral =>
    cases hsymbol : i.node.symbol with
    | integral lag =>
      have hreached : ∀ count : Nat, count ≤ lag.toInt.natAbs →
          i.Shifts (lag.toInt.sign * count) := by
        intro count hcount
        unfold BoundInstruction.Shifts
        rw [hoperation, hsymbol]
        exact ⟨count, hcount, rfl⟩
      exact integrate_endsAs hself (fun count hcount => hplace (hreached count hcount).within)
        fun count executed hcount => hshifted (hreached count hcount)
    | _ => exact EndsAs.refl s _
  | derivative =>
    have hreached : ∀ offset : Int, offset = 0 ∨ offset = -1 ∨ offset = -3 ∨ offset = -4 →
        i.Shifts offset := by
      intro offset hoffset
      unfold BoundInstruction.Shifts
      rw [hoperation]
      exact hoffset
    exact differentiate_endsAs hself (fun offset hoffset => hplace (hreached offset hoffset).within)
      fun offset executed hoffset => hshifted (hreached offset hoffset)
  | call => exact absurd hoperation hcall
  | variableCondition =>
    dsimp only
    split
    · exact conditional_endsAs hself (hoperands (by rw [hoperation]; rfl)) i _ _ _
    · exact EndsAs.refl s _
  | lagVariable =>
    cases i.node.symbol with
    | laggedVariable name weight lag => exact weightedAt_endsAs i weight (hplace lag.toInt_within)
    | _ => exact EndsAs.refl s _
  | argument | constant | numericVariable | factorVariable | binaryFactorVariable =>
    exact EndsAs.refl s _

/-- With the cursor of the machine itself. -/
theorem perform_endsAs (hself : m.Balances .exact 1 self) (hcall : i.opcode.operation ≠ .call)
    (h : ∀ t, m.Starts i s t → EndsAs t self self') :
    EndsAs s (m.perform self i) (m.perform self' i) := by
  have hrun := performIn_endsAs hself hcall (CursorRegister.faithful_exact _ _) h
  rwa [performIn_exact] at hrun

variable {allowed allowed' : Moment → State → Prop} [∀ moment, DecidablePred (allowed moment)]
  [∀ moment, DecidablePred (allowed' moment)]

/-- An instruction ends alike if its operands and functions do and if nothing that happens in it is
allowed at first and forbidden then. -/
theorem performObserved_endsAs (hself : m.Balances .exact 1 self)
    (h : ∀ t, m.Starts i s t → EndsAs t self self')
    (hlook : ∀ moment t, m.Occurs i s moment t → allowed moment t → allowed' moment t) :
    EndsAs s (m.performObserved allowed self i) (m.performObserved allowed' self' i) := by
  unfold performObserved
  split
  · next hcall => exact callObserved_endsAs hself hcall h hlook
  · next hcall => exact perform_endsAs hself (fun hoperation => hcall hoperation) h

/-- Calls included, if nobody looks. -/
theorem perform_endsAs_of_starts (hself : m.Balances .exact 1 self)
    (h : ∀ t, m.Starts i s t → EndsAs t self self') :
    EndsAs s (m.perform self i) (m.perform self' i) := by
  have hobserved : EndsAs s (m.performObserved (fun _ _ => True) self i)
      (m.performObserved (fun _ _ => True) self' i) :=
    performObserved_endsAs hself h fun _ _ _ h => h
  rwa [performObserved_true, performObserved_true] at hobserved

end Instructions

/-! ## Runs -/

/-- An action that ends as a balanced one does is balanced. -/
theorem Balances.of_endsAs {count : Nat} {action other : Action α}
    (hother : m.Balances .exact count other) (h : ∀ s, EndsAs s action other) :
    m.Balances .exact count action :=
  fun s _ _ hrun => hother (h s _ hrun)

/-- A run that ends under observation ends so when more is allowed and with more steps. -/
theorem runObserved_endsAs {steps : Nat} :
    ∀ {steps' : Nat} {allowed allowed' : Moment → State → Prop}
      [∀ moment, DecidablePred (allowed moment)] [∀ moment, DecidablePred (allowed' moment)],
      steps ≤ steps' → (∀ moment s, allowed moment s → allowed' moment s) →
        ∀ s, EndsAs s (m.runObserved allowed steps) (m.runObserved allowed' steps') := by
  induction steps with
  | zero =>
    intro steps' allowed allowed' _ _ _ _ s outcome h
    cases h
  | succ steps ih =>
    intro steps' allowed allowed' _ _ hsteps hallowed s
    obtain ⟨rest, rfl⟩ : ∃ rest, steps' = rest + 1 := ⟨steps' - 1, by omega⟩
    have hrest : steps ≤ rest := Nat.le_of_succ_le_succ hsteps
    have hself : m.Balances .exact 1 (m.runObserved allowed steps) := by
      have hrun : ∀ s,
          EndsAs s (m.runObserved allowed steps) (m.runObserved (fun _ _ => True) steps) :=
        ih (Nat.le_refl steps) fun _ _ _ => trivial
      rw [runObserved_true] at hrun
      exact (balances_run m steps).of_endsAs hrun
    refine look_endsAs (hallowed .fetch s) (endsAs_after m.fetch fun i s' _ => ?_)
    exact performObserved_endsAs hself (fun t _ => ih hrest hallowed t)
      fun moment t _ => hallowed moment t

/-- Without observation only the number of steps makes a difference, and none to a run that ends. -/
theorem run_endsAs {steps steps' : Nat} (h : steps ≤ steps') (s : State) :
    EndsAs s (m.run steps) (m.run steps') := by
  have hrun : EndsAs s (m.runObserved (fun _ _ => True) steps)
      (m.runObserved (fun _ _ => True) steps') := runObserved_endsAs h (fun _ _ h => h) s
  rwa [runObserved_true, runObserved_true] at hrun

/-- Without looking a run ends as it does under observation. -/
theorem runObserved_endsAs_run {allowed : Moment → State → Prop}
    [∀ moment, DecidablePred (allowed moment)] (steps : Nat) (s : State) :
    EndsAs s (m.runObserved allowed steps) (m.run steps) := by
  have hrun : EndsAs s (m.runObserved allowed steps) (m.runObserved (fun _ _ => True) steps) :=
    runObserved_endsAs (Nat.le_refl steps) (fun _ _ _ => trivial) s
  rwa [runObserved_true] at hrun

theorem balances_runObserved {allowed : Moment → State → Prop}
    [∀ moment, DecidablePred (allowed moment)] (steps : Nat) :
    m.Balances .exact 1 (m.runObserved allowed steps) :=
  (balances_run m steps).of_endsAs fun s => runObserved_endsAs_run steps s

/-- Once a run is finished within its bound, more steps change nothing. -/
theorem run_eq_evaluate {steps : Nat} {s : State} (h : m.stepBound s.pc s.callDepth ≤ steps) :
    m.run steps s = some (m.evaluate s) :=
  run_endsAs h s _ (m.run_stepBound s)

/-- However many steps it is given, a run that ends does so as the evaluation does. -/
theorem evaluate_eq_of_run {steps : Nat} {s : State} {outcome : Outcome Float}
    (h : m.run steps s = some outcome) : m.evaluate s = outcome := by
  have hmore := run_endsAs (Nat.le_max_left steps (m.stepBound s.pc s.callDepth)) s _ h
  rw [run_eq_evaluate (Nat.le_max_right _ _)] at hmore
  exact Option.some.inj hmore

/-- A run is in allowed states throughout if it ends under observation wherever it ends at all. -/
theorem throughout_of_endsAs {allowed : Moment → State → Prop}
    [∀ moment, DecidablePred (allowed moment)] {s : State}
    (h : EndsAs s (m.run (m.stepBound s.pc s.callDepth))
      (m.runObserved allowed (m.stepBound s.pc s.callDepth))) : m.Throughout allowed s :=
  h.eq_of_isSome (m.run_isSome s)

/-! ## Machines on other datasets -/

theorem skipSubtrees_of_argCounts {m m' : Machine}
    (h : m.code.map BoundInstruction.argCount = m'.code.map BoundInstruction.argCount)
    (left pending : Nat) (s : State) :
    m.skipSubtrees left pending s = m'.skipSubtrees left pending s := by
  induction left generalizing pending s with
  | zero => cases pending <;> rfl
  | succ left ih =>
    cases pending with
    | zero => rfl
    | succ pending =>
      have hpc : (m.code[s.pc]?).map BoundInstruction.argCount =
          (m'.code[s.pc]?).map BoundInstruction.argCount := by
        rw [← Array.getElem?_map, h, Array.getElem?_map]
      unfold skipSubtrees
      cases hi : m.code[s.pc]? with
      | none =>
        rw [hi, Option.map_none, eq_comm, Option.map_eq_none_iff] at hpc
        rw [hpc]
      | some i =>
        rw [hi, Option.map_some, eq_comm, Option.map_eq_some_iff] at hpc
        obtain ⟨i', hi', hcount⟩ := hpc
        rw [hi']
        dsimp only
        rw [hcount, ih]

/-- What is skipped depends on the numbers of operands only. -/
theorem skip_of_argCounts {m m' : Machine}
    (h : m.code.map BoundInstruction.argCount = m'.code.map BoundInstruction.argCount) :
    m.skip = m'.skip := by
  have hsize : m.code.size = m'.code.size := by
    rw [← Array.size_map, h, Array.size_map]
  funext s
  unfold skip
  rw [hsize, skipSubtrees_of_argCounts h]

/-- At `s` the two machines read the same for an instruction, bound to the columns of the one and of
the other. -/
structure ReadsAlike (m m' : Machine) (i : BoundInstruction) (data : Data) (s : State) : Prop where
  number : m.readNumber i s = m'.readNumber { i with data } s
  weighted : ∀ weight, m.weighted i weight s = m'.weighted { i with data } weight s
  weightedAt : ∀ name weight lag, i.node.symbol = .laggedVariable name weight lag →
    m.weightedAt i weight lag.toInt s = m'.weightedAt { i with data } weight lag.toInt s
  categorized : ∀ number, m.categorized i number s = m'.categorized { i with data } number s

theorem operandsWhile_of_skip {m m' : Machine} (hskip : m.skip = m'.skip) (self : Action Float)
    (goesOn : Float → Bool) (count : Nat) (last : Float) :
    m.operandsWhile self goesOn count last = m'.operandsWhile self goesOn count last := by
  induction count generalizing last with
  | zero => rfl
  | succ count ih => simp only [operandsWhile, hskip, ih]

theorem bind_of_eq {action other : Action α} {s : State} (h : action s = other s)
    (next : α → Action β) : (action >>= next) s = (other >>= next) s := by
  show Action.bind action next s = Action.bind other next s
  unfold Action.bind
  rw [h]

/-- Machines whose code has the same shape perform an instruction alike where they read alike. -/
theorem perform_of_reads {m m' : Machine} (hskip : m.skip = m'.skip) {self : Action Float}
    {i : BoundInstruction} {data : Data} {s : State} (hreads : ReadsAlike m m' i data s)
    (hcall : i.opcode.operation = .call → m.call self i s = m'.call self { i with data } s) :
    m.perform self i s = m'.perform self { i with data } s := by
  unfold perform
  dsimp only
  cases hoperation : i.opcode.operation with
  | strict operands combine | timeLag | integral | derivative | argument | constant => rfl
  | choice => simp only [hskip]
  | conjunction => simp only [allTrue_eq_operandsWhile, operandsWhile_of_skip hskip]
  | disjunction => simp only [anyTrue_eq_operandsWhile, operandsWhile_of_skip hskip]
  | call => exact hcall hoperation
  | numericVariable =>
    cases i.node.symbol with
    | numericVariable name weight => exact hreads.weighted weight
    | _ => rfl
  | lagVariable =>
    cases hsymbol : i.node.symbol with
    | laggedVariable name weight lag => exact hreads.weightedAt name weight lag hsymbol
    | _ => rfl
  | factorVariable =>
    cases i.node.symbol with
    | factorVariable name weights => exact hreads.categorized _
    | _ => rfl
  | binaryFactorVariable =>
    cases i.node.symbol with
    | binaryFactorVariable name value weight => exact hreads.categorized _
    | _ => rfl
  | variableCondition =>
    cases i.node.symbol with
    | variableCondition name threshold steepness ignoreSlope =>
      dsimp only
      unfold conditional
      rw [hskip]
      exact bind_of_eq hreads.number _
    | _ => rfl

end Machine

/-! ## Evaluations in lockstep -/

namespace Evaluation

/-- At a row both evaluations have the same value, or the same fault, and leave the same state
behind: program counter, stack and number of instructions run. -/
structure AgreeAt (row : Nat) (evaluation other : Evaluation) : Prop where
  value : (evaluation.evaluateRow row).1 = (other.evaluateRow row).1
  state : (evaluation.evaluateRow row).2.state = (other.evaluateRow row).2.state

/-- Evaluations of as many rows end alike at a row if their machines do when the row is in range. -/
theorem outcomeAt_congr {row : Nat} {evaluation other : Evaluation}
    (hrows : evaluation.program.rows = other.program.rows)
    (h : evaluation.InRange row →
      evaluation.machine.evaluate { cursor := row } = other.machine.evaluate { cursor := row }) :
    evaluation.outcomeAt row = other.outcomeAt row := by
  have hsame : evaluation.InRange row ↔ other.InRange row := by
    rw [inRange_iff, inRange_iff, hrows]
  unfold outcomeAt
  by_cases hrange : evaluation.InRange row
  · rw [if_pos hrange, if_pos (hsame.mp hrange), h hrange]
  · rw [if_neg hrange, if_neg fun hother => hrange (hsame.mpr hother)]

theorem agreeAt_of_outcomeAt {row : Nat} {evaluation other : Evaluation}
    (h : evaluation.outcomeAt row = other.outcomeAt row) : AgreeAt row evaluation other := by
  constructor
  · rw [evaluateRow_eq, evaluateRow_eq, h]
    cases other.outcomeAt row <;> rfl
  · rw [evaluateRow_eq, evaluateRow_eq, h]
    cases other.outcomeAt row <;> rfl

end Evaluation

end FormulaEngine
