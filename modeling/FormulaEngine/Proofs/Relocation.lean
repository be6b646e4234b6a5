import FormulaEngine.Proofs.Lockstep

/-!
# Runs at other addresses

Two machines hold the same bodies, bound to the same columns, but at different addresses. Then they
run them alike: whenever the one ends with a value, so does the other, with the same value and in the
same state but for the program counter. Nothing is asked of the columns. A run may also be compared
with one that starts with the cursor marked as moved, where no column is read without a check.

- `Machine.State.seen`: a state of the one machine, as it is in the other;
- `Machine.Repeats`: an action of the other machine repeats an action of the one;
- `Machine.Relocates`: the other machine has every function of the one;
- `Machine.Replays`: the ways to run subtrees repeat each other on every subtree that both hold;
- `Machine.perform_repeats`: then so do instructions;
- `Machine.run_replays`: and so do runs, by induction on the steps that are allowed;
- `Machine.evaluate_relocates`: the outcome of a subtree does not depend on where it stands.

The program counters of two states have nothing to do with each other: bodies that are next to each
other in one machine may be far apart in the other. So it is given for both machines where an operand
stands, and not how far apart the two places are.
-/

namespace FormulaEngine

/-- Only calls are bound differently by different addresses of the functions. -/
theorem Node.bound_eq_of_ne_call {node : Node} {op : Opcode} (hop : node.symbol.opcode? = some op)
    (hcall : op ≠ .call) (entryPoints entryPoints' : List (String × Nat)) (data : Dataset) :
    node.bound entryPoints data = node.bound entryPoints' data := by
  have htarget : ∀ entryPoints, node.target? entryPoints = none := by
    intro entryPoints
    unfold target?
    split
    · next function hfunction =>
      rw [hfunction] at hop
      exact absurd (Option.some.inj hop).symm hcall
    · rfl
  rw [bound, bound, linked, linked, htarget, htarget]

namespace Machine

variable {α β : Type}

/-! ## States of two machines -/

/-- The state at another address, and with the cursor marked as moved if `marked`. -/
def State.seen (s : State) (pc : Nat) (marked : Bool) : State :=
  { s with pc, lagged := s.lagged || marked }

/-- If columns are read with a check in the other machine only, the cursor is not behind the rows. -/
def State.Inside (m : Machine) (marked : Bool) (s : State) : Prop :=
  marked = true → s.lagged = false → s.cursor < m.rows

/-- If `action` ends from `s` with a value, it has gone over `count` instructions and left the rest
as it was, and `other` ends with the same value from `pc` on. -/
def Repeats (marked : Bool) (s : State) (pc count : Nat) (action other : Action α) : Prop :=
  ∀ ⦃value : α⦄ ⦃t : State⦄, action s = some (.done value t) →
    ∃ executed, t = s.advance count executed ∧
      other (s.seen pc marked) = some (.done value (t.seen (pc + count) marked))

namespace Repeats

variable {marked : Bool} {s : State} {pc count : Nat}

theorem pure (value : α) : Repeats marked s pc 0 (pure value : Action α) (pure value) := by
  intro found t h
  cases h
  exact ⟨0, rfl, rfl⟩

/-- What never ends with a value is repeated by anything. -/
theorem fault (cause : Fault) (other : Action α) :
    Repeats marked s pc count (Action.fault cause : Action α) other := by
  intro value t h
  cases h

theorem bind {first second : Nat} {action other : Action α} {next next' : α → Action β}
    (h : Repeats marked s pc first action other)
    (hnext : ∀ value executed, Repeats marked (s.advance first executed) (pc + first) second
      (next value) (next' value)) :
    Repeats marked s pc (first + second) (action >>= next) (other >>= next') := by
  intro value t hrun
  obtain ⟨found, between, haction, hrun⟩ := done_of_bind hrun
  obtain ⟨executed, rfl, hother⟩ := h haction
  obtain ⟨executed', rfl, hother'⟩ := hnext found executed hrun
  refine ⟨executed + executed', State.advance_advance .., ?_⟩
  rw [bind_of_done hother, hother', Nat.add_assoc]

/-- What follows only works with the value. -/
theorem bind_pure {action other : Action α} (h : Repeats marked s pc count action other)
    (f : α → β) : Repeats marked s pc count (action >>= fun value => Pure.pure (f value))
      (other >>= fun value => Pure.pure (f value)) :=
  h.bind fun value _ => .pure (f value)

/-- What comes before may read columns. -/
theorem zero_bind {action other : Action α} {next next' : α → Action β}
    (h : Repeats marked s pc 0 action other)
    (hnext : ∀ value executed, Repeats marked (s.advance 0 executed) pc count (next value)
      (next' value)) : Repeats marked s pc count (action >>= next) (other >>= next') :=
  Nat.zero_add count ▸ h.bind hnext

/-- Both machines find the same in their state. -/
theorem get_bind {read : State → α} {next next' : α → Action β}
    (hread : read (s.seen pc marked) = read s)
    (hnext : Repeats marked s pc count (next (read s)) (next' (read s))) :
    Repeats marked s pc count (Action.get read >>= next) (Action.get read >>= next') := by
  intro value t hrun
  rw [Machine.get_bind] at hrun ⊢
  rw [hread]
  exact hnext hrun

theorem ofOption (cause : Fault) (found : Option α) :
    Repeats marked s pc 0 (Action.ofOption cause found) (Action.ofOption cause found) := by
  cases found with
  | none => exact .fault cause _
  | some value => exact .pure value

theorem mismatch (i : BoundInstruction) (other : Action α) :
    Repeats marked s pc count (Machine.mismatch i : Action α) other :=
  .fault _ other

end Repeats

variable {m m' : Machine} {data : Dataset} {entryPoints entryPoints' : List (String × Nat)}
  {marked : Bool} {s : State} {pc : Nat}

theorem skip_repeats {node : Node} (h : m.Holds entryPoints data s.pc [node])
    (h' : m'.Holds entryPoints' data pc [node]) :
    Repeats marked s pc node.count m.skip m'.skip := by
  intro value t hrun
  rw [skip_eq h] at hrun
  cases hrun
  exact ⟨0, rfl, skip_eq (s := s.seen pc marked) h'⟩

/-! ## Columns -/

section Columns

/-- With the cursor marked as moved, a column is read with a check. -/
theorem read_checked {column : Array α} (hlagged : s.lagged = true) :
    m.read column s = some (.done (m.cell? column s.cursor) s) := if_pos hlagged

/-- Otherwise there has to be a cell, whatever rows there are. -/
theorem read_unchecked {column : Array α} {value : Option α} {t : State}
    (hplain : s.lagged = false) :
    m.read column s = some (.done value t) ↔
      ∃ number, value = some number ∧ s = t ∧ 0 ≤ s.cursor ∧
        column[s.cursor.toNat]? = some number := by
  unfold read
  rw [if_neg (ne_true_of_eq_false hplain)]
  by_cases hfront : 0 ≤ s.cursor
  · rw [if_pos hfront]
    cases column[s.cursor.toNat]? with
    | none => simp
    | some number =>
      constructor
      · intro h
        cases h
        exact ⟨number, rfl, rfl, hfront, rfl⟩
      · rintro ⟨found, rfl, rfl, -, hfound⟩
        rw [Option.some.inj hfound]
  · rw [if_neg hfront]
    simp [hfront]

variable (hrows : m.rows = m'.rows)

include hrows

theorem cell?_eq (column : Array α) (row : Int) : m.cell? column row = m'.cell? column row := by
  rw [cell?, cell?, hrows]

variable (hs : s.Inside m marked)

include hs

/-- A cell that is found without a check is found with one, at a cursor that is not behind the
rows. -/
theorem read_repeats (column : Array α) :
    Repeats marked s pc 0 (m.read column) (m'.read column) := by
  intro value t hrun
  by_cases hlagged : s.lagged = true
  · have hseen : (s.seen pc marked).lagged = true := by simp [State.seen, hlagged]
    rw [read_checked hlagged, cell?_eq hrows] at hrun
    cases hrun
    exact ⟨0, rfl, read_checked hseen⟩
  · have hplain : s.lagged = false := Bool.not_eq_true _ ▸ hlagged
    obtain ⟨number, rfl, rfl, hfront, hcell⟩ := (read_unchecked hplain).mp hrun
    refine ⟨0, rfl, ?_⟩
    cases marked with
    | false =>
      have hseen : (s.seen pc false).lagged = false := by simp [State.seen, hplain]
      exact (read_unchecked hseen).mpr ⟨number, rfl, rfl, hfront, hcell⟩
    | true =>
      have hseen : (s.seen pc true).lagged = true := by simp [State.seen]
      have hinside : 0 ≤ s.cursor ∧ s.cursor < m.rows := ⟨hfront, hs rfl hplain⟩
      have hfound : m'.cell? column s.cursor = some number :=
        (cell?_eq hrows column s.cursor).symm.trans ((if_pos hinside).trans hcell)
      rw [← hfound]
      exact read_checked hseen

theorem readNumber_repeats (i : BoundInstruction) :
    Repeats marked s pc 0 (m.readNumber i) (m'.readNumber i) := by
  unfold readNumber
  split
  · exact read_repeats hrows hs _
  · exact .pure none

theorem weighted_repeats (i : BoundInstruction) (weight : Float) :
    Repeats marked s pc 0 (m.weighted i weight) (m'.weighted i weight) := by
  unfold weighted
  split
  · refine (read_repeats hrows hs _).zero_bind fun value _ => ?_
    cases value <;> exact .pure _
  · exact .pure nan

theorem categorized_repeats (i : BoundInstruction) (number : String → Float) :
    Repeats marked s pc 0 (m.categorized i number) (m'.categorized i number) := by
  unfold categorized
  split
  · refine (read_repeats hrows hs _).zero_bind fun value _ => ?_
    cases value <;> exact .pure _
  · exact .pure nan

omit hs in
theorem weightedAt_repeats (i : BoundInstruction) (weight : Float) (lag : Int) :
    Repeats marked s pc 0 (m.weightedAt i weight lag) (m'.weightedAt i weight lag) := by
  refine .get_bind rfl ?_
  split
  · rw [cell?_eq hrows]
    split <;> exact .pure _
  · exact .pure nan

end Columns

/-! ## Operands -/

/-- Wherever both machines hold a subtree, `self'` repeats `self` on it. -/
def Replays (m m' : Machine) (data : Dataset) (entryPoints entryPoints' : List (String × Nat))
    (marked : Bool) (self self' : Action Float) : Prop :=
  ∀ ⦃node : Node⦄ ⦃s : State⦄ ⦃pc : Nat⦄, s.Inside m marked →
    m.Holds entryPoints data s.pc [node] → m'.Holds entryPoints' data pc [node] →
      Repeats marked s pc node.count self self'

section Operands

variable {self self' : Action Float}
  (hself : Replays m m' data entryPoints entryPoints' marked self self')

include hself

theorem collect_repeats {nodes : List Node} (found : List Float) (hs : s.Inside m marked)
    (h : m.Holds entryPoints data s.pc nodes) (h' : m'.Holds entryPoints' data pc nodes) :
    Repeats marked s pc (Node.countAll nodes) (collect self nodes.length found)
      (collect self' nodes.length found) := by
  induction nodes generalizing s pc found with
  | nil => exact .pure _
  | cons node rest ih =>
    obtain ⟨hnode, hrest⟩ := Holds.cons.mp h
    obtain ⟨hnode', hrest'⟩ := Holds.cons.mp h'
    rw [Node.countAll_cons]
    exact (hself hs hnode hnode').bind fun value _ => ih (value :: found) hs hrest hrest'

theorem operandsWhile_repeats (goesOn : Float → Bool) {nodes : List Node} (last : Float)
    (hs : s.Inside m marked) (h : m.Holds entryPoints data s.pc nodes)
    (h' : m'.Holds entryPoints' data pc nodes) :
    Repeats marked s pc (Node.countAll nodes) (m.operandsWhile self goesOn nodes.length last)
      (m'.operandsWhile self' goesOn nodes.length last) := by
  induction nodes generalizing s pc last with
  | nil => exact .pure _
  | cons node rest ih =>
    obtain ⟨hnode, hrest⟩ := Holds.cons.mp h
    obtain ⟨hnode', hrest'⟩ := Holds.cons.mp h'
    rw [Node.countAll_cons, List.length_cons]
    unfold operandsWhile
    split
    · exact (hself hs hnode hnode').bind fun value _ => ih value hs hrest hrest'
    · exact (skip_repeats hnode hnode').bind fun _ _ => ih last hs hrest hrest'

/-- Conjunctions and disjunctions run their first operand whatever it is. -/
theorem firstWhile_repeats (goesOn : Float → Bool) {nodes : List Node}
    (hsome : 1 + (nodes.length - 1) = nodes.length) (hs : s.Inside m marked)
    (h : m.Holds entryPoints data s.pc nodes) (h' : m'.Holds entryPoints' data pc nodes) :
    Repeats marked s pc (Node.countAll nodes)
      (self >>= fun value => m.operandsWhile self goesOn (nodes.length - 1) value)
      (self' >>= fun value => m'.operandsWhile self' goesOn (nodes.length - 1) value) := by
  cases nodes with
  | nil => cases hsome
  | cons node rest =>
    obtain ⟨hnode, hrest⟩ := Holds.cons.mp h
    obtain ⟨hnode', hrest'⟩ := Holds.cons.mp h'
    rw [Node.countAll_cons]
    exact (hself hs hnode hnode').bind fun value _ =>
      operandsWhile_repeats hself goesOn value hs hrest hrest'

variable {first second : Node}

/-- Of two operands the first is run and the second skipped, or the other way round. -/
theorem either_repeats (chosen : Prop) [Decidable chosen] (hs : s.Inside m marked)
    (h : m.Holds entryPoints data s.pc [first, second])
    (h' : m'.Holds entryPoints' data pc [first, second]) :
    Repeats marked s pc (Node.countAll [first, second])
      (if chosen then (self >>= fun value => m.skip >>= fun _ => pure value)
        else (m.skip >>= fun _ => self) : Action Float)
      (if chosen then (self' >>= fun value => m'.skip >>= fun _ => pure value)
        else (m'.skip >>= fun _ => self') : Action Float) := by
  obtain ⟨hfirst, hsecond⟩ := Holds.cons.mp h
  obtain ⟨hfirst', hsecond'⟩ := Holds.cons.mp h'
  rw [Node.countAll_cons, Node.countAll_cons, Node.countAll_nil, Nat.add_zero]
  split
  · exact (hself hs hfirst hfirst').bind fun value _ =>
      (skip_repeats hsecond hsecond').bind_pure fun _ => value
  · exact (skip_repeats hfirst hfirst').bind fun _ _ => hself hs hsecond hsecond'

theorem conditional_repeats (hrows : m.rows = m'.rows) (i : BoundInstruction)
    (threshold steepness : Float) (ignoreSlope : Bool) (hs : s.Inside m marked)
    (h : m.Holds entryPoints data s.pc [first, second])
    (h' : m'.Holds entryPoints' data pc [first, second]) :
    Repeats marked s pc (Node.countAll [first, second])
      (m.conditional self i threshold steepness ignoreSlope)
      (m'.conditional self' i threshold steepness ignoreSlope) := by
  refine (readNumber_repeats hrows hs i).zero_bind fun value executed => ?_
  -- the state after reading is as good as the one before
  replace hs : (s.advance 0 executed).Inside m marked := hs
  replace h : m.Holds entryPoints data (s.advance 0 executed).pc [first, second] := h
  generalize s.advance 0 executed = s at hs h ⊢
  obtain ⟨hfirst, hsecond⟩ := Holds.cons.mp h
  obtain ⟨hfirst', hsecond'⟩ := Holds.cons.mp h'
  have hcount : Node.countAll [first, second] = first.count + second.count := by simp
  cases value with
  | none =>
    rw [hcount]
    exact (skip_repeats hfirst hfirst').bind fun _ _ =>
      (skip_repeats hsecond hsecond').bind_pure fun _ => nan
  | some value =>
    cases ignoreSlope with
    | true => exact either_repeats hself (value ≤ threshold) hs h h'
    | false =>
      rw [hcount]
      refine (hself hs hfirst hfirst').bind fun _ executed => ?_
      exact (hself (s := s.advance first.count executed) hs hsecond hsecond').bind_pure _

end Operands

/-! ## Operands at other rows -/

section Lags

variable {self self' : Action Float} {count : Nat}

theorem lagged_repeats (h : Repeats marked { s with lagged := true } pc count self self') :
    Repeats marked s pc count (lagged self) (lagged self') := by
  intro value t hrun
  rw [lagged, get_bind, modify_bind] at hrun
  obtain ⟨found, between, hself, hrun⟩ := done_of_bind hrun
  obtain ⟨executed, rfl, hother⟩ := h hself
  cases hrun
  refine ⟨executed, rfl, ?_⟩
  rw [lagged, get_bind, modify_bind]
  exact bind_of_done hother

/-- `self'` repeats `self` at every row, with more or less instructions run before. -/
def RepeatsLagged (marked : Bool) (s : State) (pc count : Nat) (self self' : Action Float) : Prop :=
  ∀ offset executed, Repeats marked (s.shift offset executed) pc count (lagged self) (lagged self')

theorem Replays.lagged (hself : Replays m m' data entryPoints entryPoints' marked self self')
    {node : Node} (h : m.Holds entryPoints data s.pc [node])
    (h' : m'.Holds entryPoints' data pc [node]) :
    RepeatsLagged marked s pc node.count self self' := by
  intro offset executed
  refine lagged_repeats (hself ?_ h h')
  intro _ hplain
  cases hplain

theorem RepeatsLagged.shift (h : RepeatsLagged marked s pc count self self') (offset : Int)
    (executed : Nat) : RepeatsLagged marked (s.shift offset executed) pc count self self' := by
  intro offset' executed'
  rw [State.shift_shift]
  exact h _ _

variable (h : RepeatsLagged marked s pc count self self')

include h

theorem timeLag_repeats (lag : Int) :
    Repeats marked s pc count
      (do
        move lag
        let value ← lagged self
        move (-lag)
        return value : Action Float)
      (do
        move lag
        let value ← lagged self'
        move (-lag)
        return value : Action Float) := by
  intro value t hrun
  rw [move_bind] at hrun ⊢
  obtain ⟨found, between, hlagged, hrun⟩ := done_of_bind hrun
  obtain ⟨executed, rfl, hother⟩ := h lag 0 hlagged
  cases hrun
  have hback : s.cursor + lag + -lag = s.cursor := by omega
  refine ⟨executed, ?_, bind_of_done hother⟩
  simp only [State.shift, State.advance, hback, Nat.add_zero]

/-- The rounds of an accumulation come back to the start of the operand in both machines. -/
theorem accumulate_repeats {step : Int} {rounds : Nat} {sum value : Float} {t : State}
    (hrun : accumulate self s.pc step rounds sum s = some (.done value t)) :
    ∃ executed, t = s.shift (step * rounds) executed ∧
      accumulate self' pc step rounds sum (s.seen pc marked) =
        some (.done value (t.seen pc marked)) := by
  induction rounds generalizing s sum with
  | zero =>
    cases hrun
    exact ⟨0, by simp [State.shift], rfl⟩
  | succ rounds ih =>
    rw [accumulate, move_bind] at hrun ⊢
    obtain ⟨found, between, hlagged, hrun⟩ := done_of_bind hrun
    obtain ⟨executed, rfl, hother⟩ := h step 0 hlagged
    obtain ⟨executed', rfl, hother'⟩ := ih (s := s.shift step executed) (h.shift step executed) hrun
    have hrow : step + step * rounds = step * (rounds + 1 : Nat) := by
      rw [Int.natCast_succ, Int.mul_add]
      omega
    refine ⟨executed + executed', ?_, (bind_of_done hother).trans hother'⟩
    rw [State.shift_shift, hrow]

theorem integrate_repeats (lag : Int) :
    Repeats marked s pc count (integrate self lag) (integrate self' lag) := by
  intro value t hrun
  rw [integrate, get_bind] at hrun ⊢
  obtain ⟨sum, between, hsum, hrun⟩ := done_of_bind hrun
  obtain ⟨executed, rfl, hother⟩ := accumulate_repeats h hsum
  rw [move_bind] at hrun
  have hback : (s.shift (lag.sign * lag.natAbs) executed).shift (-lag) 0 = s.shift 0 executed := by
    rw [State.shift_shift, Int.sign_mul_natAbs, Int.add_right_neg, Nat.add_zero]
  -- the cursor is back where it was
  change (lagged self >>= _) ((s.shift _ _).shift (-lag) 0) = _ at hrun
  rw [hback] at hrun
  obtain ⟨found, between, hlagged, hrun⟩ := done_of_bind hrun
  obtain ⟨executed', rfl, hother'⟩ := h 0 executed hlagged
  cases hrun
  refine ⟨executed + executed', ?_, ?_⟩
  · rw [State.shift_zero, State.advance_advance, Nat.zero_add]
  · refine (bind_of_done hother).trans ?_
    rw [move_bind]
    change (lagged self' >>= _) (((s.shift _ _).shift (-lag) 0).seen pc marked) = _
    rw [hback]
    exact bind_of_done hother'

/-- The operand is run as lagged, then the cursor is moved on and the operand started again. -/
theorem rewound_repeats {rows : Int} {next : Float → Action Float} {value : Float} {t : State}
    (hrun : (lagged self >>= fun found => move rows >>= fun _ => jump s.pc >>= fun _ => next found) s
      = some (.done value t)) :
    ∃ found executed, next found (s.shift rows executed) = some (.done value t) ∧
      ∀ next' : Float → Action Float,
        (lagged self' >>= fun found => move rows >>= fun _ => jump pc >>= fun _ => next' found)
            (s.seen pc marked) =
          next' found ((s.shift rows executed).seen pc marked) := by
  obtain ⟨found, between, hlagged, hrun⟩ := done_of_bind hrun
  have hfirst := h 0 0
  rw [State.shift_zero_zero] at hfirst
  obtain ⟨executed, rfl, hother⟩ := hfirst hlagged
  exact ⟨found, executed, hrun, fun next' => bind_of_done hother⟩

theorem differentiate_repeats :
    Repeats marked s pc count (differentiate self) (differentiate self') := by
  intro value t hrun
  rw [differentiate, get_bind] at hrun ⊢
  obtain ⟨f0, executed₀, hrun, hother₀⟩ := rewound_repeats h hrun
  have h1 := h.shift (-1) executed₀
  obtain ⟨f1, executed₁, hrun, hother₁⟩ := rewound_repeats (s := s.shift (-1) executed₀) h1 hrun
  have h3 := h1.shift (-2) executed₁
  obtain ⟨f3, executed₂, hrun, hother₂⟩ :=
    rewound_repeats (s := (s.shift (-1) executed₀).shift (-2) executed₁) h3 hrun
  obtain ⟨f4, between, hlagged, hrun⟩ := done_of_bind hrun
  have h4 := (h3.shift (-1) executed₂) 0 0
  rw [State.shift_zero_zero] at h4
  obtain ⟨executed, rfl, hother₃⟩ := h4 hlagged
  cases hrun
  have hback : s.cursor + -1 + -2 + -1 + 4 = s.cursor := by omega
  refine ⟨executed₀ + executed₁ + executed₂ + executed, ?_, ?_⟩
  · simp only [State.shift, State.advance, hback, Nat.add_assoc]
  · exact (hother₀ _).trans ((hother₁ _).trans ((hother₂ _).trans (bind_of_done hother₃)))

end Lags

/-! ## Calls -/

/-- What a call enters in the one machine it finds in the other as well. -/
structure Relocates (m m' : Machine) (data : Dataset)
    (entryPoints entryPoints' : List (String × Nat)) : Prop where
  rows : m.rows = m'.rows
  depth : m.maxCallDepth = m'.maxCallDepth
  function : ∀ name address, entryPoints.lookup name = some address →
    ∃ address' body, entryPoints'.lookup name = some address' ∧
      m.Holds entryPoints data address [body] ∧ m'.Holds entryPoints' data address' [body]

section Calls

variable {self self' : Action Float}
  (hself : Replays m m' data entryPoints entryPoints' marked self self')

include hself

theorem pushArguments_repeats {nodes : List Node} {t : State} (hs : s.Inside m marked)
    (h : m.Holds entryPoints data s.pc nodes) (h' : m'.Holds entryPoints' data pc nodes)
    (hrun : pushArguments self nodes.length s = some (.done () t)) :
    ∃ values executed, values.length = nodes.length ∧
      t = { s.advance (Node.countAll nodes) executed with stack := s.stack.pushAll values } ∧
      pushArguments self' nodes.length (s.seen pc marked) =
        some (.done () (t.seen (pc + Node.countAll nodes) marked)) := by
  induction nodes generalizing s pc with
  | nil =>
    cases hrun
    exact ⟨[], 0, rfl, rfl, rfl⟩
  | cons node rest ih =>
    obtain ⟨hnode, hrest⟩ := Holds.cons.mp h
    obtain ⟨hnode', hrest'⟩ := Holds.cons.mp h'
    rw [List.length_cons, pushArguments] at hrun ⊢
    obtain ⟨value, between, hvalue, hrun⟩ := done_of_bind hrun
    obtain ⟨executed, rfl, hother⟩ := hself hs hnode hnode' hvalue
    rw [modify_bind] at hrun
    obtain ⟨values, executed', hlength, rfl, hother'⟩ :=
      ih (s := { s.advance node.count executed with stack := s.stack.push value }) hs hrest hrest'
        hrun
    refine ⟨value :: values, executed + executed', congrArg (· + 1) hlength, ?_, ?_⟩
    · simp [State.advance, ArgumentStack.pushAll_push, Nat.add_assoc]
    · rw [Node.countAll_cons, ← Nat.add_assoc]
      exact (bind_of_done hother).trans hother'

/-- A function is entered where it stands, and left for the address after the call. -/
theorem enter_repeats {body : Node} {target target' : Nat} (hs : s.Inside m marked)
    (h : m.Holds entryPoints data target [body]) (h' : m'.Holds entryPoints' data target' [body])
    {values : List Float} {value : Float} {t : State}
    (hrun : enter self values.length target { s with stack := s.stack.pushAll values } =
      some (.done value t)) :
    ∃ executed, t = s.advance 0 executed ∧
      enter self' values.length target'
          (State.seen { s with stack := s.stack.pushAll values } pc marked) =
        some (.done value (t.seen pc marked)) := by
  have hentered := ArgumentStack.enter?_pushAll values s.stack
  rw [enter, get_bind, hentered] at hrun
  change (self >>= _) { s with
    stack := s.stack.framed values, pc := target, callDepth := s.callDepth + 1 } = _ at hrun
  obtain ⟨found, between, hbody, hrun⟩ := done_of_bind hrun
  obtain ⟨executed, rfl, hother⟩ := hself
    (s := { s with stack := s.stack.framed values, pc := target, callDepth := s.callDepth + 1 })
    hs h h' hbody
  cases hrun
  refine ⟨executed, ?_, ?_⟩
  · simp only [State.advance, ArgumentStack.leave_framed]
    rfl
  · rw [enter, get_bind]
    change (Action.ofOption .outOfBounds ((s.stack.pushAll values).enter? values.length) >>= _) _ = _
    rw [hentered]
    exact bind_of_done hother

/-- A call in the one machine and in the other, each to the place where it has the function. -/
theorem call_repeats (hm : Relocates m m' data entryPoints entryPoints') {node : Node}
    {function : String} (hsymbol : node.symbol = .call function)
    (hdefined : node.CallDefined entryPoints) (hs : s.Inside m marked)
    (h : m.Holds entryPoints data s.pc node.children)
    (h' : m'.Holds entryPoints' data pc node.children) :
    Repeats marked s pc (Node.countAll node.children) (m.call self (node.bound entryPoints data))
      (m'.call self' (node.bound entryPoints' data)) := by
  intro value t hrun
  obtain ⟨address, haddress⟩ := hdefined function hsymbol
  obtain ⟨address', body, haddress', hbody, hbody'⟩ := hm.function function address haddress
  rw [call, Node.argCount_bound, Node.data_of_call data hsymbol haddress] at hrun
  rw [call, Node.argCount_bound, Node.data_of_call data hsymbol haddress', ← hm.depth]
  obtain ⟨_, between, hpush, hrun⟩ := done_of_bind hrun
  obtain ⟨values, executed, hlength, rfl, hother⟩ := pushArguments_repeats hself hs h h' hpush
  rw [get_bind] at hrun
  change (if s.callDepth < m.maxCallDepth then enter self _ address else _) _ = _ at hrun
  rw [bind_of_done hother, get_bind]
  change ∃ _, _ ∧ (if s.callDepth < m.maxCallDepth then enter self' _ address' else _) _ = _
  rw [← hlength] at hrun ⊢
  by_cases hroom : s.callDepth < m.maxCallDepth
  · rw [if_pos hroom] at hrun ⊢
    obtain ⟨executed', rfl, hentered⟩ :=
      enter_repeats hself (s := s.advance (Node.countAll node.children) executed) hs hbody hbody'
        hrun
    exact ⟨executed + executed', State.advance_advance .., hentered⟩
  · -- at the limit of nested calls both throw the arguments away
    rw [if_neg hroom] at hrun ⊢
    cases hrun
    have hdiscard := ArgumentStack.discard_pushAll values s.stack
    refine ⟨executed, ?_, ?_⟩
    · simp only [hdiscard]
      rfl
    · rfl

/-! ## Instructions -/

/-- Behind its fetch an instruction is repeated where the other machine has the same operands. -/
theorem perform_repeats (hm : Relocates m m' data entryPoints entryPoints') {node : Node}
    (hnode : node.Supported) (hdefined : node.CallDefined entryPoints) (hs : s.Inside m marked)
    (h : m.Holds entryPoints data s.pc node.children)
    (h' : m'.Holds entryPoints' data pc node.children) :
    Repeats marked s pc (Node.countAll node.children)
      (m.perform self (node.bound entryPoints data))
      (m'.perform self' (node.bound entryPoints' data)) := by
  obtain ⟨op, hop, haccepts⟩ := hnode.opcode
  have hopcode : ∀ entryPoints, (node.bound entryPoints data).opcode = op :=
    fun entryPoints => Node.opcode_linked entryPoints hop
  have htaken := Opcode.operandCount_of_accepts haccepts
  by_cases hcall : op = .call
  · subst hcall
    obtain ⟨function, hsymbol⟩ := Symbol.eq_call hop
    unfold perform
    rw [hopcode, hopcode]
    exact call_repeats hself hm hsymbol hdefined hs h h'
  · -- any other instruction is the same in both machines
    rw [← Node.bound_eq_of_ne_call hop hcall entryPoints entryPoints' data]
    unfold perform
    rw [hopcode, Node.argCount_bound]
    have hoperation : op.operation ≠ .call := fun hoperation => hcall (Opcode.eq_call hoperation)
    generalize op.operation = operation at htaken hoperation ⊢
    cases operation with
    | strict operands combine =>
      dsimp only
      rw [show operands node.children.length = node.children.length from htaken]
      exact (collect_repeats hself [] hs h h').bind_pure _
    | choice =>
      obtain ⟨condition, yes, no, hchildren⟩ := List.length_eq_three.mp htaken.symm
      rw [hchildren] at h h' ⊢
      obtain ⟨hcondition, hbranches⟩ := Holds.cons.mp h
      obtain ⟨hcondition', hbranches'⟩ := Holds.cons.mp h'
      rw [Node.countAll_cons]
      refine (hself hs hcondition hcondition').bind fun value executed => ?_
      exact either_repeats hself (s := s.advance condition.count executed)
        (Arithmetic.holds value = true) hs hbranches hbranches'
    | conjunction =>
      simp only [allTrue_eq_operandsWhile]
      exact firstWhile_repeats hself _ htaken hs h h'
    | disjunction =>
      simp only [anyTrue_eq_operandsWhile]
      exact firstWhile_repeats hself _ htaken hs h h'
    | timeLag =>
      obtain ⟨operand, hchildren⟩ := List.length_eq_one_iff.mp htaken.symm
      rw [hchildren] at h h' ⊢
      dsimp only
      split
      · next lag _ => exact timeLag_repeats (hself.lagged h h') lag.toInt
      · exact .mismatch _ _
    | integral =>
      obtain ⟨operand, hchildren⟩ := List.length_eq_one_iff.mp htaken.symm
      rw [hchildren] at h h' ⊢
      dsimp only
      split
      · next lag _ => exact integrate_repeats (hself.lagged h h') lag.toInt
      · exact .mismatch _ _
    | derivative =>
      obtain ⟨operand, hchildren⟩ := List.length_eq_one_iff.mp htaken.symm
      rw [hchildren] at h h' ⊢
      exact differentiate_repeats (hself.lagged h h')
    | call => exact absurd rfl hoperation
    | argument =>
      rw [List.length_eq_zero_iff.mp htaken.symm]
      dsimp only
      split
      · exact .get_bind rfl (.ofOption _ _)
      · exact .mismatch _ _
    | constant =>
      rw [List.length_eq_zero_iff.mp htaken.symm]
      dsimp only
      split
      · exact .pure _
      · exact .mismatch _ _
    | numericVariable =>
      rw [List.length_eq_zero_iff.mp htaken.symm]
      dsimp only
      split
      · exact weighted_repeats hm.rows hs _ _
      · exact .mismatch _ _
    | lagVariable =>
      rw [List.length_eq_zero_iff.mp htaken.symm]
      dsimp only
      split
      · exact weightedAt_repeats hm.rows _ _ _
      · exact .mismatch _ _
    | factorVariable | binaryFactorVariable =>
      rw [List.length_eq_zero_iff.mp htaken.symm]
      dsimp only
      split
      · exact categorized_repeats hm.rows hs _ _
      · exact .mismatch _ _
    | variableCondition =>
      obtain ⟨first, second, hchildren⟩ := List.length_eq_two.mp htaken.symm
      rw [hchildren] at h h' ⊢
      dsimp only
      split
      · next threshold steepness ignoreSlope _ =>
        exact conditional_repeats hself hm.rows _ threshold steepness ignoreSlope hs h h'
      · exact .mismatch _ _

end Calls

/-! ## Runs -/

section Runs

variable (hm : Relocates m m' data entryPoints entryPoints')

include hm

theorem run_replays (steps : Nat) :
    Replays m m' data entryPoints entryPoints' marked (m.run steps) (m'.run steps) := by
  induction steps with
  | zero =>
    intro node s pc _ _ _ value t hrun
    cases hrun
  | succ steps ih =>
    intro node s pc hs h h' value t hrun
    obtain ⟨hfetch, hnode, hdefined, hchildren⟩ := h.root
    obtain ⟨hfetch', -, -, hchildren'⟩ := h'.root
    rw [run, step, bind_of_done (fetch_eq hfetch)] at hrun
    obtain ⟨executed, rfl, hother⟩ := perform_repeats ih hm hnode hdefined (s := s.advance 1 1) hs
      hchildren hchildren' hrun
    refine ⟨1 + executed, ?_, ?_⟩
    · rw [State.advance_advance, Node.count_eq]
    · rw [run, step, bind_of_done (fetch_eq (s := s.seen pc marked) hfetch'), Node.count_eq,
        ← Nat.add_assoc]
      exact hother

/-- A subtree has the same value wherever it stands, and its run leaves the same state behind, but
for the address. -/
theorem evaluate_relocates {node : Node} (hs : s.Inside m marked)
    (h : m.Holds entryPoints data s.pc [node]) (h' : m'.Holds entryPoints' data pc [node])
    {value : Float} {t : State} (hrun : m.evaluate s = .done value t) :
    ∃ executed, t = s.advance node.count executed ∧
      m'.evaluate (s.seen pc marked) = .done value (t.seen (pc + node.count) marked) := by
  have hfirst : m.run (m.stepBound s.pc s.callDepth) s = some (.done value t) :=
    (m.run_stepBound s).trans (congrArg some hrun)
  obtain ⟨executed, ht, hother⟩ := run_replays hm _ hs h h' hfirst
  exact ⟨executed, ht, evaluate_eq_of_run hother⟩

end Runs

end Machine

end FormulaEngine
