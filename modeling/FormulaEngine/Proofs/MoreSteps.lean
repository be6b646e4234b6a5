import FormulaEngine.Proofs.Lockstep

/-!
# More steps

A run that ends within some number of steps ends alike with more of them, wherever it starts, whatever
the code holds, and whatever register the cursor is kept in. Nothing has to be known of the states in
which operands are run: an instruction only binds the runs of its operands together.

- `Machine.Extends`: wherever one action ends, another one ends alike;
- `Machine.extends_performIn`: an instruction extends another one if the runs of its operands do;
- `Machine.runIn_eq_evaluateIn`: within its bound a run has the outcome that it has with more steps.
-/

namespace FormulaEngine.Machine

variable {α β : Type} {m : Machine} {self self' : Action Float}

/-- Wherever `action` ends, `other` ends alike. -/
def Extends (action other : Action α) : Prop := ∀ s, EndsAs s action other

theorem extends_refl (action : Action α) : Extends action action := fun s => EndsAs.refl s action

theorem extends_bind {action other : Action α} {next next' : α → Action β}
    (h : Extends action other) (hnext : ∀ value, Extends (next value) (next' value)) :
    Extends (action >>= next) (other >>= next') :=
  fun s => endsAs_bind (h s) fun value s' _ => hnext value s'

/-- After the same beginning. -/
theorem extends_after (action : Action α) {next next' : α → Action β}
    (hnext : ∀ value, Extends (next value) (next' value)) :
    Extends (action >>= next) (action >>= next') :=
  extends_bind (extends_refl action) hnext

/-- Before the same end. -/
theorem extends_before {action other : Action α} (h : Extends action other) (next : α → Action β) :
    Extends (action >>= next) (other >>= next) :=
  extends_bind h fun value => extends_refl (next value)

/-! ## Operands -/

theorem extends_collect (h : Extends self self') (count : Nat) (found : List Float) :
    Extends (collect self count found) (collect self' count found) := by
  induction count generalizing found with
  | zero => exact extends_refl _
  | succ count ih => exact extends_bind h fun value => ih (value :: found)

theorem extends_operandsWhile (h : Extends self self') (goesOn : Float → Bool) (count : Nat)
    (last : Float) :
    Extends (m.operandsWhile self goesOn count last) (m.operandsWhile self' goesOn count last) := by
  induction count generalizing last with
  | zero => exact extends_refl _
  | succ count ih =>
    rw [operandsWhile, operandsWhile]
    split
    · exact extends_bind h fun value => ih value
    · exact extends_after m.skip fun _ => ih last

/-- Of two operands one is run. -/
theorem extends_either (h : Extends self self') (first : Prop) [Decidable first] :
    Extends (if first then (self >>= fun value => m.skip >>= fun _ => pure value)
      else (m.skip >>= fun _ => self) : Action Float)
      (if first then (self' >>= fun value => m.skip >>= fun _ => pure value)
        else (m.skip >>= fun _ => self')) := by
  split
  · exact extends_before h _
  · exact extends_after m.skip fun _ => h

theorem extends_conditional (h : Extends self self') (i : BoundInstruction)
    (threshold steepness : Float) (ignoreSlope : Bool) :
    Extends (m.conditional self i threshold steepness ignoreSlope)
      (m.conditional self' i threshold steepness ignoreSlope) := by
  refine extends_after (m.readNumber i) fun value => ?_
  cases value with
  | none => exact extends_refl _
  | some value =>
    cases ignoreSlope with
    | true => exact extends_either h (value ≤ threshold)
    | false => exact extends_bind h fun left => extends_before h _

/-! ## Operands at other rows -/

section Shifted

variable (register : CursorRegister)

theorem extends_lagged (h : Extends self self') : Extends (lagged self) (lagged self') :=
  extends_after _ fun _ => extends_after _ fun _ => extends_before h _

theorem extends_accumulateIn (h : Extends self self') (start : Nat) (step : Int) (count : Nat)
    (sum : Float) :
    Extends (accumulateIn register self start step count sum)
      (accumulateIn register self' start step count sum) := by
  induction count generalizing sum with
  | zero => exact extends_refl _
  | succ count ih =>
    exact extends_after _ fun _ => extends_bind (extends_lagged h) fun value =>
      extends_after _ fun _ => ih (sum + value)

theorem extends_integrateIn (h : Extends self self') (lag : Int) :
    Extends (integrateIn register self lag) (integrateIn register self' lag) :=
  extends_after _ fun start => extends_bind (extends_accumulateIn register h start _ _ _) fun _ =>
    extends_after _ fun _ => extends_before (extends_lagged h) _

theorem extends_differentiateIn (h : Extends self self') :
    Extends (differentiateIn register self) (differentiateIn register self') :=
  have hlagged := extends_lagged h
  extends_after _ fun _ =>
    extends_bind hlagged fun _ => extends_after _ fun _ => extends_after _ fun _ =>
    extends_bind hlagged fun _ => extends_after _ fun _ => extends_after _ fun _ =>
    extends_bind hlagged fun _ => extends_after _ fun _ => extends_after _ fun _ =>
    extends_before hlagged _

end Shifted

/-! ## Calls and instructions -/

theorem extends_pushArguments (h : Extends self self') (count : Nat) :
    Extends (pushArguments self count) (pushArguments self' count) := by
  induction count with
  | zero => exact extends_refl _
  | succ count ih => exact extends_bind h fun _ => extends_after _ fun _ => ih

theorem extends_enter (h : Extends self self') (count target : Nat) :
    Extends (enter self count target) (enter self' count target) :=
  extends_after _ fun _ => extends_after _ fun _ => extends_after _ fun _ =>
    extends_after _ fun _ => extends_before h _

theorem extends_call (h : Extends self self') (i : BoundInstruction) :
    Extends (m.call self i) (m.call self' i) := by
  refine extends_bind (extends_pushArguments h _) fun _ => extends_after _ fun depth => ?_
  split
  · split
    · exact extends_enter h _ _
    · exact extends_refl _
  · exact extends_refl _

theorem extends_performIn (register : CursorRegister) (h : Extends self self')
    (i : BoundInstruction) :
    Extends (m.performIn register self i) (m.performIn register self' i) := by
  unfold performIn perform
  cases i.opcode.operation with
  | strict operands combine => exact extends_before (extends_collect h _ _) _
  | choice => exact extends_bind h fun _ => extends_either h _
  | conjunction =>
    simp only [allTrue_eq_operandsWhile]
    exact extends_bind h fun first => extends_operandsWhile h _ _ first
  | disjunction =>
    simp only [anyTrue_eq_operandsWhile]
    exact extends_bind h fun first => extends_operandsWhile h _ _ first
  | timeLag =>
    dsimp only
    split
    · exact extends_after _ fun _ => extends_before (extends_lagged h) _
    · exact extends_refl _
  | integral =>
    dsimp only
    split
    · exact extends_integrateIn register h _
    · exact extends_refl _
  | derivative => exact extends_differentiateIn register h
  | call => exact extends_call h i
  | variableCondition =>
    dsimp only
    split
    · exact extends_conditional h i _ _ _
    · exact extends_refl _
  | argument | constant | numericVariable | lagVariable | factorVariable | binaryFactorVariable =>
    exact extends_refl _

/-! ## Runs -/

/-- More steps make no difference to a run that ends. -/
theorem extends_runIn (register : CursorRegister) {steps steps' : Nat} (h : steps ≤ steps') :
    Extends (m.runIn register steps) (m.runIn register steps') := by
  induction steps generalizing steps' with
  | zero =>
    intro s outcome hrun
    cases hrun
  | succ steps ih =>
    obtain ⟨rest, rfl⟩ : ∃ rest, steps' = rest + 1 := ⟨steps' - 1, by omega⟩
    exact extends_after m.fetch fun i =>
      extends_performIn register (ih (Nat.le_of_succ_le_succ h)) i

/-- Once a run is finished within its bound, more steps change nothing. -/
theorem runIn_eq_evaluateIn (register : CursorRegister) {steps : Nat} {s : State}
    (h : m.stepBound s.pc s.callDepth ≤ steps) :
    m.runIn register steps s = some (m.evaluateIn register s) :=
  extends_runIn register h s _ (m.runIn_stepBound register s)

end FormulaEngine.Machine
