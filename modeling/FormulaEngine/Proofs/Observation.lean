import FormulaEngine.Machine.Termination

/-!
# Observed runs

Runs that are looked at while they go on. At every moment at which something can be seen of a call,
and before every fetch, the state is compared with what is allowed; a run that comes into a state
that is not allowed stays unfinished. So a run that is observed and ends as it does unobserved has
been in allowed states only.

- `Machine.Moment`: when a run is looked at;
- `Machine.runObserved`: the machine with these looks;
- `Machine.Throughout`: from a state on, no look finds anything that is not allowed;
- `Machine.runObserved_true`: if everything is allowed, looking makes no difference.

Between two fetches only calls change the stack, so a look after each of their changes misses no
state of it.
-/

namespace FormulaEngine.Machine

/-- When a run is looked at. -/
inductive Moment where
  /-- An instruction is about to be fetched. -/
  | fetch
  /-- The value of an argument has been put aside. -/
  | pushed
  /-- The frame of a function has been made. -/
  | entered
  /-- The frame of a function has been removed. -/
  | left
  /-- As many functions are running as the limit allows, so a call does not go on to its function. -/
  | cutOff
  /-- The arguments of a call that goes to no function have been thrown away. -/
  | discarded
deriving DecidableEq

section Looks

variable (allowed : Moment → State → Prop) [∀ moment, DecidablePred (allowed moment)]

/-- Looks at the state and goes on if it is allowed at this moment. -/
def look (moment : Moment) : Action Unit := fun s =>
  if allowed moment s then some (.done () s) else none

/-- `pushArguments`, with a look after every argument. -/
def pushObserved (self : Action Float) : (count : Nat) → Action Unit
  | 0 => pure ()
  | count + 1 => do
    let value ← self
    Action.modify fun s => { s with stack := s.stack.push value }
    look allowed .pushed
    pushObserved self count

/-- `enter`, with a look at the new frame and one after it is gone. -/
def enterObserved (self : Action Float) (count target : Nat) : Action Float := do
  let entered ← Action.get fun s => s.stack.enter? count
  let stack ← Action.ofOption .outOfBounds entered
  let back ← Action.get State.pc
  Action.modify fun s => { s with stack, pc := target, callDepth := s.callDepth + 1 }
  look allowed .entered
  let value ← self
  Action.modify fun s =>
    { s with stack := s.stack.leave, pc := back, callDepth := s.callDepth - 1 }
  look allowed .left
  return value

/-- `call`, with a look after everything that it does to the stack, and where the limit of nested
calls keeps it from its function. -/
def callObserved (m : Machine) (self : Action Float) (i : BoundInstruction) : Action Float := do
  pushObserved allowed self i.argCount
  let depth ← Action.get State.callDepth
  match i.data with
  | .jump target =>
    if depth < m.maxCallDepth then
      enterObserved allowed self i.argCount target
    else
      look allowed .cutOff
      Action.modify fun s => { s with stack := s.stack.discard i.argCount }
      look allowed .discarded
      return nan
  | _ =>
    Action.modify fun s => { s with stack := s.stack.discard i.argCount }
    look allowed .discarded
    return nan

/-- `perform`, with the looks at calls. -/
def performObserved (m : Machine) (self : Action Float) (i : BoundInstruction) : Action Float :=
  match i.opcode.operation with
  | .call => m.callObserved allowed self i
  | _ => m.perform self i

/-- `run`, with a look before every fetch and the looks at calls. -/
def runObserved (m : Machine) : (steps : Nat) → Action Float
  | 0 => .unfinished
  | steps + 1 => do
    look allowed .fetch
    let i ← m.fetch
    m.performObserved allowed (runObserved m steps) i

/-- From `s` on the run is in allowed states at all moments: it ends as it would if nobody
looked. -/
def Throughout (m : Machine) (s : State) : Prop :=
  m.runObserved allowed (m.stepBound s.pc s.callDepth) s = m.run (m.stepBound s.pc s.callDepth) s

end Looks

/-! ## Nothing forbidden -/

theorem look_true (moment : Moment) : look (fun _ _ => True) moment = pure () := by
  funext s
  rfl

/-- A pure result in front adds nothing. -/
theorem pure_unit_bind {α : Type} (next : Unit → Action α) : (pure () >>= next) = next () := rfl

theorem pushObserved_true (self : Action Float) (count : Nat) :
    pushObserved (fun _ _ => True) self count = pushArguments self count := by
  induction count with
  | zero => rfl
  | succ count ih => simp only [pushObserved, pushArguments, look_true, pure_unit_bind, ih]

theorem callObserved_true (m : Machine) (self : Action Float) (i : BoundInstruction) :
    m.callObserved (fun _ _ => True) self i = m.call self i := by
  -- a look that allows everything computes away, but the arguments are observed by recursion
  show (pushObserved (fun _ _ => True) self i.argCount >>= _ : Action Float) =
    (pushArguments self i.argCount >>= _ : Action Float)
  rw [pushObserved_true]
  rfl

theorem performObserved_true (m : Machine) (self : Action Float) (i : BoundInstruction) :
    m.performObserved (fun _ _ => True) self i = m.perform self i := by
  unfold performObserved
  split
  · next hcall =>
    rw [callObserved_true]
    unfold perform
    rw [hcall]
  · rfl

/-- If everything is allowed, looking makes no difference. -/
theorem runObserved_true (m : Machine) (steps : Nat) :
    m.runObserved (fun _ _ => True) steps = m.run steps := by
  induction steps with
  | zero => rfl
  | succ steps ih =>
    show (look _ .fetch >>= fun _ => m.fetch >>= _ : Action Float) = (m.fetch >>= _ : Action Float)
    rw [look_true, pure_unit_bind, ih]
    exact congrArg (m.fetch >>= ·) (funext fun i => m.performObserved_true _ i)

end FormulaEngine.Machine
