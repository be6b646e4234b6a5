import FormulaEngine.Machine

/-!
# A cursor in a register

The machine moves its cursor by exact arithmetic. A machine whose cursor is kept in a register does
the same, but every position goes through the register: the register may hold another position
instead, or refuse it, and then the run stops. All positions count that a run works out, those in the
middle of an integral or a derivative and those at which a lagged variable reads included.

- `CursorRegister`: what a register makes of a position; `within` refuses what is outside a range,
  `checked` what is outside 64 bits, and `wrapped` keeps the lowest 64 bits;
- `CursorRegister.words`: these two registers of 64 bits;
- `CursorRegister.Additive`: positions in the register may be moved on from;
- `Machine.runIn`: runs with the cursor in a register;
- `Machine.runIn_exact`: with a register that holds everything, the runs are those of the machine.
-/

namespace FormulaEngine

/-- The position that a register holds when a position is put into it, or nothing if it refuses. -/
abbrev CursorRegister := Int → Option Int

namespace CursorRegister

/-- Holds every position. -/
def exact : CursorRegister := some

/-- Refuses positions outside a range. -/
def within (low high : Int) : CursorRegister := fun position =>
  if low ≤ position ∧ position ≤ high then some position else none

/-- Refuses what 64 bits cannot hold. -/
abbrev checked : CursorRegister := within Int64.minValue.toInt Int64.maxValue.toInt

/-- Keeps the lowest 64 bits, as a signed number. -/
def wrapped : CursorRegister := fun position => some (Int64.ofInt position).toInt

/-- Within a range the register holds every position as it is. -/
def Faithful (register : CursorRegister) (low high : Int) : Prop :=
  ∀ position, low ≤ position → position ≤ high → register position = some position

theorem Faithful.mono {register : CursorRegister} {low high low' high' : Int}
    (h : register.Faithful low high) (hlow : low ≤ low') (hhigh : high' ≤ high) :
    register.Faithful low' high' := fun position hposition hposition' =>
  h position (Int.le_trans hlow hposition) (Int.le_trans hposition' hhigh)

theorem faithful_exact (low high : Int) : exact.Faithful low high := fun _ _ _ => rfl

theorem faithful_within (low high : Int) : (within low high).Faithful low high :=
  fun _ hlow hhigh => if_pos ⟨hlow, hhigh⟩

theorem faithful_wrapped {low high : Int} (hlow : Int64.minValue.toInt ≤ low)
    (hhigh : high ≤ Int64.maxValue.toInt) : wrapped.Faithful low high := by
  intro position hposition hposition'
  rw [Int64.toInt_minValue] at hlow
  rw [Int64.toInt_maxValue] at hhigh
  rw [wrapped, Int64.toInt_ofInt_of_le (by omega) (by omega)]

/-- Moving on from a position in the register leads to where moving on from the position itself
does. -/
def Additive (register : CursorRegister) : Prop :=
  ∀ ⦃position held : Int⦄, register position = some held →
    ∀ rows, register (held + rows) = register (position + rows)

/-- What is in the register stays in it. -/
theorem Additive.held {register : CursorRegister} (h : register.Additive) {position held : Int}
    (hheld : register position = some held) : register held = some held := by
  have hsame := h hheld 0
  rwa [Int.add_zero, Int.add_zero, hheld] at hsame

theorem additive_exact : exact.Additive := by
  intro position held hheld rows
  cases hheld
  rfl

end CursorRegister

namespace Machine

section Register

variable (register : CursorRegister)

/-- Puts a position into the register. -/
def place (position : Int) : Action Int := .ofOption .overflow (register position)

/-- `move`, with the new position in the register. -/
def moveIn (rows : Int) : Action Unit := do
  let cursor ← Action.get State.cursor
  let cursor ← place register (cursor + rows)
  Action.modify fun s => { s with cursor }

/-- `accumulate`, with the position of every round in the register. -/
def accumulateIn (self : Action Float) (start : Nat) (step : Int) :
    (count : Nat) → (sum : Float) → Action Float
  | 0, sum => pure sum
  | count + 1, sum => do
    moveIn register step
    let value ← lagged self
    jump start
    accumulateIn self start step count (sum + value)

/-- `integrate`, with the position of every round in the register. -/
def integrateIn (self : Action Float) (lag : Int) : Action Float := do
  let start ← Action.get State.pc
  let sum ← accumulateIn register self start lag.sign lag.natAbs 0.0
  moveIn register (-lag)
  let value ← lagged self
  return sum + value

/-- `differentiate`, with all four positions in the register. -/
def differentiateIn (self : Action Float) : Action Float := do
  let start ← Action.get State.pc
  let f0 ← lagged self
  moveIn register (-1)
  jump start
  let f1 ← lagged self
  moveIn register (-2)
  jump start
  let f3 ← lagged self
  moveIn register (-1)
  jump start
  let f4 ← lagged self
  moveIn register 4
  return Arithmetic.recentSlope f0 f1 f3 f4

/-- `weightedAt`, with the position that is read in the register. -/
def weightedAtIn (m : Machine) (i : BoundInstruction) (weight : Float) (lag : Int) :
    Action Float := do
  let cursor ← Action.get State.cursor
  match i.data with
  | .numeric column =>
    let position ← place register (cursor + lag)
    match m.cell? column position with
    | some value => return value * weight
    | none => return nan
  | _ => return nan

/-- `perform`, with the cursor in the register. -/
def performIn (m : Machine) (self : Action Float) (i : BoundInstruction) : Action Float :=
  match i.opcode.operation with
  | .timeLag =>
    match i.node.symbol with
    | .timeLag lag => do
      moveIn register lag.toInt
      let value ← lagged self
      moveIn register (-lag.toInt)
      return value
    | _ => mismatch i
  | .integral =>
    match i.node.symbol with
    | .integral lag => integrateIn register self lag.toInt
    | _ => mismatch i
  | .derivative => differentiateIn register self
  | .lagVariable =>
    match i.node.symbol with
    | .laggedVariable _ weight lag => m.weightedAtIn register i weight lag.toInt
    | _ => mismatch i
  | _ => m.perform self i

/-- `step`, with the cursor in the register. -/
def stepIn (m : Machine) (self : Action Float) : Action Float := do
  let i ← m.fetch
  m.performIn register self i

/-- `run`, with the cursor in the register. -/
def runIn (m : Machine) : (steps : Nat) → Action Float
  | 0 => .unfinished
  | steps + 1 => m.stepIn register (runIn m steps)

end Register

/-! ## A register that holds everything -/

theorem moveIn_exact (rows : Int) : moveIn .exact rows = move rows := rfl

theorem accumulateIn_exact (self : Action Float) (start : Nat) (step : Int) (count : Nat)
    (sum : Float) :
    accumulateIn .exact self start step count sum = accumulate self start step count sum := by
  induction count generalizing sum with
  | zero => rfl
  | succ count ih => simp only [accumulateIn, accumulate, moveIn_exact, ih]

theorem integrateIn_exact (self : Action Float) (lag : Int) :
    integrateIn .exact self lag = integrate self lag := by
  simp only [integrateIn, integrate, accumulateIn_exact, moveIn_exact]

theorem performIn_exact (m : Machine) (self : Action Float) (i : BoundInstruction) :
    m.performIn .exact self i = m.perform self i := by
  unfold performIn
  split
  · next hoperation => unfold perform; rw [hoperation]; rfl
  · next hoperation =>
    unfold perform
    rw [hoperation]
    cases i.node.symbol with
    | integral lag => exact integrateIn_exact self lag.toInt
    | _ => rfl
  · next hoperation => unfold perform; rw [hoperation]; rfl
  · next hoperation => unfold perform; rw [hoperation]; rfl
  · rfl

theorem stepIn_exact (m : Machine) (self : Action Float) : m.stepIn .exact self = m.step self := by
  unfold stepIn step
  simp only [performIn_exact]

/-- If the register holds everything, the run is that of the machine. -/
theorem runIn_exact (m : Machine) (steps : Nat) : m.runIn .exact steps = m.run steps := by
  induction steps with
  | zero => rfl
  | succ steps ih => rw [runIn, run, ih, stepIn_exact]

end Machine

end FormulaEngine
