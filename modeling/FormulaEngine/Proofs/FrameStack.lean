import FormulaEngine.Machine.FlatStack
import FormulaEngine.Proofs.Lockstep
import FormulaEngine.Proofs.WholeNumbers

/-!
# Frames without a layout

What an argument stack is for, said without a layout: a list of frames, each a list of arguments, and
the list of the arguments that have no frame yet. Both layouts of the stack, the row of numbers and
the one with marked lengths, show exactly these lists, whatever calls do to them.

- `FrameStack`: the frames as lists, with what calls do to them;
- `CallStack`: what calls do to an argument stack, and what of it they see, for any layout;
- `StackStep`: one thing that a call does, on frames and in a layout;
- `CallStack.LaysOut`: a layout stands for frames, before and after every step;
- `CallStack.LaysOut.run?`: so it does after any sequence of steps;
- `FlatStack.laysOut`, `ArgumentStack.laysOut`: this holds of both layouts;
- `StackStep.layouts_agree`: so after any sequence of steps both layouts show the frames.

A frame has at most 65535 arguments. What the row of numbers needs is that the count of a frame comes
back from its binary64 number, whatever numbers the arguments are.
-/

namespace FormulaEngine

/-- The arguments of the calls that are running and of those under construction. -/
structure FrameStack where
  /-- The arguments of the calls that are running, the innermost call first. -/
  frames : List (List Float) := []
  /-- The arguments without a frame yet, in order. -/
  pending : List Float := []

namespace FrameStack

/-- The number of arguments that a call can have. -/
def maxArguments : Nat := 65535

def push (value : Float) (stack : FrameStack) : FrameStack :=
  { stack with pending := stack.pending ++ [value] }

/-- The arguments but for the last `count` ones. -/
def kept (count : Nat) (stack : FrameStack) : List Float :=
  stack.pending.take (stack.pending.length - count)

/-- The last `count` arguments, in order. -/
def taken (count : Nat) (stack : FrameStack) : List Float :=
  stack.pending.drop (stack.pending.length - count)

def discard (count : Nat) (stack : FrameStack) : FrameStack :=
  { stack with pending := stack.kept count }

def enter (count : Nat) (stack : FrameStack) : FrameStack :=
  ⟨stack.taken count :: stack.frames, stack.kept count⟩

def leave (stack : FrameStack) : FrameStack := { stack with frames := stack.frames.tail }

/-- Argument `index` of the innermost frame, NaN if there is no frame or no such argument. -/
def argument (index : Nat) (stack : FrameStack) : Float :=
  ((stack.frames.headD [])[index]?).getD nan

/-- The number of arguments in frames, with one more for every frame. -/
def depth (stack : FrameStack) : Nat := (stack.frames.map fun frame => frame.length + 1).sum

/-- No frame has more arguments than a call can have. -/
def Countable (stack : FrameStack) : Prop := ∀ frame ∈ stack.frames, frame.length ≤ maxArguments

theorem length_taken {count : Nat} {stack : FrameStack} (h : count ≤ stack.pending.length) :
    (stack.taken count).length = count := by
  rw [taken, List.length_drop]
  omega

end FrameStack

/-! ## Layouts -/

/-- What calls do to an argument stack, and what they see of it. -/
class CallStack (σ : Type) where
  empty : σ
  push : Float → σ → σ
  discard : Nat → σ → σ
  enter? : Nat → σ → Option σ
  leave : σ → σ
  argument? : Nat → σ → Option Float
  /-- The arguments without a frame, in order. -/
  pending : σ → List Float
  depth : σ → Nat

instance : CallStack FlatStack where
  empty := {}
  push := FlatStack.push
  discard := FlatStack.discard
  enter? := FlatStack.enter?
  leave := FlatStack.leave
  argument? := FlatStack.argument?
  pending stack := stack.pending.toList
  depth := FlatStack.depth

instance : CallStack ArgumentStack where
  empty := {}
  push := ArgumentStack.push
  discard := ArgumentStack.discard
  enter? := ArgumentStack.enter?
  leave := ArgumentStack.leave
  argument? := ArgumentStack.argument?
  pending stack := stack.pending.reverse
  depth := ArgumentStack.depth

/-- One thing that a call does to the argument stack. -/
inductive StackStep where
  | push (value : Float)
  | discard (count : Nat)
  | enter (count : Nat)
  | leave

namespace StackStep

/-- The step on frames. -/
def onFrames (frames : FrameStack) : StackStep → FrameStack
  | push value => frames.push value
  | discard count => frames.discard count
  | enter count => frames.enter count
  | leave => frames.leave

/-- The step in a layout, which fails where it would reach beyond the values that are there. -/
def perform? {σ : Type} [CallStack σ] (stack : σ) : StackStep → Option σ
  | push value => some (CallStack.push value stack)
  | discard count => some (CallStack.discard count stack)
  | enter count => CallStack.enter? count stack
  | leave => some (CallStack.leave stack)

/-- The step asks for no more arguments than there are, and for no more than a call can have. -/
def Fits (frames : FrameStack) : StackStep → Prop
  | push _ | leave => True
  | discard count | enter count =>
    count ≤ frames.pending.length ∧ count ≤ FrameStack.maxArguments

instance (frames : FrameStack) : DecidablePred (Fits frames)
  | push _ | leave => inferInstanceAs (Decidable True)
  | discard _ | enter _ => inferInstanceAs (Decidable (_ ∧ _))

/-- Every step fits where it is done. -/
def AllFit : FrameStack → List StackStep → Prop
  | _, [] => True
  | frames, step :: rest => step.Fits frames ∧ AllFit (step.onFrames frames) rest

instance decidableAllFit : (frames : FrameStack) → DecidablePred (AllFit frames)
  | _, [] => inferInstanceAs (Decidable True)
  | frames, step :: rest =>
    have := decidableAllFit (step.onFrames frames) rest
    inferInstanceAs (Decidable (_ ∧ _))

/-- The frames after a sequence of steps. -/
def runFrames (frames : FrameStack) (steps : List StackStep) : FrameStack :=
  steps.foldl onFrames frames

/-- A layout after a sequence of steps. -/
def run? {σ : Type} [CallStack σ] (stack : σ) (steps : List StackStep) : Option σ :=
  steps.foldlM perform? stack

theorem AllFit.of_append {front back : List StackStep} {frames : FrameStack}
    (h : AllFit frames (front ++ back)) : AllFit frames front := by
  induction front generalizing frames with
  | nil => trivial
  | cons step rest ih => exact ⟨h.1, ih h.2⟩

/-- Steps that fit keep frames countable. -/
theorem Fits.countable {step : StackStep} {frames : FrameStack} (h : step.Fits frames)
    (hframes : frames.Countable) : (step.onFrames frames).Countable := by
  cases step with
  | push value => exact hframes
  | discard count => exact hframes
  | enter count =>
    refine List.forall_mem_cons.mpr ⟨?_, hframes⟩
    rw [FrameStack.length_taken h.1]
    exact h.2
  | leave => exact fun frame hframe => hframes frame (List.mem_of_mem_tail hframe)

end StackStep

/-! ## Layouts of frames -/

namespace CallStack

variable {σ : Type} [CallStack σ]

/-- What calls see of a layout is what they would see of the frames. -/
structure Shows (stack : σ) (frames : FrameStack) : Prop where
  argument : ∀ index, argument? index stack = some (frames.argument index)
  pending : pending stack = frames.pending
  depth : depth stack = frames.depth

/-- A way to lay out frames: steps that fit lead from the layout of frames to the layout of the frames
after the step, and the layout shows the frames. -/
structure LaysOut (layout : FrameStack → σ) : Prop where
  empty : layout {} = empty
  step : ∀ (frames : FrameStack) (step : StackStep), frames.Countable → step.Fits frames →
    step.perform? (layout frames) = some (layout (step.onFrames frames))
  shows : ∀ frames : FrameStack, frames.Countable → Shows (layout frames) frames

/-- Any sequence of steps that fit leads from layout to layout. -/
theorem LaysOut.run? {layout : FrameStack → σ} (hlayout : LaysOut layout) {frames : FrameStack}
    (hframes : frames.Countable) {steps : List StackStep} (hfit : StackStep.AllFit frames steps) :
    StackStep.run? (layout frames) steps = some (layout (StackStep.runFrames frames steps)) ∧
      Shows (layout (StackStep.runFrames frames steps)) (StackStep.runFrames frames steps) := by
  induction steps generalizing frames with
  | nil => exact ⟨rfl, hlayout.shows frames hframes⟩
  | cons step rest ih =>
    obtain ⟨hstep, hrest⟩ := hfit
    obtain ⟨hrun, hshows⟩ := ih (hstep.countable hframes) hrest
    refine ⟨?_, hshows⟩
    rw [StackStep.run?, List.foldlM_cons, hlayout.step frames step hframes hstep]
    exact hrun

end CallStack

/-! ## The row of numbers -/

namespace FlatStack

/-- A number of arguments that a call can have comes back from its binary64 number. -/
theorem markedCount_marker {count : Nat} (h : count ≤ FrameStack.maxArguments) :
    markedCount (marker count) = count := by
  have hmax : FrameStack.maxArguments = 65535 := rfl
  have hword : count.toUInt64.toNat = count := UInt64.toNat_ofNat_of_lt' (by
    show count < 2 ^ 64
    omega)
  rw [markedCount, marker, toUInt64_toFloat (by omega), hword]

/-- The numbers of frames from the top down, each count in front of its arguments. -/
def numbersOf (frames : List (List Float)) : List Float :=
  frames.flatMap fun frame => marker frame.length :: frame

/-- Frames as a row of numbers. -/
def ofFrames (stack : FrameStack) : FlatStack :=
  ⟨(numbersOf stack.frames).reverse.toArray, stack.pending.toArray⟩

variable {frame : List Float} {frames : List (List Float)} {pending : List Float}

theorem numbersOf_cons : numbersOf (frame :: frames) =
    marker frame.length :: (frame ++ numbersOf frames) := by
  simp [numbersOf]

theorem length_numbersOf : (numbersOf frames).length =
    (frames.map fun frame => frame.length + 1).sum := by
  simp [numbersOf, List.length_flatMap]

/-- The count of the innermost frame is on top. -/
theorem back?_ofFrames : (ofFrames ⟨frame :: frames, pending⟩).numbers.back? =
    some (marker frame.length) := by
  simp [ofFrames, numbersOf_cons]

/-- Counted from below the top, the row has the numbers of the frames from the top down. -/
theorem getElem?_ofFrames {stack : FrameStack} {index : Nat}
    (h : index + 2 ≤ (numbersOf stack.frames).length) :
    (ofFrames stack).numbers[(ofFrames stack).numbers.size - 2 - index]? =
      (numbersOf stack.frames)[index + 1]? := by
  have hindex : (numbersOf stack.frames).length - 1 -
      ((numbersOf stack.frames).length - 2 - index) = index + 1 := by omega
  simp only [ofFrames, List.size_toArray, List.length_reverse, List.getElem?_toArray]
  rw [List.getElem?_reverse (by omega), hindex]

theorem drop_ofFrames (count : Nat) (stack : FrameStack) :
    (ofFrames stack).pending.drop ((ofFrames stack).pending.size - count) =
      (stack.taken count).toArray := by
  simp [ofFrames, FrameStack.taken, List.take_of_length_le]

theorem take_ofFrames (count : Nat) (stack : FrameStack) :
    (ofFrames stack).pending.take ((ofFrames stack).pending.size - count) =
      (stack.kept count).toArray := by
  simp [ofFrames, FrameStack.kept]

/-- The arguments of a call are put upside down on top of the frames, and their count on top. -/
theorem enter?_ofFrames {count : Nat} {stack : FrameStack} (h : count ≤ stack.pending.length) :
    (ofFrames stack).enter? count = some (ofFrames (stack.enter count)) := by
  have hsize : count ≤ (ofFrames stack).pending.size := h
  have hnumbers : ((numbersOf stack.frames).reverse.toArray ++
        (stack.taken count).toArray.reverse).push (marker count) =
      (numbersOf (stack.taken count :: stack.frames)).reverse.toArray := by
    rw [numbersOf_cons, FrameStack.length_taken h]
    simp
  rw [enter?, if_pos hsize]
  simp only [drop_ofFrames, take_ofFrames]
  exact congrArg (fun numbers => some (FlatStack.mk numbers _)) hnumbers

/-- Below the count of the innermost frame lie its arguments, as many as the count says. -/
theorem leave_ofFrames {stack : FrameStack} (h : stack.Countable) :
    (ofFrames stack).leave = ofFrames stack.leave := by
  obtain ⟨frames, pending⟩ := stack
  cases frames with
  | nil => rfl
  | cons frame rest =>
    have hcount := markedCount_marker (h frame List.mem_cons_self)
    simp only [leave, back?_ofFrames, hcount]
    simp [ofFrames, FrameStack.leave, numbersOf_cons]

/-- The arguments are found from the top, and what is behind the last one is not looked at. -/
theorem argument?_ofFrames {stack : FrameStack} (h : stack.Countable) (index : Nat) :
    (ofFrames stack).argument? index = some (stack.argument index) := by
  obtain ⟨frames, pending⟩ := stack
  cases frames with
  | nil => rfl
  | cons frame rest =>
    have hcount := markedCount_marker (h frame List.mem_cons_self)
    simp only [argument?, back?_ofFrames, hcount, FrameStack.argument, List.headD_cons]
    by_cases hindex : index < frame.length
    · rw [if_pos hindex]
      have hlength : (numbersOf (frame :: rest)).length =
          frame.length + (numbersOf rest).length + 1 := by
        rw [numbersOf_cons, List.length_cons, List.length_append]
      have hsize : (ofFrames ⟨frame :: rest, pending⟩).numbers.size =
          (numbersOf (frame :: rest)).length := by simp [ofFrames]
      have hbound : index + 2 ≤ (numbersOf (frame :: rest)).length := by omega
      rw [if_pos (by omega), getElem?_ofFrames hbound]
      show (numbersOf (frame :: rest))[index + 1]? = _
      rw [numbersOf_cons, List.getElem?_cons_succ, List.getElem?_append_left hindex,
        List.getElem?_eq_getElem hindex]
      rfl
    · rw [if_neg hindex, List.getElem?_eq_none (Nat.not_lt.mp hindex)]
      rfl

/-- The row of numbers is a layout of frames. Only entering and leaving touch what is stored of them. -/
theorem laysOut : CallStack.LaysOut ofFrames where
  empty := rfl
  step stack step hstack hfit := by
    cases step with
    | push value =>
      have hpush : stack.pending.toArray.push value = (stack.pending ++ [value]).toArray := by simp
      exact congrArg (fun pending => some (FlatStack.mk _ pending)) hpush
    | discard count =>
      exact congrArg (fun pending => some (FlatStack.mk _ pending)) (take_ofFrames count stack)
    | enter count => exact enter?_ofFrames hfit.1
    | leave => exact congrArg some (leave_ofFrames hstack)
  shows stack hstack :=
    { argument := argument?_ofFrames hstack
      pending := rfl
      depth := by
        show (numbersOf stack.frames).reverse.toArray.size = _
        rw [List.size_toArray, List.length_reverse, length_numbersOf, FrameStack.depth] }

end FlatStack

/-! ## Marked lengths -/

namespace ArgumentStack

/-- Frames with their lengths marked as such, the innermost first. -/
def ofFrames (stack : FrameStack) : ArgumentStack :=
  ⟨stack.frames.flatMap fun frame => .length frame.length :: frame.map .argument,
    stack.pending.reverse⟩

variable {frame : List Float} {frames : List (List Float)} {pending : List Float}

theorem ofFrames_cons :
    ofFrames ⟨frame :: frames, pending⟩ = (ofFrames ⟨frames, pending⟩).framed frame := by
  simp [ofFrames, framed]

/-- The last arguments without a frame are those of the call that is entered next. -/
theorem ofFrames_eq_pushAll (count : Nat) (stack : FrameStack) :
    ofFrames stack = (ofFrames (stack.discard count)).pushAll (stack.taken count) := by
  have hpending : stack.pending = stack.kept count ++ stack.taken count :=
    (List.take_append_drop _ _).symm
  have hreverse : stack.pending.reverse =
      (stack.taken count).reverse ++ (stack.kept count).reverse := by
    rw [← List.reverse_append, ← hpending]
  exact congrArg (ArgumentStack.mk _) hreverse

theorem enter?_ofFrames {count : Nat} {stack : FrameStack} (h : count ≤ stack.pending.length) :
    (ofFrames stack).enter? count = some (ofFrames (stack.enter count)) := by
  have henter := enter?_pushAll (stack.taken count) (ofFrames (stack.discard count))
  rw [← ofFrames_eq_pushAll, FrameStack.length_taken h] at henter
  rw [henter, FrameStack.enter, ofFrames_cons, framed, FrameStack.length_taken h]
  rfl

theorem discard_ofFrames {count : Nat} {stack : FrameStack} (h : count ≤ stack.pending.length) :
    (ofFrames stack).discard count = ofFrames (stack.discard count) := by
  have hdiscard := discard_pushAll (stack.taken count) (ofFrames (stack.discard count))
  rwa [← ofFrames_eq_pushAll, FrameStack.length_taken h] at hdiscard

theorem leave_ofFrames (stack : FrameStack) : (ofFrames stack).leave = ofFrames stack.leave := by
  obtain ⟨frames, pending⟩ := stack
  cases frames with
  | nil => rfl
  | cons frame rest =>
    rw [ofFrames_cons, leave_framed]
    rfl

theorem frames_ofFrames (stack : FrameStack) : (ofFrames stack).Frames (stack.frames.headD []) := by
  obtain ⟨frames, pending⟩ := stack
  cases frames with
  | nil => exact Or.inl ⟨rfl, rfl⟩
  | cons frame rest =>
    rw [ofFrames_cons]
    exact Or.inr ⟨_, rfl⟩

/-- Cells with marked lengths are a layout of frames, whatever the lengths are. -/
theorem laysOut : CallStack.LaysOut ofFrames where
  empty := rfl
  step stack step _ hfit := by
    cases step with
    | push value =>
      have hpush : value :: stack.pending.reverse = (stack.pending ++ [value]).reverse := by simp
      exact congrArg (fun pending => some (ArgumentStack.mk _ pending)) hpush
    | discard count => exact congrArg some (discard_ofFrames hfit.1)
    | enter count => exact enter?_ofFrames hfit.1
    | leave => exact congrArg some (leave_ofFrames stack)
  shows stack _ :=
    { argument := argument?_eq (frames_ofFrames stack)
      pending := List.reverse_reverse _
      depth := by
        show (stack.frames.flatMap _).length = _
        simp [List.length_flatMap, FrameStack.depth] }

/-- A cell as a number. -/
def Cell.number : Cell → Float
  | .argument value => value
  | .length count => FlatStack.marker count

/-- Read from the top down, the row of numbers has the cells as numbers. -/
theorem numbers_ofFrames (stack : FrameStack) :
    (FlatStack.ofFrames stack).numbers.toList.reverse =
      (ofFrames stack).cells.map Cell.number := by
  simp only [FlatStack.ofFrames, ofFrames, List.reverse_reverse, FlatStack.numbersOf]
  rw [List.map_flatMap]
  congr 1
  funext frame
  simp [Cell.number, Function.comp_def]

end ArgumentStack

/-! ## Both layouts -/

namespace StackStep

/-- From empty stacks on, both layouts do every sequence of steps that fit without reaching beyond
what is there. After every beginning of the sequence both show the frames that the steps lead to, and
hold the same numbers. -/
theorem layouts_agree (steps : List StackStep) (hfit : AllFit {} steps) :
    ∀ front, front <+: steps → ∃ (flat : FlatStack) (stack : ArgumentStack),
      run? CallStack.empty front = some flat ∧ run? CallStack.empty front = some stack ∧
      CallStack.Shows flat (runFrames {} front) ∧ CallStack.Shows stack (runFrames {} front) ∧
      flat.numbers.toList.reverse = stack.cells.map ArgumentStack.Cell.number := by
  rintro front ⟨back, rfl⟩
  have hempty : FrameStack.Countable {} := fun frame hframe => nomatch hframe
  obtain ⟨hflat, hshowsFlat⟩ := FlatStack.laysOut.run? hempty hfit.of_append
  obtain ⟨hstack, hshowsStack⟩ := ArgumentStack.laysOut.run? hempty hfit.of_append
  exact ⟨_, _, hflat, hstack, hshowsFlat, hshowsStack, ArgumentStack.numbers_ofFrames _⟩

/-- Frames within frames, one of them empty, with arguments that look like counts. -/
def lookalikes : List StackStep :=
  [push 2.0, push 1e300, push nan, enter 3, enter 0, push (-7.0), push 4.0, discard 1, enter 1,
    leave, leave]

theorem layouts_agree_lookalikes : AllFit {} lookalikes ∧
    ∃ flat : FlatStack, run? CallStack.empty lookalikes = some flat ∧
      flat.argument? 0 = some 2.0 ∧ flat.argument? 1 = some 1e300 ∧
      flat.argument? 3 = some nan ∧ flat.depth = 4 := by
  have hfit : AllFit {} lookalikes := by decide
  obtain ⟨flat, _, hrun, -, hshows, -⟩ := layouts_agree lookalikes hfit lookalikes List.prefix_rfl
  exact ⟨hfit, flat, hrun, hshows.argument 0, hshows.argument 1, hshows.argument 3, hshows.depth⟩

end StackStep

end FormulaEngine
