import FormulaEngine.Batch.Chunk
import FormulaEngine.Proofs.Lockstep

/-!
# Drawing values

Values are drawn from an evaluation one at a time, in the order of its rows or at any row in
between. All draws share one state, and a row that ends in a fault leaves that state as it is. Still
every draw gives what it would give in an evaluation that has just been started, and only `next`
uses up a row.

- `Rows.get_eq`: the row at a position, by the list of all rows;
- `Rows.window_eq_mapM_get`: the rows that a batch loads are those at the positions;
- `Evaluation.Draw`, `Evaluation.drawAll`: draws of both kinds, one after another;
- `Evaluation.Follows`: an evaluation from which some rows of another one have been drawn;
- `Evaluation.Follows.draw`: what one draw gives and leaves; `Evaluation.follows_drawAll`: what all
  draws leave;
- `Evaluation.drawAll_drawsLazily`: each of them gives the value at its own row.
-/

namespace FormulaEngine

/-! ## Rows by position -/

namespace Rows

/-- The fault of a position behind the last row: a list is indexed, a range is checked. -/
def beyond : Rows → Fault
  | indices _ => .outOfBounds
  | range _ _ => .rowPosition

/-- The row at a position is that of the list, and behind its end there is none. -/
theorem get_eq (rows : Rows) (position : Nat) :
    rows.get position =
      match rows.toList[position]? with
      | some row => .ok row
      | none => .error rows.beyond := by
  cases rows with
  | indices rows => rfl
  | range start stop =>
    by_cases h : position < stop - start
    · simp [get, toList, h]
    · simp [get, toList, h, beyond]

theorem get_eq_ok_iff {rows : Rows} {position row : Nat} :
    rows.get position = .ok row ↔ rows.toList[position]? = some row := by
  rw [get_eq]
  cases rows.toList[position]? <;> simp

/-- Behind the last position there is no row. -/
theorem get_of_size_le {rows : Rows} {position : Nat} (h : rows.size ≤ position) :
    rows.get position = .error rows.beyond := by
  rw [get_eq, List.getElem?_eq_none (rows.length_toList ▸ h)]

theorem exists_get_of_lt {rows : Rows} {position : Nat} (h : position < rows.size) :
    ∃ row, rows.get position = .ok row := by
  have hlt : position < rows.toList.length := rows.length_toList.symm ▸ h
  exact ⟨_, get_eq_ok_iff.mpr (List.getElem?_eq_getElem hlt)⟩

/-- A piece of consecutive rows is made of consecutive rows. -/
theorem take_drop_range' {start length offset count : Nat} (h : offset + count ≤ length) :
    ((List.range' start length).drop offset).take count = List.range' (start + offset) count := by
  refine List.ext_getElem? fun k => ?_
  by_cases hk : k < count
  · rw [List.getElem?_take_of_lt hk, List.getElem?_drop, List.getElem?_range' (by omega),
      List.getElem?_range' hk]
    simp [Nat.add_assoc]
  · rw [List.getElem?_eq_none (by simp; omega), List.getElem?_eq_none (by simp; omega)]

/-- A window is a piece of the list, unless it reaches beyond the end. -/
theorem window_eq (rows : Rows) (offset count : Nat) :
    rows.window offset count =
      if count = 0 ∨ offset + count ≤ rows.size then .ok ((rows.toList.drop offset).take count)
      else .error rows.beyond := by
  cases rows with
  | indices rows =>
    have hlength : ((rows.drop offset).take count).length = count ↔
        count = 0 ∨ offset + count ≤ rows.length := by
      rw [List.length_take, List.length_drop]
      omega
    by_cases h : count = 0 ∨ offset + count ≤ rows.length
    · rw [window, if_pos (hlength.mpr h), size, if_pos h, toList]
    · rw [window, if_neg (mt hlength.mp h), size, if_neg h, beyond]
  | range start stop =>
    by_cases h : count = 0 ∨ offset + count ≤ stop - start
    · have hpiece : ((List.range' start (stop - start)).drop offset).take count =
          List.range' (start + offset) count := by
        rcases h with rfl | h
        · simp
        · exact take_drop_range' h
      rw [window, if_pos h, size, if_pos h, toList, hpiece]
    · rw [window, if_neg h, size, if_neg h, beyond]

/-- One more position shows one more row, if it has one. -/
theorem window_succ (rows : Rows) (offset count : Nat) :
    rows.window offset (count + 1) = do
      let front ← rows.window offset count
      let row ← rows.get (offset + count)
      return front ++ [row] := by
  rw [window_eq, window_eq, get_eq]
  by_cases h : offset + (count + 1) ≤ rows.size
  · have hlt : offset + count < rows.toList.length := by
      rw [length_toList]
      omega
    rw [if_pos (Or.inr h), if_pos (Or.inr (by omega)), List.take_add_one, List.getElem?_drop,
      List.getElem?_eq_getElem hlt]
    rfl
  · have hnone : rows.toList[offset + count]? = none :=
      List.getElem?_eq_none (by rw [length_toList]; omega)
    rw [if_neg (by omega), hnone]
    split <;> rfl

/-- The rows of a window are those at its positions. -/
theorem window_eq_mapM_get (rows : Rows) (offset count : Nat) :
    rows.window offset count = (List.range count).mapM fun lane => rows.get (offset + lane) := by
  induction count with
  | zero => cases rows <;> simp [window] <;> rfl
  | succ count ih =>
    rw [window_succ, ih, List.range_succ, List.mapM_append]
    simp

/-- The rows of a selection by position: there is one at every position below the size and none
behind, and a batch loads these rows, too. -/
structure ByPosition (rows : Rows) : Prop where
  get : ∀ position row, rows.get position = .ok row ↔ rows.toList[position]? = some row
  inside : ∀ position < rows.size, ∃ row, rows.get position = .ok row
  outside : ∀ position, rows.size ≤ position → rows.get position = .error rows.beyond
  /-- The row at a position of a range is below the end, so it needs no more bits than that. -/
  below : ∀ start stop, rows = range start stop → ∀ position < rows.size,
    rows.get position = .ok (start + position) ∧ start + position < stop
  window : ∀ offset count,
    rows.window offset count = (List.range count).mapM fun lane => rows.get (offset + lane)

theorem byPosition (rows : Rows) : rows.ByPosition := by
  refine ⟨fun _ _ => get_eq_ok_iff, fun _ => exists_get_of_lt, fun _ => get_of_size_le, ?_,
    rows.window_eq_mapM_get⟩
  rintro start stop rfl position hlt
  have hlt : position < stop - start := hlt
  exact ⟨by rw [get, if_pos hlt], by omega⟩

end Rows

/-! ## One draw -/

namespace Evaluation

/-- What can be asked of an evaluation: the value at the next row that is left, or at any row. -/
inductive Draw where
  | next
  | row (row : Nat)
deriving DecidableEq

/-- Draws a value. There is none if no row is left. -/
def draw (evaluation : Evaluation) : Draw → Option (Except Fault Float) × Evaluation
  | .next => evaluation.next
  | .row row =>
    let (value, evaluation) := evaluation.evaluateRow row
    (some value, evaluation)

/-- Draws values one after another. -/
def drawAll (evaluation : Evaluation) :
    List Draw → List (Option (Except Fault Float)) × Evaluation
  | [] => ([], evaluation)
  | draw :: rest =>
    let (value, evaluation) := evaluation.draw draw
    let (values, evaluation) := drawAll evaluation rest
    (value :: values, evaluation)

/-- A row leaves everything as it was but the state. -/
theorem exists_evaluateRow_snd (evaluation : Evaluation) (row : Nat) :
    ∃ state, (evaluation.evaluateRow row).2 = { evaluation with state } := by
  rw [evaluateRow_eq]
  cases evaluation.outcomeAt row with
  | done value state => exact ⟨state, rfl⟩
  | fault cause state => exact ⟨state, rfl⟩

/-- An evaluation of the same program from which `used` rows more have been drawn, or as many as
there were. -/
structure Follows (start : Evaluation) (used : Nat) (evaluation : Evaluation) : Prop where
  program : evaluation.program = start.program
  maxCallDepth : evaluation.maxCallDepth = start.maxCallDepth
  rows : evaluation.rows.toList = start.rows.toList.drop used

namespace Follows

variable {start evaluation : Evaluation} {used : Nat} (h : start.Follows used evaluation)

include h

/-- The state that draws have left behind is not seen in values. -/
theorem agreeAt (row : Nat) : AgreeAt row evaluation start := by
  refine agreeAt_of_outcomeAt (outcomeAt_congr (by rw [h.program]) fun _ => ?_)
  unfold machine
  rw [h.program, h.maxCallDepth]

theorem size_add : evaluation.rows.size + min used start.rows.size = start.rows.size := by
  rw [← Rows.length_toList, ← Rows.length_toList, h.rows, List.length_drop]
  omega

/-- A value at any row uses up no row. -/
theorem evaluateRow (row : Nat) : start.Follows used (evaluation.evaluateRow row).2 := by
  obtain ⟨state, hafter⟩ := evaluation.exists_evaluateRow_snd row
  rw [hafter]
  exact ⟨h.program, h.maxCallDepth, h.rows⟩

/-- The next value is that of the first row that is left, and this row is used up whether it has a
value or ends in a fault. -/
theorem next :
    evaluation.next.1 = start.rows.toList[used]?.map (fun row => (start.evaluateRow row).1) ∧
      start.Follows (used + 1) evaluation.next.2 := by
  have hfirst : start.rows.toList[used]? = evaluation.rows.toList.head? := by
    rw [h.rows, List.head?_drop]
  have hrest : start.rows.toList.drop (used + 1) = evaluation.rows.toList.tail := by
    rw [h.rows, List.tail_drop]
  rw [hfirst]
  cases hnext : evaluation.rows.next? with
  | none =>
    have hnone := Rows.toList_eq_nil hnext
    have hend : evaluation.next = (none, evaluation) := by
      unfold Evaluation.next
      rw [hnext]
    rw [hend, hnone]
    exact ⟨rfl, h.program, h.maxCallDepth, by rw [hrest, hnone, List.tail_nil]⟩
  | some found =>
    obtain ⟨row, rest⟩ := found
    have hsome := Rows.toList_eq_cons hnext
    have hdrawn : start.Follows (used + 1) { evaluation with rows := rest } :=
      ⟨h.program, h.maxCallDepth, by rw [hrest, hsome, List.tail_cons]⟩
    have hvalue : evaluation.next = (some ({ evaluation with rows := rest }.evaluateRow row).1,
        ({ evaluation with rows := rest }.evaluateRow row).2) := by
      unfold Evaluation.next
      rw [hnext]
    rw [hvalue, hsome]
    exact ⟨congrArg some (hdrawn.agreeAt row).value, hdrawn.evaluateRow row⟩

/-- Only `next` uses up a row. -/
theorem draw (draw : Draw) :
    start.Follows (used + [draw].count .next) (evaluation.draw draw).2 := by
  cases draw with
  | next => exact h.next.2
  | row row => exact h.evaluateRow row

end Follows

/-! ## All draws -/

/-- After any draws, as many rows have been drawn as `next` was asked for. -/
theorem Follows.drawAll {start evaluation : Evaluation} {used : Nat}
    (h : start.Follows used evaluation) (draws : List Draw) :
    start.Follows (used + draws.count .next) (evaluation.drawAll draws).2 := by
  induction draws generalizing evaluation used with
  | nil => exact h
  | cons draw rest ih =>
    have hrest := ih (h.draw draw)
    rw [Nat.add_assoc, ← List.count_append] at hrest
    exact hrest

/-- What a draw gives is what it gives after the draws before it. -/
theorem getElem?_drawAll (evaluation : Evaluation) (front back : List Draw) (draw : Draw) :
    (evaluation.drawAll (front ++ draw :: back)).1[front.length]? =
      some ((evaluation.drawAll front).2.draw draw).1 := by
  induction front generalizing evaluation with
  | nil => rfl
  | cons first rest ih => exact ih (evaluation.draw first).2

/-- After the draws `front` from an evaluation, whatever draw comes next: what is left, and what it
gives and leaves. -/
structure DrawsLazily (start : Evaluation) (front : List Draw) : Prop where
  /-- The rows that are left are those that have not been used up. -/
  left : (start.drawAll front).2.rows.size + min (front.count .next) start.rows.size =
    start.rows.size
  ended : (start.drawAll front).2.next.1 = none ↔ (start.drawAll front).2.rows.size = 0
  /-- The next row is the one at the position that has been come to. -/
  next : ∀ row, start.rows.get (front.count .next) = .ok row →
    (start.drawAll front).2.next.1 = some (start.evaluateRow row).1
  /-- It is used up, with or without a value. -/
  rest : (start.drawAll front).2.next.2.rows.toList =
    start.rows.toList.drop (front.count .next + 1)
  row : ∀ row, AgreeAt row (start.drawAll front).2 start
  rows : ∀ row, ((start.drawAll front).2.evaluateRow row).2.rows = (start.drawAll front).2.rows
  /-- So it is in the middle of other draws. -/
  amid : ∀ draw back, (start.drawAll (front ++ draw :: back)).1[front.length]? =
    some ((start.drawAll front).2.draw draw).1

/-- Draws in any order give the values of an evaluation that has just been started, each at its own
row, and the rows come one after another by their positions. -/
theorem drawAll_drawsLazily (program : BoundProgram) (maxCallDepth : Nat) (rows : Rows)
    (front : List Draw) :
    DrawsLazily { program, maxCallDepth, rows } front ∧ rows.ByPosition := by
  let start : Evaluation := { program, maxCallDepth, rows }
  have hstart : start.Follows 0 start := ⟨rfl, rfl, rfl⟩
  have hfollows := hstart.drawAll front
  rw [Nat.zero_add] at hfollows
  obtain ⟨hnext, hrest⟩ := hfollows.next
  refine ⟨⟨hfollows.size_add, ?_, fun row hrow => ?_, hrest.rows, hfollows.agreeAt, fun row => ?_,
    fun draw back => start.getElem?_drawAll front back draw⟩, rows.byPosition⟩
  · rw [hnext, Option.map_eq_none_iff, ← List.head?_drop, ← hfollows.rows, List.head?_eq_none_iff,
      ← List.length_eq_zero_iff, Rows.length_toList]
  · rw [hnext, Rows.get_eq_ok_iff.mp hrow]
    rfl
  · obtain ⟨state, hafter⟩ := (start.drawAll front).2.exists_evaluateRow_snd row
    show ((start.drawAll front).2.evaluateRow row).2.rows = _
    rw [hafter]

namespace Interrupted

/-- A function that is called under a lag; at the first row of the dataset it goes on to the opcode
that a hook has put where there is no constant. -/
def formula : Formula :=
  .withFunctions ⟨.timeLag 0, [⟨.call "F", [.leaf (.numericVariable "x" 1.0)]⟩]⟩
    [("F", ⟨.ifThenElse, [.leaf (.argument 0), ⟨.exponential, [.leaf (.constant 1.0)]⟩,
      .leaf (.constant 7.0)]⟩)]

def data : Dataset where
  identity := 0
  modifiable := false
  rows := 2
  columns := [("x", .numeric #[1.0, -1.0])]

/-- The evaluation of both rows. -/
def evaluation : Except EvalError Evaluation :=
  (formula.compile [Replacement.hook { source := .exp, opcode := some .constant }]).map
    fun program => { program := program.bind data, maxCallDepth := 3, rows := .range 0 2 }

end Interrupted

/-- The first row ends within the call, with an argument on the stack. The other row has its value
before and after it is its turn. -/
example : Interrupted.evaluation.map (fun evaluation =>
    (evaluation.drawAll [.next, .row 1, .row 0, .next, .next]).1) =
      .ok [some (.error (.payloadMismatch .constant "Exponential")), some (.ok 7.0),
        some (.error (.payloadMismatch .constant "Exponential")), some (.ok 7.0), none] := by
  decide +kernel

end Evaluation

end FormulaEngine
