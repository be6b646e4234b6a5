import FormulaEngine.Error

/-!
# Row selections

The rows to evaluate, in the order of the answers. They may repeat, stand in any order and lie
outside the dataset.

- `Rows.size`, `Rows.get`: number of positions, and the row at a position;
- `Rows.next?`: the first row and the selection of the others;
- `Rows.toList`: all rows.

`toList_eq_nil`, `toList_eq_cons` and `length_toList` tie `next?` and `size` to `toList`.
-/

namespace FormulaEngine

/-- A list of rows, or the rows from `start` up to but not including `stop`. -/
inductive Rows where
  | indices (rows : List Nat)
  | range (start stop : Nat)
deriving DecidableEq

namespace Rows

/-- The number of positions. A range that starts at or after its end has none. -/
def size : Rows → Nat
  | indices rows => rows.length
  | range start stop => stop - start

/-- Whether there is no position. -/
def isEmpty (rows : Rows) : Bool := rows.size = 0

/-- The row at a position. -/
def get (position : Nat) : Rows → Except Fault Nat
  | indices rows =>
    match rows[position]? with
    | some row => .ok row
    | none => .error .outOfBounds
  | range start stop =>
    if position < stop - start then .ok (start + position) else .error .rowPosition

/-- The first row, and the selection without it. -/
def next? : Rows → Option (Nat × Rows)
  | indices [] => none
  | indices (row :: rest) => some (row, indices rest)
  | range start stop => if start < stop then some (start, range (start + 1) stop) else none

/-- The first rows, at most `count` of them. -/
def first : (count : Nat) → Rows → List Nat
  | 0, _ => []
  | count + 1, rows =>
    match rows.next? with
    | some (row, rest) => row :: first count rest
    | none => []

/-- All rows in order. -/
def toList : Rows → List Nat
  | indices rows => rows
  | range start stop => List.range' start (stop - start)

@[simp] theorem length_toList (rows : Rows) : rows.toList.length = rows.size := by
  cases rows <;> simp [toList, size]

theorem toList_eq_nil {rows : Rows} (h : rows.next? = none) : rows.toList = [] := by
  match rows, h with
  | indices [], _ => rfl
  | range start stop, h =>
    have : ¬ start < stop := by simpa [next?] using h
    simp [toList]
    omega

theorem toList_eq_cons {rows rest : Rows} {row : Nat} (h : rows.next? = some (row, rest)) :
    rows.toList = row :: rest.toList := by
  match rows, h with
  | indices (_ :: _), h =>
    simp only [next?, Option.some.injEq, Prod.mk.injEq] at h
    obtain ⟨rfl, rfl⟩ := h
    rfl
  | range start stop, h =>
    by_cases hlt : start < stop
    · simp only [next?, hlt, if_true, Option.some.injEq, Prod.mk.injEq] at h
      obtain ⟨rfl, rfl⟩ := h
      obtain ⟨n, hn⟩ : ∃ n, stop - start = n + 1 := ⟨stop - start - 1, by omega⟩
      have hrest : stop - (start + 1) = n := by omega
      simp [toList, hn, hrest, List.range'_succ]
    · simp [next?, hlt] at h

end Rows

end FormulaEngine
