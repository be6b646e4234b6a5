import FormulaEngine.Proofs.Batch.Lanes

/-!
# Groups of four

Operations on lanes take the full groups of four lanes and then the lanes that are left over. The
lanes of two operands fall into groups in the same way, so no lane is missed and none is taken twice,
whatever an operation makes of four lanes. Where it works on each of the four, the whole operation
works on every lane.

- `fullGroups`, `leftOver`: the groups, and the lanes behind them;
- `unaryLanes_eq_groups`, `binaryLanes_eq_groups`: operations on lanes, told by groups;
- `Tally`: a lane with the number of times that it was written;
- `unaryLanes_tally`, `binaryLanes_tally`: every lane is written once;
- `lanes_pointwise`: every lane is changed, or combined with its partner, once and on its own.
-/

namespace FormulaEngine

variable {α β : Type}

namespace Quad

/-- The four lanes in order. -/
def toList (x : Quad α) : List α := x.append []

/-- The four lanes, each mapped to another kind of lane. -/
def mapTo (f : α → β) (x : Quad α) : Quad β := ⟨f x.a, f x.b, f x.c, f x.d⟩

end Quad

/-! ## Groups and what is left over -/

/-- The full groups of four lanes. -/
def fullGroups : List α → List (Quad α)
  | a :: b :: c :: d :: rest => ⟨a, b, c, d⟩ :: fullGroups rest
  | _ => []

/-- The lanes behind the last full group. -/
def leftOver : List α → List α
  | _ :: _ :: _ :: _ :: rest => leftOver rest
  | rest => rest

theorem exists_four {lanes : List α} (h : 4 ≤ lanes.length) :
    ∃ a b c d rest, lanes = a :: b :: c :: d :: rest := by
  match lanes with
  | [] | [_] | [_, _] | [_, _, _] => simp at h
  | a :: b :: c :: d :: rest => exact ⟨a, b, c, d, rest, rfl⟩

theorem length_lt_four {lanes : List α}
    (h : ∀ a b c d rest, lanes = a :: b :: c :: d :: rest → False) : lanes.length < 4 := by
  by_contra hlong
  obtain ⟨a, b, c, d, rest, heq⟩ := exists_four (Nat.not_lt.mp hlong)
  exact h a b c d rest heq

theorem fullGroups_short {lanes : List α} (h : lanes.length < 4) : fullGroups lanes = [] := by
  fun_cases fullGroups lanes with
  | case1 a b c d rest =>
    simp only [List.length_cons] at h
    omega
  | case2 => rfl

theorem leftOver_short {lanes : List α} (h : lanes.length < 4) : leftOver lanes = lanes := by
  fun_cases leftOver lanes with
  | case1 a b c d rest =>
    simp only [List.length_cons] at h
    omega
  | case2 => rfl

theorem fullGroups_map (f : α → β) (lanes : List α) :
    fullGroups (lanes.map f) = (fullGroups lanes).map (Quad.mapTo f) := by
  fun_induction fullGroups lanes with
  | case1 a b c d rest ih => exact congrArg _ ih
  | case2 rest hshort =>
    refine fullGroups_short ?_
    rw [List.length_map]
    exact length_lt_four hshort

theorem leftOver_map (f : α → β) (lanes : List α) :
    leftOver (lanes.map f) = (leftOver lanes).map f := by
  fun_induction leftOver lanes with
  | case1 a b c d rest ih => exact ih
  | case2 rest hshort =>
    refine leftOver_short ?_
    rw [List.length_map]
    exact length_lt_four hshort

/-- A change of lanes takes the full groups and then the lanes that are left over. -/
theorem unaryLanes_eq_groups (quad : Quad α → Quad α) (single : α → α) (lanes : List α) :
    unaryLanes quad single lanes =
      (fullGroups lanes).flatMap (fun group => (quad group).toList) ++
        (leftOver lanes).map single := by
  fun_induction unaryLanes quad single lanes with
  | case1 a b c d rest ih =>
    rw [ih, fullGroups, leftOver, List.flatMap_cons, List.append_assoc]
    rfl
  | case2 rest hshort =>
    have hlength := length_lt_four hshort
    rw [fullGroups_short hlength, leftOver_short hlength]
    rfl

/-- A combination of as many lanes takes the full groups of both, pair by pair, and then the lanes
that are left over. -/
theorem binaryLanes_eq_groups (quad : Quad α → Quad α → Quad α) (single : α → α → α)
    {target source : List α} (h : target.length = source.length) :
    binaryLanes quad single target source =
      (List.zipWith quad (fullGroups target) (fullGroups source)).flatMap Quad.toList ++
        List.zipWith single (leftOver target) (leftOver source) := by
  fun_induction binaryLanes quad single target source with
  | case1 a b c d target e f g i source ih =>
    have hrest : target.length = source.length := by simpa using h
    rw [ih hrest]
    simp only [fullGroups, leftOver, List.zipWith_cons_cons, List.flatMap_cons, List.append_assoc]
    rfl
  | case2 target source hshort =>
    -- one of the two has fewer than four lanes left, and so has the other one
    have hlength : target.length < 4 := by
      by_contra hlong
      obtain ⟨a, b, c, d, front, rfl⟩ := exists_four (Nat.not_lt.mp hlong)
      obtain ⟨e, f, g, i, back, rfl⟩ := exists_four (h ▸ Nat.not_lt.mp hlong)
      exact hshort a b c d front e f g i back rfl rfl
    rw [fullGroups_short hlength, leftOver_short hlength, leftOver_short (h ▸ hlength),
      zipLanes_eq_zipWith single h]
    rfl

/-! ## Counting writes -/

/-- A lane with the number of times that it was written. -/
structure Tally (α : Type) where
  value : α
  writes : Nat

namespace Tally

/-- A lane that was not written yet. -/
def fresh (value : α) : Tally α := ⟨value, 0⟩

/-- A lane that was written once. -/
def once (value : α) : Tally α := ⟨value, 1⟩

/-- Writes a lane. -/
def write (lane : Tally α) (value : α) : Tally α := ⟨value, lane.writes + 1⟩

/-- Writes four lanes. -/
def writeQuad (lanes : Quad (Tally α)) (values : Quad α) : Quad (Tally α) :=
  ⟨lanes.a.write values.a, lanes.b.write values.b, lanes.c.write values.c, lanes.d.write values.d⟩

/-- An operation on a single lane, which writes it. -/
def single (f : α → α) (lane : Tally α) : Tally α := lane.write (f lane.value)

/-- A combination of two lanes, which writes the first one. -/
def pair (f : α → α → α) (target source : Tally α) : Tally α :=
  target.write (f target.value source.value)

/-- An operation on four lanes, which writes all of them. -/
def quad (f : Quad α → Quad α) (lanes : Quad (Tally α)) : Quad (Tally α) :=
  writeQuad lanes (f (lanes.mapTo value))

/-- A combination of four lanes with four others, which writes the first four. -/
def quadPair (f : Quad α → Quad α → Quad α) (target source : Quad (Tally α)) : Quad (Tally α) :=
  writeQuad target (f (target.mapTo value) (source.mapTo value))

end Tally

/-- Whatever is done to four lanes: every lane is written once, with the value of the lane after the
change. -/
theorem unaryLanes_tally (quad : Quad α → Quad α) (single : α → α) (lanes : List α) :
    unaryLanes (Tally.quad quad) (Tally.single single) (lanes.map Tally.fresh) =
      (unaryLanes quad single lanes).map Tally.once := by
  rw [unaryLanes_eq_groups, unaryLanes_eq_groups, fullGroups_map, leftOver_map, List.map_append,
    List.flatMap_map, List.map_flatMap, List.map_map, List.map_map]
  rfl

theorem binaryLanes_tally (quad : Quad α → Quad α → Quad α) (single : α → α → α)
    {target source : List α} (h : target.length = source.length) :
    binaryLanes (Tally.quadPair quad) (Tally.pair single) (target.map Tally.fresh)
        (source.map Tally.fresh) =
      (binaryLanes quad single target source).map Tally.once := by
  have hfresh : (target.map Tally.fresh).length = (source.map Tally.fresh).length := by
    simpa using h
  have hquad : ∀ x y : Quad α, Tally.quadPair quad (x.mapTo Tally.fresh) (y.mapTo Tally.fresh) =
      (quad x y).mapTo Tally.once := fun _ _ => rfl
  have hsingle : ∀ x y : α, Tally.pair single (Tally.fresh x) (Tally.fresh y) =
      Tally.once (single x y) := fun _ _ => rfl
  rw [binaryLanes_eq_groups _ _ hfresh, binaryLanes_eq_groups _ _ h]
  simp only [fullGroups_map, leftOver_map, List.zipWith_map, hquad, hsingle, ← List.map_zipWith,
    List.flatMap_map, List.map_append, List.map_flatMap]
  rfl

/-- Where an operation on four lanes works on each of them, every lane is changed, or combined with
its partner, on its own; no lane is left out and none is written twice. -/
theorem lanes_pointwise :
    (∀ (quad : Quad α → Quad α) (single : α → α), (∀ lanes, quad lanes = lanes.map single) →
      ∀ target : List α,
        (∀ i : Nat, (unaryLanes quad single target)[i]? = target[i]?.map single) ∧
        unaryLanes (Tally.quad quad) (Tally.single single) (target.map Tally.fresh) =
          (unaryLanes quad single target).map Tally.once) ∧
    (∀ (quad : Quad α → Quad α → Quad α) (single : α → α → α),
      (∀ target source, quad target source = target.zipWith single source) →
      ∀ target source : List α, target.length = source.length →
        (binaryLanes quad single target source).length = target.length ∧
        (∀ (i : Nat) (x y : α), target[i]? = some x → source[i]? = some y →
          (binaryLanes quad single target source)[i]? = some (single x y)) ∧
        binaryLanes (Tally.quadPair quad) (Tally.pair single) (target.map Tally.fresh)
            (source.map Tally.fresh) =
          (binaryLanes quad single target source).map Tally.once) := by
  constructor
  · intro quad single hquad target
    refine ⟨fun i => ?_, unaryLanes_tally quad single target⟩
    rw [unaryLanes_eq_map hquad, List.getElem?_map]
  · intro quad single hquad target source h
    have hzip := binaryLanes_eq_zipWith hquad h
    refine ⟨?_, fun i x y hx hy => ?_, binaryLanes_tally quad single h⟩
    · rw [hzip, List.length_zipWith, ← h, Nat.min_self]
    · rw [hzip, List.getElem?_zipWith, hx, hy]

theorem lanes_pointwise_seven :
    (∀ lanes : Quad Nat, Quad.zipWith (· + ·) lanes lanes = lanes.map (2 * ·)) ∧
    (∀ target source : Quad Nat,
      Quad.zipWith (fun x y => y * x) target source = target.zipWith (· * ·) source) ∧
    (unaryLanes (fun lanes => Quad.zipWith (· + ·) lanes lanes) (2 * ·) [3, 1, 4, 1, 5, 9, 2])[6]? =
      some 4 ∧
    (binaryLanes (Quad.zipWith fun x y => y * x) (· * ·) [3, 1, 4, 1, 5, 9, 2]
      [6, 5, 3, 5, 8, 9, 7])[3]? = some 5 := by
  have hdouble : ∀ lanes : Quad Nat, Quad.zipWith (· + ·) lanes lanes = lanes.map (2 * ·) := by
    intro lanes
    simp only [Quad.zipWith, Quad.map, Nat.two_mul]
  have hproduct : ∀ target source : Quad Nat,
      Quad.zipWith (fun x y => y * x) target source = target.zipWith (· * ·) source := by
    intro target source
    simp only [Quad.zipWith, Nat.mul_comm]
  obtain ⟨hunary, hbinary⟩ := lanes_pointwise (α := Nat)
  have hdoubled := hunary _ _ hdouble [3, 1, 4, 1, 5, 9, 2]
  have hmultiplied := hbinary _ _ hproduct [3, 1, 4, 1, 5, 9, 2] [6, 5, 3, 5, 8, 9, 7] rfl
  exact ⟨hdouble, hproduct, hdoubled.1 6, hmultiplied.2.1 3 1 5 rfl rfl⟩

end FormulaEngine
