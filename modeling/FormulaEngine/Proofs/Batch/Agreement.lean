import FormulaEngine.Proofs.Batch.Cache
import FormulaEngine.Proofs.Batch.Chunk
import FormulaEngine.Proofs.Correctness

/-!
# Agreement of the interpreters

The scalar interpreter runs a program row by row, the batch interpreter a layout chunk by chunk. Both
give the values that the formula means, so they agree wherever both give values. The scalar
interpreter must be without hooks, which the batch interpreter does not know, and the rows of the
dataset must be few enough to be counted, which the batch interpreter does not ask for.

- `flatMap_chunks`: chunks cover the positions in order, each one once;
- `evaluateChunks_eq`: chunk by chunk, a layout gives the values of the main body;
- `BatchInterpreter.evaluate_cases`: a batch refuses the formula, lacks storage, or gives the values
  that the formula means;
- `BatchInterpreter.evaluate_agrees`: both interpreters give the same values, and nothing but a lack
  of storage stops a batch.
-/

namespace FormulaEngine

open Meaning

/-! ## Chunks of positions -/

/-- Chunks lie within the positions and are no larger than asked for. -/
theorem mem_chunks {total size : Nat} {chunk : Nat × Nat} (h : chunk ∈ chunks total size)
    (hsize : 1 ≤ size) : chunk.1 + chunk.2 ≤ total ∧ chunk.2 ≤ min size total := by
  have hfull : total / size * size ≤ total := Nat.div_mul_le_self total size
  -- what is left after the full chunks is less than one chunk
  have hrest : total - total / size * size < size := by
    have hmod := Nat.mod_lt total hsize
    have hdiv := Nat.div_add_mod' total size
    omega
  unfold chunks at h
  rcases List.mem_append.mp h with h | h
  · obtain ⟨k, hk, rfl⟩ := List.mem_map.mp h
    have hend : (k + 1) * size ≤ total / size * size :=
      Nat.mul_le_mul_right size (List.mem_range.mp hk)
    rw [Nat.add_one_mul] at hend
    show k * size + size ≤ total ∧ size ≤ min size total
    omega
  · by_cases hmore : 0 < total - total / size * size
    · rw [if_pos hmore, List.mem_singleton] at h
      subst h
      show total / size * size + (total - total / size * size) ≤ total ∧
        total - total / size * size ≤ min size total
      omega
    · simp [hmore] at h

/-- The elements of a list chunk by chunk are the elements of the list. -/
theorem flatMap_chunks {α : Type} (values : List α) (size : Nat) :
    (chunks values.length size).flatMap (fun chunk => (values.drop chunk.1).take chunk.2) =
      values := by
  have hfull : ∀ full, (List.range full).flatMap (fun k => (values.drop (k * size)).take size) =
      values.take (full * size) := by
    intro full
    induction full with
    | zero => simp
    | succ full ih =>
      rw [List.range_succ, List.flatMap_append, ih, Nat.add_one_mul, List.take_add,
        List.flatMap_singleton]
  have hle : values.length / size * size ≤ values.length := Nat.div_mul_le_self _ _
  unfold chunks
  rw [List.flatMap_append, List.flatMap_map, hfull]
  by_cases hmore : 0 < values.length - values.length / size * size
  · rw [if_pos hmore, List.flatMap_singleton, ← List.take_add, Nat.add_sub_cancel' hle,
      List.take_length]
  · rw [if_neg hmore, List.flatMap_nil, List.append_nil, List.take_of_length_le (by omega)]

/-- The rows at the positions of a chunk. -/
def Rows.chunk (rows : Rows) (chunk : Nat × Nat) : List Nat :=
  (rows.toList.drop chunk.1).take chunk.2

theorem Rows.flatMap_chunk (rows : Rows) (size : Nat) :
    (chunks rows.size size).flatMap rows.chunk = rows.toList := by
  rw [← Rows.length_toList]
  exact flatMap_chunks rows.toList size

/-- A window inside the selection shows the rows of the chunk. -/
theorem Rows.windowed_chunk {rows : Rows} {lanes : Nat} {chunk : Nat × Nat}
    (hend : chunk.1 + chunk.2 ≤ rows.size) (hle : chunk.2 ≤ lanes) :
    rows.Windowed lanes chunk.1 chunk.2 (rows.chunk chunk) := by
  have hlength : (rows.chunk chunk).length = chunk.2 := by
    rw [Rows.chunk, List.length_take, List.length_drop, Rows.length_toList]
    omega
  refine ⟨?_, hlength, hle⟩
  cases rows with
  | indices rows => exact if_pos hlength
  | range start stop =>
    have hinside : chunk.1 + chunk.2 ≤ stop - start := hend
    refine (if_pos (Or.inr hinside)).trans (congrArg Except.ok ?_)
    show _ = ((List.range' start (stop - start)).drop chunk.1).take chunk.2
    rw [List.drop_range', Nat.mul_one, List.take_range'_of_length_ge (by omega)]

/-! ## All chunks -/

section Chunks

variable {cache : ColumnCache} {lanes count : Nat} {root : Node} {nodes : List Node}
  {scope : Scope} {window : List Nat} {rows : Rows}
  {code : Array BatchInstruction}

/-- Each chunk puts the values of the root at its rows in front of those found before. What the chunk
before has left in the code is of no account. -/
theorem foldlM_evaluateNextChunk (hbody : Batched cache scope root nodes)
    {pending : List (Nat × Nat)}
    (hpending : ∀ chunk ∈ pending, chunk.1 + chunk.2 ≤ rows.size ∧ chunk.2 ≤ lanes)
    (hcode : Computed cache lanes count nodes scope window nodes.length code)
    (found : List (List Float)) :
    ∃ after, pending.foldlM (evaluateNextChunk rows) (code, found) =
      .ok (after, (pending.map fun chunk =>
        (rows.chunk chunk).map fun (row : Nat) => root.value scope row).reverse ++ found) := by
  induction pending generalizing count window code found with
  | nil => exact ⟨code, rfl⟩
  | cons chunk rest ih =>
    obtain ⟨⟨hend, hle⟩, hrest⟩ := List.forall_mem_cons.mp hpending
    -- of the code as it comes only the lanes of constants count
    obtain ⟨next, hnext, hcomputed, -⟩ := evaluateChunk_eq hbody (Rows.windowed_chunk hend hle)
      (hcode.weaken chunk.2 (rows.chunk chunk))
    obtain ⟨i, hi, -, hfront⟩ := hcomputed.instruction 0 root hbody.order.getElem?_zero
    have hstep : evaluateNextChunk rows (code, found) chunk =
        .ok (next, (rows.chunk chunk).map (fun (row : Nat) => root.value scope row) :: found) := by
      refine bind_eq_ok.mpr ⟨next, hnext, ?_⟩
      rw [hi]
      exact bind_eq_ok.mpr ⟨_, hfront (Nat.le_refl 0), rfl⟩
    obtain ⟨after, hafter⟩ := ih hrest (hcomputed.weaken chunk.2 (rows.chunk chunk)) (_ :: found)
    refine ⟨after, bind_eq_ok.mpr ⟨_, hstep, hafter.trans ?_⟩⟩
    rw [List.map_cons, List.reverse_cons, List.append_assoc, List.singleton_append]

/-- Chunk by chunk, new code gives the values of the root at all rows, unless there are too many. -/
theorem evaluateChunks_eq (hbody : Batched cache scope root nodes) {batchSize : Nat}
    (hbatch : 1 ≤ batchSize) (hlanes : lanes = min batchSize rows.size) :
    evaluateChunks rows batchSize (Node.laidOut cache lanes 1 nodes).toArray =
      if rows.size ≤ storageLimit then
        .ok (rows.toList.map fun (row : Nat) => root.value scope row)
      else .error .outOfStorage := by
  unfold evaluateChunks
  by_cases hstorage : rows.size ≤ storageLimit
  · obtain ⟨after, hafter⟩ := foldlM_evaluateNextChunk hbody
      (fun chunk hchunk => hlanes ▸ mem_chunks hchunk hbatch)
      (computed_laidOut cache lanes 0 nodes scope []) []
    rw [if_pos hstorage, if_neg (Nat.not_lt.mpr hstorage)]
    refine bind_eq_ok.mpr ⟨_, hafter, congrArg Except.ok ?_⟩
    rw [List.append_nil, List.reverse_reverse, ← List.flatMap_def, ← List.map_flatMap,
      Rows.flatMap_chunk]
  · rw [if_neg hstorage, if_pos (Nat.not_le.mp hstorage)]
    rfl

end Chunks

/-- Masking leaves the values at the rows of the dataset. -/
theorem maskOutside_map (dataRows : Nat) (rows : Rows) (value : Nat → Float) :
    maskOutside dataRows rows (rows.toList.map value) =
      rows.toList.map fun row => if row < dataRows then value row else nan := by
  unfold maskOutside
  rw [List.zipWith_map_left, List.zipWith_self]

/-! ## A history

A dataset is evaluated, then a modifiable copy of it, then the dataset again. -/

namespace WhatIf

def copy : Dataset := Recall.data.toModifiable 1

/-- The columns of the copy are in the cache, without an identity. -/
def cache : ColumnCache := ((({} : ColumnCache).refresh Recall.data).2.refresh copy).2

/-- Twice the square of `x`, and one. -/
def formula : Formula :=
  .ofBody ⟨.addition, [⟨.multiplication, [.leaf (.numericVariable "x" 2.0),
    .leaf (.numericVariable "x" 1.0)]⟩, .leaf (.constant 1.0)]⟩

/-- Five rows, two of them the same and one outside the dataset. -/
def rows : Rows := .indices [2, 0, 7, 2, 1]

/-- Subtracts where there was an addition. -/
def hook : Hook := Replacement.hook { source := .add, opcode := some .sub }

theorem identified : Identified fun data => data = Recall.data ∨ data = copy := by
  rintro first second (rfl | rfl) (rfl | rfl) hfirst hsecond hidentity name
  · rfl
  · cases hsecond
  · cases hfirst
  · rfl

theorem reached_cache : cache.Reached fun data => data = Recall.data ∨ data = copy :=
  .refresh (.refresh .empty (Or.inl rfl)) (Or.inr rfl)

end WhatIf

/-! ## Interpreters -/

namespace BatchInterpreter

variable {known : Dataset → Prop} {batch : BatchInterpreter} {formula : Formula} {body : Node}
  {data : Dataset} {rows : Rows} {code : Array BatchInstruction}

/-- A chunk that no buffer can hold is not cut down to the rows that there are, so lanes that storage
can hold are those of a chunk that it can hold. -/
theorem lanes_eq_min (h : batch.lanes rows ≤ storageLimit) :
    batch.lanes rows = min batch.batchSize rows.size := by
  unfold lanes at h ⊢
  by_cases hfits : batch.batchSize ≤ storageLimit
  · rw [if_pos hfits]
  · rw [if_neg hfits] at h
    exact absurd h hfits

/-- A formula that is laid out has the values that it means, unless there are too many. -/
theorem evaluate_eq (hdata : data.Rectangular) (hsize : 1 ≤ batch.batchSize)
    (hcached : ∀ name, (batch.cache.refresh data).2.get? name = data.numeric? name)
    (hbody : formula.body? = some body)
    (hlayout : body.layout (batch.cache.refresh data).2 (batch.lanes rows) = .ok code)
    (maxCallDepth : Nat) :
    (batch.evaluate formula data rows).1 =
      if rows.size ≤ storageLimit then
        .ok (rows.toList.map fun row => formula.value data maxCallDepth row)
      else .error (.fault .outOfStorage) := by
  obtain ⟨hsupported, -, hstorage, hcode⟩ := Node.layout_eq_ok.mp hlayout
  have hbatched : Batched (batch.cache.refresh data).2 (formula.scope data maxCallDepth []) body
      body.breadthOrder := by
    refine ⟨fun name row => ?_, body.breadthOrder_levelOrder, hsupported⟩
    rw [hcached]
    exact Dataset.numberAt?_natCast hdata name row
  have hlanes := lanes_eq_min hstorage
  have hevaluated : (batch.evaluate formula data rows).1 =
      ((evaluateChunks rows batch.batchSize code).map (maskOutside data.rows rows)).mapError
        .fault := by
    unfold evaluate
    simp only [hbody, hlayout]
  rw [hevaluated, hcode, evaluateChunks_eq hbatched hsize hlanes]
  by_cases hmany : rows.size ≤ storageLimit
  · rw [if_pos hmany, if_pos hmany]
    refine congrArg Except.ok ?_
    rw [maskOutside_map]
    refine List.map_congr_left fun row _ => ?_
    rw [Formula.value, hbody]
  · rw [if_neg hmany, if_neg hmany]
    rfl

/-- A batch refuses the formula, lacks storage, or gives the values that the formula means. -/
theorem evaluate_cases (hdata : data.Rectangular) (hsize : 1 ≤ batch.batchSize)
    (hcached : ∀ name, (batch.cache.refresh data).2.get? name = data.numeric? name)
    (formula : Formula) (rows : Rows) (maxCallDepth : Nat) :
    (∃ cause, (batch.evaluate formula data rows).1 = .error (.error cause)) ∨
      (batch.evaluate formula data rows).1 = .error (.fault .outOfStorage) ∨
      (rows.size ≤ storageLimit ∧ (batch.evaluate formula data rows).1 =
        .ok (rows.toList.map fun row => formula.value data maxCallDepth row)) := by
  cases hbody : formula.body? with
  | none =>
    refine Or.inl ⟨.malformedTree .noBody, ?_⟩
    unfold evaluate
    rw [hbody]
  | some body =>
    cases hlayout : body.layout (batch.cache.refresh data).2 (batch.lanes rows) with
    | error failure =>
      have hrefused : (batch.evaluate formula data rows).1 = .error failure := by
        unfold evaluate
        simp only [hbody, hlayout]
      cases failure with
      | error cause => exact Or.inl ⟨cause, hrefused⟩
      | fault cause =>
        rw [(body.layout_fault _ _ cause hlayout).1] at hrefused
        exact Or.inr (Or.inl hrefused)
    | ok code =>
      rw [evaluate_eq hdata hsize hcached hbody hlayout maxCallDepth]
      by_cases hmany : rows.size ≤ storageLimit
      · rw [if_pos hmany]
        exact Or.inr (Or.inr ⟨hmany, rfl⟩)
      · rw [if_neg hmany]
        exact Or.inr (Or.inl rfl)

/-- Whatever was evaluated before, a batch has one value for each row, and these are the values of a
scalar interpreter without hooks, if the rows of the dataset can be counted. No position, lane or row
is ever out of bounds. -/
theorem evaluate_agrees (hknown : Identified known) (hcache : batch.cache.Reached known)
    (hsize : 1 ≤ batch.batchSize) (hdata : data.Rectangular) (hmember : known data)
    (maxCallDepth evaluated : Nat) (formula : Formula) (rows : Rows) :
    (∀ expected values,
      (ScalarInterpreter.evaluate ⟨[], maxCallDepth, evaluated⟩ formula data rows).1 =
        .ok expected →
      (batch.evaluate formula data rows).1 = .ok values →
        values.length = rows.size ∧ (data.rows ≤ cursorLimit → values = expected)) ∧
    (∀ cause, (batch.evaluate formula data rows).1 = .error (.fault cause) →
      cause = .outOfStorage) := by
  have hcached := ColumnCache.get?_refresh hknown hcache hmember
  rcases evaluate_cases hdata hsize hcached formula rows maxCallDepth with
    ⟨refusal, hrefused⟩ | hfull | ⟨hmany, hvalues⟩
  · rw [hrefused]
    constructor
    · rintro expected values - hvalues
      cases hvalues
    · intro cause hcause
      cases hcause
  · rw [hfull]
    constructor
    · rintro expected values - hvalues
      cases hvalues
    · intro cause hcause
      cases hcause
      rfl
  · rw [hvalues]
    constructor
    · rintro expected values hexpected hsame
      cases hsame
      constructor
      · rw [List.length_map, Rows.length_toList]
      · exact fun hcounted =>
          (ScalarInterpreter.evaluate_eq_ok hdata hcounted hmany hexpected).symm
    · intro cause hcause
      cases hcause

/-- In chunks of two the dataset gives what the scalar interpreter gives, although the cache holds
columns of the copy. -/
theorem evaluate_agrees_whatIf :
    Identified (fun data => data = Recall.data ∨ data = WhatIf.copy) ∧
      WhatIf.cache.Reached (fun data => data = Recall.data ∨ data = WhatIf.copy) ∧
      Recall.data.Rectangular ∧ Recall.data.rows ≤ cursorLimit ∧
      ∃ expected values,
        (ScalarInterpreter.evaluate ⟨[], 3, 0⟩ WhatIf.formula Recall.data WhatIf.rows).1 =
          .ok expected ∧
        (evaluate ⟨WhatIf.cache, 2, 0⟩ WhatIf.formula Recall.data WhatIf.rows).1 = .ok values ∧
        values.length = 5 ∧ values = expected := by
  obtain ⟨hagrees, -⟩ := @evaluate_agrees _ ⟨WhatIf.cache, 2, 0⟩ Recall.data WhatIf.identified
    WhatIf.reached_cache (by decide) Recall.rectangular_data (Or.inl rfl) 3 0 WhatIf.formula
    WhatIf.rows
  have hexpected :
      (ScalarInterpreter.evaluate ⟨[], 3, 0⟩ WhatIf.formula Recall.data WhatIf.rows).1 =
        .ok [33.0, 3.0, nan, 33.0, 9.0] := by
    decide +kernel
  have hvalues :
      (evaluate ⟨WhatIf.cache, 2, 0⟩ WhatIf.formula Recall.data WhatIf.rows).1 =
        .ok [33.0, 3.0, nan, 33.0, 9.0] := by
    decide +kernel
  have hcounted : Recall.data.rows ≤ cursorLimit := by decide
  obtain ⟨hlength, hsame⟩ := hagrees _ _ hexpected hvalues
  exact ⟨WhatIf.identified, WhatIf.reached_cache, Recall.rectangular_data, hcounted, _, _, hexpected,
    hvalues, hlength, hsame hcounted⟩

/-- Both interpreters give values, but not the same ones: where the rows cannot be counted the scalar
interpreter has none, and where its compiler has a hook it runs another program. -/
theorem evaluate_disagrees :
    Endless.data.Rectangular ∧
      (ScalarInterpreter.evaluate {} (.ofBody Endless.body) Endless.data (.indices [0])).1 =
        .ok [nan] ∧
      (evaluate {} (.ofBody Endless.body) Endless.data (.indices [0])).1 = .ok [5.0] ∧
      Recall.data.Rectangular ∧
      (ScalarInterpreter.evaluate { hooks := [WhatIf.hook] } WhatIf.formula Recall.data
        (.indices [0])).1 = .ok [1.0] ∧
      (evaluate {} WhatIf.formula Recall.data (.indices [0])).1 = .ok [3.0] := by
  refine ⟨Endless.rectangular_data, ?_, ?_, Recall.rectangular_data, ?_, ?_⟩ <;> decide +kernel

end BatchInterpreter

end FormulaEngine
