import FormulaEngine.Proofs.Batch.Agreement

/-!
# Reuse of buffers

A chunk is evaluated on code that other chunks have been evaluated on before. Their values are still
in the buffers, and a chunk with fewer rows than lanes leaves some of them there. Whatever they are,
the chunk ends, with the values of the nodes at its own rows in front. Columns may be of different
lengths.

- `ColumnCache.scope`: what the nodes of a batch can see;
- `BatchInstruction.Reuses`, `Reuses`: the same code with other lanes, but for those of constants;
- `BatchInstruction.Refreshed`, `Refreshed`: what a chunk makes of code;
- `evaluateChunk_refreshed`: this is what it makes of laid-out code with any lanes.
-/

namespace FormulaEngine

/-! ## Columns of a cache -/

namespace ColumnCache

variable (cache : ColumnCache) (name : String)

/-- The columns of a cache as a dataset, which ends with the longest of them. -/
def data : Dataset where
  identity := 0
  modifiable := false
  rows := (cache.columns.map fun column => column.2.size).max?.getD 0
  columns := cache.columns.map fun column => (column.1, .numeric column.2)

/-- The nodes of a batch see the columns of the cache, and neither arguments nor functions. -/
def scope : Scope where
  data := cache.data
  arguments := []
  call _ _ _ := nan
  callCost _ _ _ := 0

theorem numeric?_data : cache.data.numeric? name = cache.get? name := by
  have hlookup : ∀ columns : List (String × Array Float),
      (columns.map fun column => (column.1, Column.numeric column.2)).lookup name =
        (columns.lookup name).map Column.numeric := by
    intro columns
    induction columns with
    | nil => rfl
    | cons column rest ih =>
      rw [List.map_cons, List.lookup_cons, List.lookup_cons, ih]
      cases name == column.1 <;> rfl
  show ((cache.columns.map _).lookup name).bind Column.numeric? = cache.columns.lookup name
  rw [hlookup]
  cases cache.columns.lookup name <;> rfl

theorem size_le_rows_data {column : Array Float} (h : cache.get? name = some column) :
    column.size ≤ cache.data.rows := by
  obtain ⟨front, back, hcolumns, -⟩ := List.lookup_eq_some_iff.mp h
  refine List.le_max?_getD_of_mem (List.mem_map.mpr ⟨(name, column), ?_, rfl⟩)
  rw [hcolumns]
  simp

/-- At a row a variable has the number in its column, and none if there is no such variable or if its
column ends before. -/
theorem numberAt?_scope (row : Nat) :
    cache.scope.data.numberAt? name row =
      (cache.get? name).bind fun column => column[row]? := by
  show cache.data.numberAt? name row = _
  unfold Dataset.numberAt?
  rw [numeric?_data]
  by_cases hrow : row < cache.data.rows
  · simp [hrow]
  · cases hcolumn : cache.get? name with
    | none => simp
    | some column =>
      have hsize := cache.size_le_rows_data name hcolumn
      have hnone : column[row]? = none := Array.getElem?_eq_none_iff.mpr (by omega)
      simp [hrow, hnone]

/-- A variable without a number has no value. -/
theorem value_eq_nan (weight : Float) {row : Nat}
    (h : ((cache.get? name).bind fun column => column[row]?) = none) :
    (Node.leaf (.numericVariable name weight)).value cache.scope row = nan := by
  rw [← cache.numberAt?_scope] at h
  rw [Node.leaf, Node.value_eq, Symbol.value_numericVariable, h]

end ColumnCache

/-- A window shows the rows at its positions. -/
theorem Rows.get_of_window {rows : Rows} {offset count lane row : Nat} {window : List Nat}
    (h : rows.window offset count = .ok window) (hrow : window[lane]? = some row) :
    rows.get (offset + lane) = .ok row := by
  cases rows with
  | indices rows =>
    by_cases hlength : ((rows.drop offset).take count).length = count
    · cases (if_pos hlength).symm.trans h
      obtain ⟨hlane, -⟩ := List.getElem?_eq_some_iff.mp hrow
      rw [List.getElem?_take_of_lt (hlength ▸ hlane), List.getElem?_drop] at hrow
      simp only [get, hrow]
    · cases (if_neg hlength).symm.trans h
  | range start stop =>
    by_cases hinside : count = 0 ∨ offset + count ≤ stop - start
    · cases (if_pos hinside).symm.trans h
      obtain ⟨hlane, hvalue⟩ := List.getElem?_eq_some_iff.mp hrow
      rw [List.length_range'] at hlane
      have hposition : offset + lane < stop - start := by omega
      rw [List.getElem_range'] at hvalue
      simp only [get, if_pos hposition]
      refine congrArg Except.ok ?_
      omega
    · cases (if_neg hinside).symm.trans h

/-! ## One instruction -/

/-- Only constants are run as constants. -/
theorem Symbol.eq_constant {symbol : Symbol} (h : symbol.opcode? = some .constant) :
    ∃ value, symbol = .constant value := by
  cases symbol with
  | constant value => exact ⟨value, rfl⟩
  | _ => cases h

namespace BatchInstruction

/-- The same instruction with other lanes, as many as before. The lanes of a constant are the same,
too. -/
structure Reuses (fresh used : BatchInstruction) : Prop where
  eq : used = { fresh with buffer := used.buffer }
  length : used.buffer.length = fresh.buffer.length
  constant : fresh.opcode = .constant → used.buffer = fresh.buffer

/-- The instruction of a node after a chunk: each of the front lanes has the value of the node at the
row of the lane, and the lanes behind are as they were. -/
structure Refreshed (scope : Scope) (rows : Rows) (offset count : Nat) (node : Node)
    (before after : BatchInstruction) : Prop extends Reuses before after where
  front : ∀ lane < count, ∃ row, rows.get (offset + lane) = .ok row ∧
    after.buffer[lane]? = some (node.value scope row)
  behind : ∀ lane, count ≤ lane → after.buffer[lane]? = before.buffer[lane]?

variable {cache : ColumnCache} {lanes next offset count : Nat} {node : Node}
  {used i : BatchInstruction} {rows : Rows} {window : List Nat} {scope : Scope}

/-- With lanes that were used before, an instruction still fits. -/
theorem Reuses.fits (h : (node.batchInstruction cache lanes next).Reuses used) :
    used.Fits cache lanes next node := by
  refine ⟨h.eq, h.length.trans List.length_replicate, fun value hvalue => ?_⟩
  have hconstant : (node.batchInstruction cache lanes next).opcode = .constant := by
    show node.symbol.opcode?.getD .constant = _
    rw [hvalue]
    rfl
  rw [h.constant hconstant]
  show List.replicate lanes node.symbol.batchFill = _
  rw [hvalue]
  rfl

/-- New front lanes with the values of the node refresh an instruction. -/
theorem Fits.refreshed (hi : i.Fits cache lanes next node) (hnode : node.BatchSupported)
    (hrows : rows.Windowed lanes offset count window) :
    i.Refreshed scope rows offset count node
      (i.update (window.map fun (row : Nat) => node.value scope row)) := by
  have hafter : (i.update (window.map fun (row : Nat) => node.value scope row)).Fits cache lanes
      next node := hi.update (hrows.length.symm ▸ hrows.le)
  have hlength : (window.map fun (row : Nat) => node.value scope row).length = count := by
    rw [List.length_map, hrows.length]
  have hbuffer : (i.update (window.map fun (row : Nat) => node.value scope row)).buffer =
      window.map (fun (row : Nat) => node.value scope row) ++ i.buffer.drop count := by
    rw [BatchInstruction.update, hlength]
  refine ⟨⟨rfl, hafter.length.trans hi.length.symm, ?_⟩, ?_, ?_⟩
  · intro hconstant
    obtain ⟨op, -, hop, -, -⟩ := hnode.kernel
    have hopcode : i.opcode = op := by
      rw [hi.eq]
      simp [Node.batchInstruction, hop]
    rw [← hopcode, hconstant] at hop
    obtain ⟨value, hvalue⟩ := Symbol.eq_constant hop
    rw [hafter.filled value hvalue, hi.filled value hvalue]
  · intro lane hlane
    have hin : lane < window.length := hrows.length.symm ▸ hlane
    have hrow : window[lane]? = some window[lane] := List.getElem?_eq_getElem hin
    refine ⟨_, Rows.get_of_window hrows.eq hrow, ?_⟩
    rw [hbuffer, List.getElem?_append_left (hlength.symm ▸ hlane), List.getElem?_map, hrow]
    rfl
  · intro lane hlane
    rw [hbuffer, List.getElem?_append_right (hlength.symm ▸ hlane), hlength, List.getElem?_drop,
      Nat.add_sub_cancel' hlane]

end BatchInstruction

/-! ## All instructions -/

/-- The same code with other lanes, but for those of constants. -/
structure Reuses (fresh used : Array BatchInstruction) : Prop where
  size : used.size = fresh.size
  instruction : ∀ (k : Nat) (i : BatchInstruction), fresh[k]? = some i →
    ∃ j, used[k]? = some j ∧ i.Reuses j

/-- The code of a body after a chunk: every instruction is refreshed, and there are no others. -/
structure Refreshed (cache : ColumnCache) (body : Node) (rows : Rows) (offset count : Nat)
    (before after : Array BatchInstruction) : Prop where
  size : after.size = before.size
  instruction : ∀ (k : Nat) (i : BatchInstruction), before[k]? = some i →
    ∃ node j, body.breadthOrder[k]? = some node ∧ after[k]? = some j ∧
      i.Refreshed cache.scope rows offset count node j

section Code

variable {cache : ColumnCache} {lanes offset count : Nat} {body : Node}
  {fresh used : Array BatchInstruction} {rows : Rows}

/-- Code that was used before is that of the body, with any lanes. -/
theorem Reuses.computed {nodes : List Node}
    (h : Reuses (Node.laidOut cache lanes 1 nodes).toArray used) (scope : Scope)
    (window : List Nat) :
    Computed cache lanes count nodes scope window nodes.length used := by
  constructor
  · rw [h.size, List.size_toArray, Node.length_laidOut]
  · intro k node hk
    have hlt : k < nodes.length := (List.getElem?_eq_some_iff.mp hk).1
    have hfresh : (Node.laidOut cache lanes 1 nodes).toArray[k]? =
        some (node.batchInstruction cache lanes
          (1 + (Node.childrenAll (nodes.take k)).length)) := by
      rw [List.getElem?_toArray, Node.getElem?_laidOut, hk]
      rfl
    obtain ⟨i, hi, hreuses⟩ := h.instruction k _ hfresh
    exact ⟨i, hi, hreuses.fits, fun hle => absurd hle (Nat.not_le.mpr hlt)⟩

end Code

/-! ## A chunk of two after a chunk of three -/

namespace Leftovers

/-- One minus twice `x`. -/
def body : Node :=
  ⟨.subtraction, [.leaf (.constant 1.0), .leaf (.numericVariable "x" 2.0)]⟩

def cache : ColumnCache := { columns := [("x", #[3.0, 5.0])] }

/-- The second row is outside the column. -/
def rows : Rows := .indices [0, 9, 1]

def fresh : Array BatchInstruction := (Node.laidOut cache 3 1 body.breadthOrder).toArray

/-- The code with the values of an earlier chunk. -/
def used : Array BatchInstruction :=
  fresh.map fun i => if i.opcode = .constant then i else { i with buffer := [7.0, 8.0, 9.0] }

theorem layout_body : body.layout cache 3 = .ok fresh := rfl

theorem reuses_used : Reuses fresh used := by
  constructor
  · exact Array.size_map ..
  · intro k i hi
    have hlengths : ∀ i ∈ fresh, i.buffer.length = 3 := by decide
    refine ⟨_, (Array.getElem?_map ..).trans (congrArg _ hi), ?_⟩
    by_cases hconstant : i.opcode = .constant
    · simp only [if_pos hconstant]
      exact ⟨rfl, rfl, fun _ => rfl⟩
    · simp only [if_neg hconstant]
      exact ⟨rfl, (hlengths i (Array.mem_of_getElem? hi)).symm, fun h => absurd h hconstant⟩

end Leftovers

section Code

variable {cache : ColumnCache} {lanes offset count : Nat} {body : Node}
  {fresh used : Array BatchInstruction} {rows : Rows}

/-- Whatever lanes the code of a body comes with, a chunk ends and puts the values of the nodes in
front, NaN where a column has no number. No position, lane or row is out of bounds. -/
theorem evaluateChunk_refreshed (hlayout : body.layout cache lanes = .ok fresh)
    (hused : Reuses fresh used) (hcount : count ≤ lanes) (hend : offset + count ≤ rows.size) :
    (∃ after, evaluateChunk rows offset count used = .ok after ∧
      Refreshed cache body rows offset count used after) ∧
    ∀ name weight (row : Nat), ((cache.get? name).bind fun column => column[row]?) = none →
      (Node.leaf (.numericVariable name weight)).value cache.scope row = nan := by
  obtain ⟨hsupported, -, -, rfl⟩ := Node.layout_eq_ok.mp hlayout
  have hbody : Batched cache cache.scope body body.breadthOrder :=
    ⟨cache.numberAt?_scope, body.breadthOrder_levelOrder, hsupported⟩
  have hrows : rows.Windowed lanes offset count (rows.chunk (offset, count)) :=
    @Rows.windowed_chunk rows lanes (offset, count) hend hcount
  have hcode : Computed cache lanes count body.breadthOrder cache.scope
      (rows.chunk (offset, count)) body.breadthOrder.length used := hused.computed _ _
  obtain ⟨after, hafter, hcomputed, hoverwritten⟩ := evaluateChunk_eq hbody hrows hcode
  refine ⟨⟨after, hafter, hcomputed.size.trans hcode.size.symm, fun k i hi => ?_⟩,
    fun name weight row hnone => cache.value_eq_nan name weight hnone⟩
  have hlt : k < body.breadthOrder.length :=
    hcode.size ▸ (Array.getElem?_eq_some_iff.mp hi).1
  have hnode : body.breadthOrder[k]? = some body.breadthOrder[k] := List.getElem?_eq_getElem hlt
  obtain ⟨found, hfound, hfits, -⟩ := hcode.instruction k _ hnode
  cases hi.symm.trans hfound
  have hupdated := hoverwritten k _ i hnode hi
  rw [if_pos hlt] at hupdated
  exact ⟨_, _, hnode, hupdated, hfits.refreshed (hsupported _ (List.getElem_mem hlt)) hrows⟩

end Code

/-- The lanes of the row outside the column are NaN, and the last lanes are left over. -/
theorem evaluateChunk_refreshed_leftovers :
    Leftovers.body.layout Leftovers.cache 3 = .ok Leftovers.fresh ∧
      Reuses Leftovers.fresh Leftovers.used ∧
      2 ≤ 3 ∧ 1 + 2 ≤ Leftovers.rows.size ∧
      ∃ after, evaluateChunk Leftovers.rows 1 2 Leftovers.used = .ok after ∧
        Refreshed Leftovers.cache Leftovers.body Leftovers.rows 1 2 Leftovers.used after ∧
        after.toList.map (·.buffer) =
          [[nan, -9.0, 9.0], [1.0, 1.0, 1.0], [nan, 10.0, 9.0]] := by
  have hend : 1 + 2 ≤ Leftovers.rows.size := by decide
  obtain ⟨⟨after, hafter, hrefreshed⟩, -⟩ := evaluateChunk_refreshed Leftovers.layout_body
    Leftovers.reuses_used (show 2 ≤ 3 by decide) hend
  have hbuffers : (evaluateChunk Leftovers.rows 1 2 Leftovers.used).map
      (fun after => after.toList.map (·.buffer)) =
        .ok [[nan, -9.0, 9.0], [1.0, 1.0, 1.0], [nan, 10.0, 9.0]] := by
    decide +kernel
  rw [hafter] at hbuffers
  exact ⟨Leftovers.layout_body, Leftovers.reuses_used, by decide, hend, after, hafter, hrefreshed,
    Except.ok.inj hbuffers⟩

end FormulaEngine
