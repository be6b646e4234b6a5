import FormulaEngine.Batch.Chunk
import FormulaEngine.Proofs.Batch.Lanes
import FormulaEngine.Proofs.Batch.Layout
import Mathlib.Data.List.Forall2

/-!
# Evaluation of a chunk

Instructions are evaluated from the last to the first. Children stand behind their parent, so their
lanes are up to date when the parent is evaluated, and the old lanes of the parent are of no
account. What stands in the buffers before the chunk does not matter, except for constants, whose
lanes are never written.

- `BatchInstruction.Fits`: an instruction is that of a node, with any lanes;
- `BatchInstruction.lanes_eq`: from up-to-date lanes of the children an instruction gets the values
  of its node;
- `Computed`: from a position on, the front lanes of every instruction are the values of its node;
- `Overwritten`: below a position the front lanes have been replaced, and nothing else;
- `evaluateChunk_eq`: after a chunk all code is computed and overwritten, and no position or row was
  out of bounds.
-/

namespace FormulaEngine

open Meaning

/-! ## Columns at rows of a selection -/

/-- At a row that is not negative a column is looked up as it is; behind its end it has no
number. -/
theorem Dataset.numberAt?_natCast {data : Dataset} (hdata : data.Rectangular) (name : String)
    (row : Nat) :
    data.numberAt? name row = (data.numeric? name).bind fun column => column[row]? := by
  unfold numberAt?
  by_cases hrow : row < data.rows
  · simp [hrow]
  · have hnone : ∀ column, data.numeric? name = some column → column[row]? = none := by
      intro column hcolumn
      rw [Array.getElem?_eq_none_iff, hdata.size_numeric hcolumn]
      omega
    cases hcolumn : data.numeric? name with
    | none => simp
    | some column => simp [hrow, hnone column hcolumn]

/-- A body in level order, every node of which a batch can run. At the rows of a selection the nodes
find what the columns of the cache have there. -/
structure Batched (cache : ColumnCache) (scope : Scope) (root : Node) (nodes : List Node) :
    Prop where
  reads : ∀ name (row : Nat),
    scope.data.numberAt? name row = (cache.get? name).bind fun column => column[row]?
  order : root.LevelOrder nodes
  supported : ∀ node ∈ nodes, node.BatchSupported

/-- The rows of a chunk, no more than there are lanes. -/
structure Rows.Windowed (rows : Rows) (lanes offset count : Nat) (window : List Nat) : Prop where
  eq : rows.window offset count = .ok window
  length : window.length = count
  le : count ≤ lanes

/-! ## One instruction -/

namespace BatchInstruction

variable {cache : ColumnCache} {lanes next offset count : Nat} {node : Node}
  {i : BatchInstruction} {rows : Rows} {window : List Nat} {scope : Scope}

/-- The instruction of `node`, with any lanes in its buffer unless the node is a constant. -/
structure Fits (i : BatchInstruction) (cache : ColumnCache) (lanes next : Nat) (node : Node) :
    Prop where
  eq : i = { node.batchInstruction cache lanes next with buffer := i.buffer }
  length : i.buffer.length = lanes
  filled : ∀ value, node.symbol = .constant value → i.buffer = List.replicate lanes value

theorem front_eq (h : count ≤ i.buffer.length) : i.front count = .ok (i.buffer.take count) :=
  if_pos h

/-- A fold over the front lanes of operands is a fold over lists of lanes. -/
theorem foldlM_front {combine : List Float → List Float → List Float}
    {operands : List BatchInstruction} {fronts : List (List Float)}
    (hfronts : List.Forall₂ (fun operand front => operand.front count = .ok front) operands fronts)
    (first : List Float) :
    operands.foldlM (fun lanes operand => return combine lanes (← operand.front count)) first =
      (.ok (fronts.foldl combine first) : Except Fault (List Float)) := by
  induction hfronts generalizing first with
  | nil => rfl
  | cons hfront _ ih =>
    rw [List.foldlM_cons, List.foldl_cons, hfront]
    exact ih _

/-- A kernel that works on operands is applied to their front lanes. -/
theorem lanes_of_combined? {operands : List BatchInstruction} {fronts : List (List Float)}
    {result : List Float}
    (hfronts : List.Forall₂ (fun operand front => operand.front count = .ok front) operands fronts)
    (h : i.kernel.combined? fronts = some result) :
    i.lanes operands rows offset count = .ok result := by
  unfold BatchInstruction.lanes
  cases hkernel : i.kernel with
  | filled => simp [hkernel, Kernel.combined?] at h
  | loaded => simp [hkernel, Kernel.combined?] at h
  | mapped change =>
    rw [hkernel] at h
    cases hfronts with
    | nil => cases h
    | cons hfirst _ =>
      cases h
      show (Except.bind _ _ : Except Fault (List Float)) = _
      rw [hfirst]
      rfl
  | paired combine =>
    rw [hkernel] at h
    cases hfronts with
    | nil => cases h
    | cons hfirst hrest =>
      cases hrest with
      | nil => cases h
      | cons hsecond _ =>
        cases h
        show (Except.bind _ _ : Except Fault (List Float)) = _
        rw [hfirst, hsecond]
        rfl
  | folded lone combine =>
    rw [hkernel] at h
    cases hfronts with
    | nil => cases h
    | cons hfirst hrest =>
      cases hrest with
      | nil =>
        cases h
        show (Except.bind _ _ : Except Fault (List Float)) = _
        rw [hfirst]
        rfl
      | cons hsecond hmore =>
        cases h
        show (Except.bind _ _ : Except Fault (List Float)) = _
        rw [hfirst]
        exact foldlM_front (.cons hsecond hmore) _

/-- The lanes of a variable are its weighted numbers at the rows of the window. -/
theorem loadLanes_eq (hwindow : rows.window offset count = .ok window)
    (hcount : window.length = count) (column : Option (Array Float)) (weight : Float) :
    loadLanes column weight rows offset count =
      .ok (window.map fun row =>
        match column.bind (·[row]?) with
        | some number => number * weight
        | none => nan) := by
  unfold loadLanes
  cases column with
  | none =>
    have hnan : window.map (fun _ => nan) = List.replicate count nan := by
      rw [List.map_const', hcount]
    exact congrArg Except.ok hnan.symm
  | some column =>
    show (Except.bind _ _ : Except Fault (List Float)) = _
    rw [hwindow]
    rfl

/-- From up-to-date lanes of its children an instruction gets the values of its node. -/
theorem lanes_eq {root : Node} {nodes : List Node} (hbody : Batched cache scope root nodes)
    (hrows : rows.Windowed lanes offset count window)
    (hnode : node ∈ nodes) (hi : i.Fits cache lanes next node)
    {operands : List BatchInstruction}
    (hoperands : List.Forall₂ (fun operand front => operand.front count = .ok front) operands
      (node.children.map fun child => window.map fun (row : Nat) => child.value scope row)) :
    i.lanes operands rows offset count =
      .ok (window.map fun (row : Nat) => node.value scope row) := by
  obtain ⟨op, kernel, hop, hkernel, haccepts⟩ := (hbody.supported node hnode).kernel
  have hikernel : i.kernel = kernel := by
    rw [hi.eq]
    simp [Node.batchInstruction, hop, hkernel]
  have hiweight : i.weight = node.symbol.batchWeight := by
    rw [hi.eq]
    rfl
  have hicolumn : i.column = node.symbol.batchColumn cache := by
    rw [hi.eq]
    rfl
  cases hcombine : node.symbol.combine? with
  | some combine =>
    have hpointwise := Symbol.kernel_pointwise hop hkernel hcombine window
      (node.children.map fun child (row : Nat) => child.value scope row)
      (by rwa [List.length_map])
    refine lanes_of_combined? hoperands ?_
    rw [hikernel]
    simp only [List.map_map, Function.comp_def] at hpointwise
    rw [hpointwise]
    refine congrArg some (List.map_congr_left fun row _ => ?_)
    rw [Node.value_eq, Symbol.value_of_combine? hcombine, List.map_map]
    rfl
  | none =>
    obtain ⟨symbol, children⟩ := node
    cases symbol with
    | constant value =>
      -- the lanes of a constant are filled once and for all
      cases hop
      cases hkernel
      have hfront : i.buffer.take count = window.map fun _ => value := by
        rw [hi.filled value rfl, List.map_const', hrows.length, List.take_replicate,
          Nat.min_eq_left hrows.le]
      unfold BatchInstruction.lanes
      rw [hikernel]
      show i.front count = _
      rw [front_eq (hi.length ▸ hrows.le), hfront]
      refine congrArg Except.ok (List.map_congr_left fun row _ => ?_)
      rw [Node.value_eq]
      rfl
    | numericVariable name weight =>
      cases hop
      cases hkernel
      unfold BatchInstruction.lanes
      rw [hikernel]
      show loadLanes i.column i.weight rows offset count = _
      rw [hicolumn, hiweight]
      show loadLanes (cache.get? name) weight rows offset count = _
      rw [loadLanes_eq hrows.eq hrows.length]
      refine congrArg Except.ok (List.map_congr_left fun row _ => ?_)
      rw [← hbody.reads, Node.value_eq]
      rfl
    | programRoot => cases hop
    | start => cases hop
    | defun name => cases hop
    | custom name => cases hop
    -- the other symbols combine all operands or have no kernel
    | _ => first | cases hcombine; done | (cases hop; cases hkernel)

/-- The instruction with other front lanes. -/
def update (i : BatchInstruction) (values : List Float) : BatchInstruction :=
  { i with buffer := values ++ i.buffer.drop values.length }

theorem front_update (values : List Float) :
    (i.update values).front values.length = .ok values := by
  have hle : values.length ≤ (i.update values).buffer.length := by simp [update]
  rw [front_eq hle]
  simp [update]

/-- New front lanes with the values of the node leave an instruction that fits. -/
theorem Fits.update (hi : i.Fits cache lanes next node) (hle : window.length ≤ lanes) :
    (i.update (window.map fun (row : Nat) => node.value scope row)).Fits cache lanes next node := by
  have hbuffer : (i.update (window.map fun (row : Nat) => node.value scope row)).buffer =
      (window.map fun (row : Nat) => node.value scope row) ++ i.buffer.drop window.length := by
    simp [BatchInstruction.update]
  constructor
  · unfold BatchInstruction.update
    rw [hi.eq]
  · rw [hbuffer, List.length_append, List.length_map, List.length_drop, hi.length]
    omega
  · intro value hvalue
    have hall : ∀ row, node.value scope row = value := by
      intro row
      rw [Node.value_eq, hvalue]
      rfl
    rw [hbuffer, hi.filled value hvalue, List.drop_replicate]
    simp only [hall, List.map_const', List.replicate_append_replicate]
    rw [Nat.add_sub_cancel' hle]

end BatchInstruction

/-! ## All instructions -/

/-- The code of a body with any lanes, in which the front lanes are the values of the nodes from the
position `stop` on. -/
structure Computed (cache : ColumnCache) (lanes count : Nat) (nodes : List Node) (scope : Scope)
    (window : List Nat) (stop : Nat) (code : Array BatchInstruction) : Prop where
  size : code.size = nodes.length
  instruction : ∀ k node, nodes[k]? = some node → ∃ i, code[k]? = some i ∧
    i.Fits cache lanes (1 + (Node.childrenAll (nodes.take k)).length) node ∧
      (stop ≤ k → i.front count = .ok (window.map fun (row : Nat) => node.value scope row))

section Code

variable {cache : ColumnCache} {lanes offset count stop : Nat} {root node : Node}
  {nodes : List Node} {scope : Scope} {window : List Nat} {rows : Rows}
  {code : Array BatchInstruction} {i : BatchInstruction}

/-- The children of an instruction are found at their positions, with their lanes up to date. -/
theorem childrenOf_eq (horder : root.LevelOrder nodes)
    (hcode : Computed cache lanes count nodes scope window (stop + 1) code)
    (hnode : nodes[stop]? = some node)
    (hi : i.Fits cache lanes (1 + (Node.childrenAll (nodes.take stop)).length) node) :
    ∃ operands, childrenOf code stop i = .ok operands ∧
      List.Forall₂ (fun operand front => operand.front count = .ok front) operands
        (node.children.map fun child => window.map fun (row : Nat) => child.value scope row) := by
  have hcounted : i.argCount = node.children.length := by
    rw [hi.eq]
    rfl
  have hlt : stop < nodes.length := (List.getElem?_eq_some_iff.mp hnode).1
  have hchildren := horder.children_eq hnode
  have hahead := horder.ahead stop hlt
  unfold childrenOf
  rw [hcounted]
  by_cases hnone : node.children.length = 0
  · rw [if_pos hnone, List.length_eq_zero_iff.mp hnone]
    exact ⟨[], rfl, .nil⟩
  · have hindex : i.childIndex = 1 + (Node.childrenAll (nodes.take stop)).length := by
      rw [hi.eq]
      exact if_pos (Nat.pos_of_ne_zero hnone)
    -- the children of the nodes up to this one stand behind them
    have hbehind : stop < 1 + (Node.childrenAll (nodes.take stop)).length := by omega
    rw [if_neg hnone, hindex]
    generalize 1 + (Node.childrenAll (nodes.take stop)).length = start at hchildren hbehind ⊢
    have hfits : start + node.children.length ≤ nodes.length := by
      have hlen := congrArg List.length hchildren
      rw [List.length_take, List.length_drop] at hlen
      omega
    rw [if_pos ⟨hbehind, hcode.size.symm ▸ hfits⟩]
    refine ⟨_, rfl, List.forall₂_iff_get.mpr ⟨?_, ?_⟩⟩
    · simp only [Array.length_toList, Array.size_extract, hcode.size, List.length_map]
      omega
    · intro j hj hj'
      have hjchild : j < node.children.length := by simpa using hj'
      have hchild : nodes[start + j]? = some node.children[j] := by
        rw [← List.getElem?_drop, ← List.getElem?_take_of_lt hjchild, hchildren,
          List.getElem?_eq_getElem hjchild]
      obtain ⟨operand, hoperand, -, hfront⟩ := hcode.instruction _ _ hchild
      have hget : (code.extract start (start + node.children.length)).toList.get ⟨j, hj⟩ =
          operand := by
        obtain ⟨hbound, hat⟩ := Array.getElem?_eq_some_iff.mp hoperand
        simpa using hat
      rw [hget, hfront (by omega)]
      simp

/-- Evaluating the instruction before those that are computed adds it to them, and changes nothing
but its front lanes. -/
theorem evaluatePosition_eq (hbody : Batched cache scope root nodes)
    (hrows : rows.Windowed lanes offset count window) (hnode : nodes[stop]? = some node)
    (hcode : Computed cache lanes count nodes scope window (stop + 1) code) :
    ∃ i, code[stop]? = some i ∧
      let after := code.setIfInBounds stop
        (i.update (window.map fun (row : Nat) => node.value scope row))
      evaluatePosition rows offset count code stop = .ok after ∧
        Computed cache lanes count nodes scope window stop after := by
  have hlt : stop < nodes.length := (List.getElem?_eq_some_iff.mp hnode).1
  obtain ⟨i, hi, hfits, -⟩ := hcode.instruction stop _ hnode
  obtain ⟨operands, hoperands, hfronts⟩ := childrenOf_eq hbody.order hcode hnode hfits
  have hlanes := BatchInstruction.lanes_eq hbody hrows (List.mem_of_getElem? hnode) hfits hfronts
  have hfront := BatchInstruction.front_eq (i := i) (hfits.length ▸ hrows.le)
  refine ⟨i, hi, ?_, ?_⟩
  · unfold evaluatePosition
    rw [hi]
    refine bind_eq_ok.mpr ⟨_, hfront, bind_eq_ok.mpr ⟨_, hoperands, bind_eq_ok.mpr ⟨_, hlanes, ?_⟩⟩⟩
    simp [pure, Except.pure, BatchInstruction.update, hrows.length]
  · constructor
    · rw [Array.size_setIfInBounds, hcode.size]
    · intro k found hk
      by_cases hstop : stop = k
      · subst hstop
        cases hnode.symm.trans hk
        have hlen : (window.map fun (row : Nat) => node.value scope row).length = count := by
          rw [List.length_map, hrows.length]
        refine ⟨_, Array.getElem?_setIfInBounds_self_of_lt (hcode.size.symm ▸ hlt),
          hfits.update (hrows.length.symm ▸ hrows.le), fun _ => ?_⟩
        conv => lhs; rw [← hlen]
        exact BatchInstruction.front_update _
      · -- the other instructions stay as they are
        obtain ⟨j, hj, hjfits, hjfront⟩ := hcode.instruction k found hk
        refine ⟨j, ?_, hjfits, fun hle => hjfront (by omega)⟩
        rw [Array.getElem?_setIfInBounds_ne hstop, hj]

/-- Below a position every instruction has got the values of its node as its front lanes. Nothing
else has changed. -/
def Overwritten (nodes : List Node) (scope : Scope) (window : List Nat) (stop : Nat)
    (code after : Array BatchInstruction) : Prop :=
  ∀ k node i, nodes[k]? = some node → code[k]? = some i →
    after[k]? = some (if k < stop then
      i.update (window.map fun (row : Nat) => node.value scope row) else i)

/-- Evaluating all instructions below a position from which on the code is computed computes all of
the code, and overwrites what is below. -/
theorem evaluateBelow_eq (hbody : Batched cache scope root nodes)
    (hrows : rows.Windowed lanes offset count window) (hstop : stop ≤ nodes.length)
    (hcode : Computed cache lanes count nodes scope window stop code) :
    ∃ after, evaluateBelow rows offset count stop code = .ok after ∧
      Computed cache lanes count nodes scope window 0 after ∧
      Overwritten nodes scope window stop code after := by
  induction stop generalizing code with
  | zero =>
    refine ⟨code, rfl, hcode, fun k node i _ hi => ?_⟩
    rw [if_neg (Nat.not_lt_zero k), hi]
  | succ stop ih =>
    have hnode : nodes[stop]? = some nodes[stop] := List.getElem?_eq_getElem hstop
    obtain ⟨i, hi, hnext, hcomputed⟩ := evaluatePosition_eq hbody hrows hnode hcode
    obtain ⟨after, hafter, hall, hbelow⟩ := ih (Nat.le_of_succ_le hstop) hcomputed
    refine ⟨after, bind_eq_ok.mpr ⟨_, hnext, hafter⟩, hall, fun k node j hk hj => ?_⟩
    by_cases hlast : stop = k
    · subst hlast
      cases hnode.symm.trans hk
      cases hi.symm.trans hj
      rw [if_pos (Nat.lt_succ_self stop), hbelow stop _ _ hk
        (Array.getElem?_setIfInBounds_self_of_lt (hcode.size.symm ▸ hstop)),
        if_neg (Nat.lt_irrefl stop)]
    · have hother : k < stop + 1 ↔ k < stop := by omega
      rw [hbelow k node j hk ((Array.getElem?_setIfInBounds_ne hlast).trans hj)]
      simp only [hother]

/-- The code of a body with any lanes. -/
theorem Computed.weaken (hcode : Computed cache lanes count nodes scope window stop code)
    (count' : Nat) (window' : List Nat) :
    Computed cache lanes count' nodes scope window' nodes.length code := by
  refine ⟨hcode.size, fun k node hk => ?_⟩
  obtain ⟨i, hi, hfits, -⟩ := hcode.instruction k node hk
  have hlt : k < nodes.length := (List.getElem?_eq_some_iff.mp hk).1
  exact ⟨i, hi, hfits, fun hle => absurd hle (Nat.not_le.mpr hlt)⟩

/-- New code has any lanes. -/
theorem computed_laidOut (cache : ColumnCache) (lanes count : Nat) (nodes : List Node)
    (scope : Scope) (window : List Nat) :
    Computed cache lanes count nodes scope window nodes.length
      (Node.laidOut cache lanes 1 nodes).toArray := by
  constructor
  · rw [List.size_toArray, Node.length_laidOut]
  · intro k node hk
    have hlt : k < nodes.length := (List.getElem?_eq_some_iff.mp hk).1
    refine ⟨node.batchInstruction cache lanes _, ?_, ⟨rfl, List.length_replicate, ?_⟩,
      fun hle => absurd hle (Nat.not_le.mpr hlt)⟩
    · rw [List.getElem?_toArray, Node.getElem?_laidOut, hk]
      rfl
    · intro value hvalue
      show List.replicate lanes node.symbol.batchFill = _
      rw [hvalue]
      rfl

/-- After a chunk the front lanes of every instruction are the values of its node at the rows of the
chunk, and nothing else has changed. -/
theorem evaluateChunk_eq (hbody : Batched cache scope root nodes)
    (hrows : rows.Windowed lanes offset count window)
    (hcode : Computed cache lanes count nodes scope window nodes.length code) :
    ∃ after, evaluateChunk rows offset count code = .ok after ∧
      Computed cache lanes count nodes scope window 0 after ∧
      Overwritten nodes scope window nodes.length code after := by
  unfold evaluateChunk
  rw [hcode.size]
  exact evaluateBelow_eq hbody hrows (Nat.le_refl _) hcode

end Code

end FormulaEngine
