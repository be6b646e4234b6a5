import FormulaEngine.Batch.Chunk
import FormulaEngine.Proofs.Batch.Layout
import Mathlib.Data.List.Nodup

/-!
# Levels

The levels of a tree, by recursion on the distance from the root, and the layout said on them. The
walk with a queue knows nothing of levels, and the layout nothing of the walk: it counts on where
the next children will stand. Still the nodes are laid out level by level, and the places of the
children of all instructions follow each other without a gap.

- `Node.level`, `Node.levels`: the nodes at a distance from the root, and all levels of a tree;
- `Node.LevelOrder.eq_flatten_levels`: the list that the walk ends with is made of the levels;
- `BatchInstruction.childPositions`: the positions of the children of an instruction;
- `visits`: the positions in the order in which a chunk evaluates them;
- `Node.flatMap_childPositions`: the positions of the children of all instructions, put together, are
  all positions but the first;
- `Node.BreadthFirst`: code of a body level by level;
- `Node.layout_breadthFirst`: this is what the layout makes.
-/

namespace FormulaEngine

namespace Node

/-! ## Levels of a tree -/

/-- The nodes at a distance below a node, from left to right. -/
def level : (distance : Nat) → Node → List Node
  | 0, node => [node]
  | distance + 1, node => node.children.flatMap (level distance)

/-- The levels from the root down to the deepest node. -/
def levels (root : Node) : List (List Node) :=
  (List.range root.depth).map fun distance => root.level distance

/-- A depth is at most the greatest one, which is at most what bounds all depths. -/
theorem maxDepth_le_iff {least bound : Nat} {nodes : List Node} :
    maxDepth least nodes ≤ bound ↔ least ≤ bound ∧ ∀ node ∈ nodes, node.depth ≤ bound := by
  induction nodes generalizing least with
  | nil => simp [maxDepth]
  | cons node rest ih => rw [maxDepth, ih, Nat.max_le, List.forall_mem_cons, and_assoc]

theorem depth_le_succ_iff {node : Node} {bound : Nat} :
    node.depth ≤ bound + 1 ↔ ∀ child ∈ node.children, child.depth ≤ bound := by
  obtain ⟨symbol, children⟩ := node
  have hroot : maxDepth 0 children ≤ bound ↔ ∀ child ∈ children, child.depth ≤ bound := by
    rw [maxDepth_le_iff]
    simp
  rw [← hroot, depth, Nat.add_comm, Nat.succ_le_succ_iff]

/-- The levels of a tree are those above its depth. -/
theorem level_eq_nil_iff {distance : Nat} {node : Node} :
    node.level distance = [] ↔ node.depth ≤ distance := by
  induction distance generalizing node with
  | zero =>
    obtain ⟨symbol, children⟩ := node
    simp only [level, depth, List.cons_ne_nil, false_iff]
    omega
  | succ distance ih =>
    rw [level, List.flatMap_eq_nil_iff, depth_le_succ_iff]
    exact forall₂_congr fun child _ => ih

/-- Below several nodes, the next level holds the children of the nodes. -/
theorem flatMap_level_succ (distance : Nat) (nodes : List Node) :
    nodes.flatMap (level (distance + 1)) = (childrenAll nodes).flatMap (level distance) :=
  (List.flatMap_assoc ..).symm

/-- From the depth on there are no more nodes. -/
theorem flatMap_level_of_depth_le {root : Node} {bound : Nat} (h : root.depth ≤ bound) :
    (List.range bound).flatMap (level · root) = root.levels.flatten := by
  obtain ⟨more, rfl⟩ := Nat.exists_eq_add_of_le h
  have hnone : (List.map (root.depth + ·) (List.range more)).flatMap (level · root) = [] := by
    rw [List.flatMap_eq_nil_iff]
    intro distance hdistance
    obtain ⟨k, -, rfl⟩ := List.mem_map.mp hdistance
    exact level_eq_nil_iff.mpr (Nat.le_add_right _ _)
  rw [List.range_add, List.flatMap_append, hnone, List.append_nil, List.flatMap_def, levels]

namespace LevelOrder

variable {root : Node} {nodes : List Node}

/-- Each time that the list is put in for the nodes whose children it holds, one more level comes to
the front. -/
theorem eq_levels_append (h : root.LevelOrder nodes) (distance : Nat) :
    nodes = (List.range distance).flatMap (level · root) ++ nodes.flatMap (level distance) := by
  induction distance with
  | zero => simp [level]
  | succ distance ih =>
    have hnext : nodes.flatMap (level distance) =
        root.level distance ++ nodes.flatMap (level (distance + 1)) := by
      conv => lhs; rw [h.eq]
      rw [List.flatMap_cons, flatMap_level_succ]
    rw [List.range_succ, List.flatMap_append, List.flatMap_singleton, List.append_assoc, ← hnext]
    exact ih

/-- So the list is made of the levels: behind as many as the deepest node has, nothing is left. -/
theorem eq_flatten_levels (h : root.LevelOrder nodes) : nodes = root.levels.flatten := by
  obtain ⟨hroot, hnodes⟩ := maxDepth_le_iff.mp (Nat.le_refl (maxDepth root.depth nodes))
  have hnone : nodes.flatMap (level (maxDepth root.depth nodes)) = [] :=
    List.flatMap_eq_nil_iff.mpr fun node hnode => level_eq_nil_iff.mpr (hnodes node hnode)
  have hall := h.eq_levels_append (maxDepth root.depth nodes)
  rwa [hnone, List.append_nil, flatMap_level_of_depth_le hroot] at hall

end LevelOrder

/-- The walk with a queue visits the levels one after another. -/
theorem breadthOrder_eq (root : Node) : root.breadthOrder = root.levels.flatten :=
  root.breadthOrder_levelOrder.eq_flatten_levels

theorem length_breadthOrder (root : Node) : root.breadthOrder.length = root.count := by
  rw [root.breadthOrder_levelOrder.perm_preorder.length_eq, length_preorder]

end Node

/-! ## Positions of children -/

/-- The positions of the children of an instruction, the first child first. -/
def BatchInstruction.childPositions (i : BatchInstruction) : List Nat :=
  List.range' i.childIndex i.argCount

/-! ## The way of a chunk -/

/-- The positions of code in the order in which a chunk evaluates them. -/
def visits (code : Array BatchInstruction) : List Nat := (List.range code.size).reverse

theorem evaluateBelow_eq_foldlM (rows : Rows) (offset count stop : Nat)
    (code : Array BatchInstruction) :
    evaluateBelow rows offset count stop code =
      (List.range stop).reverse.foldlM (evaluatePosition rows offset count) code := by
  induction stop generalizing code with
  | zero => rfl
  | succ stop ih =>
    rw [List.range_succ, List.reverse_append, List.reverse_singleton, List.singleton_append,
      List.foldlM_cons, evaluateBelow]
    exact congrArg _ (funext ih)

/-- What stands further back is visited first. -/
theorem sublist_visits {code : Array BatchInstruction} {k position : Nat}
    (h : k < position ∧ position < code.size) : [position, k].Sublist (visits code) := by
  have hrange : [k, position].Sublist (List.range code.size) := by
    obtain ⟨more, hmore⟩ := Nat.exists_eq_add_of_lt h.2
    have hfront : [k].Sublist (List.range position) :=
      List.singleton_sublist.mpr (List.mem_range.mpr h.1)
    have hback : [position].Sublist ((List.range (more + 1)).map (position + ·)) :=
      List.singleton_sublist.mpr (List.mem_map.mpr ⟨0, List.mem_range.mpr (Nat.succ_pos more), rfl⟩)
    rw [hmore, Nat.add_assoc, List.range_add]
    exact hfront.append hback
  exact hrange.reverse

namespace Node

/-- The children of each node are given the places behind those of the nodes before it, so together
they take as many places as there are children. -/
theorem flatMap_childPositions (cache : ColumnCache) (lanes next : Nat) (nodes : List Node) :
    (laidOut cache lanes next nodes).flatMap BatchInstruction.childPositions =
      List.range' next (childrenAll nodes).length := by
  induction nodes generalizing next with
  | nil => rfl
  | cons node rest ih =>
    have hfirst : (node.batchInstruction cache lanes next).childPositions =
        List.range' next node.children.length := by
      show List.range' (if 0 < node.children.length then next else 0) node.children.length = _
      by_cases hnone : 0 < node.children.length
      · rw [if_pos hnone]
      · rw [Nat.eq_zero_of_not_pos hnone]
        rfl
    rw [laidOut, List.flatMap_cons, hfirst, ih, List.range'_append_1, childrenAll_cons,
      List.length_append]

/-- The code of a body, level by level: one instruction for each node, and the children of every
instruction next to each other behind it. -/
structure BreadthFirst (body : Node) (code : Array BatchInstruction) : Prop where
  size : code.size = body.count
  length : body.levels.flatten.length = body.count
  /-- The instruction at a position is that of the node there. -/
  instruction : ∀ (k : Nat) (i : BatchInstruction), code[k]? = some i →
    ∃ node : Node, body.levels.flatten[k]? = some node ∧
      node.symbol.opcode? = some i.opcode ∧ i.argCount = node.children.length
  /-- The children of the node are at the positions for them. -/
  child : ∀ (k : Nat) (i : BatchInstruction) (node : Node), code[k]? = some i →
    body.levels.flatten[k]? = some node →
      ∀ j < i.argCount, body.levels.flatten[i.childIndex + j]? = node.children[j]?
  /-- These positions are in the code, behind the instruction. -/
  behind : ∀ (k : Nat) (i : BatchInstruction), code[k]? = some i →
    ∀ position ∈ i.childPositions, k < position ∧ position < code.size
  /-- No position is that of a child of two instructions. -/
  disjoint : ∀ (k k' : Nat) (i i' : BatchInstruction), code[k]? = some i → code[k']? = some i' →
    k ≠ k' → i.childPositions.Disjoint i'.childPositions
  /-- Every position but the first is that of a child. -/
  cover : ∀ position : Nat, 1 ≤ position ∧ position < code.size ↔
    ∃ (k : Nat) (i : BatchInstruction), code[k]? = some i ∧ position ∈ i.childPositions
  /-- A chunk visits the children of an instruction before the instruction. -/
  visited : ∀ (k : Nat) (i : BatchInstruction), code[k]? = some i →
    ∀ position ∈ i.childPositions, [position, k].Sublist (visits code)

section LaidOut

variable {cache : ColumnCache} {lanes next k : Nat} {root : Node} {nodes : List Node}
  {i : BatchInstruction}

/-- The instruction at a position is that of the node there, with its children behind those of the
nodes before it. -/
theorem exists_of_getElem?_laidOut (h : (laidOut cache lanes next nodes)[k]? = some i) :
    ∃ node, nodes[k]? = some node ∧
      i = node.batchInstruction cache lanes (next + (childrenAll (nodes.take k)).length) := by
  rw [getElem?_laidOut, Option.map_eq_some_iff] at h
  obtain ⟨node, hnode, rfl⟩ := h
  exact ⟨node, hnode, rfl⟩

/-- An instruction with children has them where the layout counts on them. -/
theorem childIndex_batchInstruction {node : Node} (h : 0 < node.children.length) :
    (node.batchInstruction cache lanes next).childIndex = next :=
  if_pos h

namespace LevelOrder

variable (h : root.LevelOrder nodes)

include h

theorem length_eq : nodes.length = 1 + (childrenAll nodes).length := by
  conv => lhs; rw [h.eq]
  rw [List.length_cons, Nat.add_comm]

/-- The children of a node are where its instruction has them. -/
theorem getElem?_childIndex {node : Node} (hi : (laidOut cache lanes 1 nodes)[k]? = some i)
    (hnode : nodes[k]? = some node) {j : Nat} (hj : j < i.argCount) :
    nodes[i.childIndex + j]? = node.children[j]? := by
  obtain ⟨found, hfound, rfl⟩ := exists_of_getElem?_laidOut hi
  obtain rfl := Option.some.inj (hfound.symm.trans hnode)
  have hchild : j < found.children.length := hj
  rw [childIndex_batchInstruction (Nat.zero_lt_of_lt hchild), ← List.getElem?_drop,
    ← List.getElem?_take_of_lt hchild, h.children_eq hnode]

/-- The children stand behind their parent, since the nodes before it have as many children as there
are nodes behind the root up to it. -/
theorem lt_of_mem_childPositions (hi : (laidOut cache lanes 1 nodes)[k]? = some i) {position : Nat}
    (hmem : position ∈ i.childPositions) : k < position := by
  obtain ⟨node, hnode, rfl⟩ := exists_of_getElem?_laidOut hi
  obtain ⟨hle, hlt⟩ := List.mem_range'_1.mp hmem
  have hsome : 0 < node.children.length := by
    have hcount : (node.batchInstruction cache lanes
      (1 + (childrenAll (nodes.take k)).length)).argCount = node.children.length := rfl
    omega
  have hahead := h.ahead k (List.getElem?_eq_some_iff.mp hnode).1
  rw [childIndex_batchInstruction hsome] at hle
  omega

/-- The positions of children are all positions but that of the root, each for one child. -/
theorem flatMap_childPositions_eq :
    (laidOut cache lanes 1 nodes).flatMap BatchInstruction.childPositions =
      List.range' 1 (nodes.length - 1) := by
  rw [flatMap_childPositions, h.length_eq, Nat.add_sub_cancel_left]

theorem mem_childPositions_iff {position : Nat} :
    1 ≤ position ∧ position < nodes.length ↔
      ∃ (k : Nat) (i : BatchInstruction), (laidOut cache lanes 1 nodes)[k]? = some i ∧
        position ∈ i.childPositions := by
  have hlength := h.length_eq
  have hmem : position ∈ (laidOut cache lanes 1 nodes).flatMap BatchInstruction.childPositions ↔
      1 ≤ position ∧ position < nodes.length := by
    rw [h.flatMap_childPositions_eq, List.mem_range'_1]
    omega
  rw [← hmem, List.mem_flatMap]
  constructor
  · rintro ⟨i, hi, hposition⟩
    obtain ⟨k, hk⟩ := List.mem_iff_getElem?.mp hi
    exact ⟨k, i, hk, hposition⟩
  · rintro ⟨k, i, hk, hposition⟩
    exact ⟨i, List.mem_of_getElem? hk, hposition⟩

theorem disjoint_childPositions {k' : Nat} {i' : BatchInstruction}
    (hi : (laidOut cache lanes 1 nodes)[k]? = some i)
    (hi' : (laidOut cache lanes 1 nodes)[k']? = some i') (hne : k ≠ k') :
    i.childPositions.Disjoint i'.childPositions := by
  have hnodup : ((laidOut cache lanes 1 nodes).flatMap BatchInstruction.childPositions).Nodup := by
    rw [h.flatMap_childPositions_eq]
    exact List.nodup_range'
  obtain ⟨-, hpairwise⟩ := List.nodup_flatMap.mp hnodup
  obtain ⟨hk, rfl⟩ := List.getElem?_eq_some_iff.mp hi
  obtain ⟨hk', rfl⟩ := List.getElem?_eq_some_iff.mp hi'
  rcases Nat.lt_or_gt_of_ne hne with hlt | hgt
  · exact List.pairwise_iff_getElem.mp hpairwise k k' hk hk' hlt
  · exact List.disjoint_symm (List.pairwise_iff_getElem.mp hpairwise k' k hk' hk hgt)

end LevelOrder

end LaidOut

/-- The layout puts a body down level by level, and a chunk evaluates the positions so that children
come before their parents. -/
theorem layout_breadthFirst {body : Node} {cache : ColumnCache} {lanes : Nat}
    {code : Array BatchInstruction} (h : body.layout cache lanes = .ok code) :
    body.BreadthFirst code ∧ ∀ rows offset count, evaluateChunk rows offset count code =
      (visits code).foldlM (evaluatePosition rows offset count) code := by
  obtain ⟨hsupported, -, -, rfl⟩ := layout_eq_ok.mp h
  have horder := body.breadthOrder_levelOrder
  have hcount := body.length_breadthOrder
  rw [breadthOrder_eq] at hsupported horder hcount ⊢
  have hsize : (laidOut cache lanes 1 body.levels.flatten).toArray.size =
      body.levels.flatten.length := by
    rw [List.size_toArray, length_laidOut]
  have hbehind : ∀ (k : Nat) (i : BatchInstruction),
      (laidOut cache lanes 1 body.levels.flatten).toArray[k]? = some i →
        ∀ position ∈ i.childPositions, k < position ∧
          position < (laidOut cache lanes 1 body.levels.flatten).toArray.size := by
    intro k i hi position hposition
    rw [List.getElem?_toArray] at hi
    rw [hsize]
    exact ⟨horder.lt_of_mem_childPositions hi hposition,
      (horder.mem_childPositions_iff.mpr ⟨k, i, hi, hposition⟩).2⟩
  refine ⟨⟨hsize.trans hcount, hcount, ?_, ?_, hbehind, ?_, ?_, ?_⟩, fun rows offset count =>
    evaluateBelow_eq_foldlM rows offset count _ _⟩
  · intro k i hi
    obtain ⟨node, hnode, rfl⟩ := exists_of_getElem?_laidOut (List.getElem?_toArray ▸ hi)
    obtain ⟨op, kernel, hop, -, -⟩ := (hsupported node (List.mem_of_getElem? hnode)).kernel
    refine ⟨node, hnode, ?_, rfl⟩
    simp [batchInstruction, hop]
  · intro k i node hi hnode j hj
    exact horder.getElem?_childIndex (List.getElem?_toArray ▸ hi) hnode hj
  · intro k k' i i' hi hi' hne
    exact horder.disjoint_childPositions (List.getElem?_toArray ▸ hi) (List.getElem?_toArray ▸ hi')
      hne
  · intro position
    simp only [List.getElem?_toArray]
    rw [hsize]
    exact horder.mem_childPositions_iff
  · intro k i hi position hposition
    exact sublist_visits (hbehind k i hi position hposition)

/-- A product and two. -/
def productAndTwo : Node :=
  ⟨.addition, [⟨.multiplication, [.leaf (.numericVariable "x" 1.0),
    .leaf (.numericVariable "y" 1.0)]⟩, .leaf (.constant 2.0)]⟩

/-- The sum has its children at the positions 1 and 2, the product behind them. -/
theorem layout_breadthFirst_productAndTwo : ∃ code, productAndTwo.layout {} 3 = .ok code ∧
    code.toList.map BatchInstruction.childPositions = [[1, 2], [3, 4], [], [], []] ∧
    productAndTwo.BreadthFirst code := by
  have hlayout : ∃ code, productAndTwo.layout {} 3 = .ok code ∧
      code.toList.map BatchInstruction.childPositions = [[1, 2], [3, 4], [], [], []] :=
    ⟨_, rfl, rfl⟩
  obtain ⟨code, hcode, hpositions⟩ := hlayout
  exact ⟨code, hcode, hpositions, (layout_breadthFirst hcode).1⟩

end Node

end FormulaEngine
