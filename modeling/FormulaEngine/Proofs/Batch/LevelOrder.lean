import FormulaEngine.Proofs.PrefixOrder

/-!
# Level order

The walk with a queue appends the children of every node that it visits. In the end the list of
nodes is the root followed by the children of all of its own nodes, in order; so the children of a
node stand next to each other, and how many nodes stand before them is the number of children of
the nodes before it.

- `Node.Queued`: what holds of the list after some nodes have been visited;
- `Node.LevelOrder`: what holds of the list at the end;
- `Node.breadthOrder_levelOrder`: the walk gives such a list;
- `Node.LevelOrder.children_eq`: the children of a node stand where they are expected;
- `Node.LevelOrder.perm_preorder`: such a list has the nodes of the prefix order.
-/

namespace FormulaEngine

namespace Node

/-- The children of several nodes, those of the first node first. -/
def childrenAll (nodes : List Node) : List Node := nodes.flatMap Node.children

@[simp] theorem childrenAll_nil : childrenAll [] = [] := rfl

@[simp] theorem childrenAll_cons (node : Node) (rest : List Node) :
    childrenAll (node :: rest) = node.children ++ childrenAll rest := rfl

@[simp] theorem childrenAll_append (front back : List Node) :
    childrenAll (front ++ back) = childrenAll front ++ childrenAll back :=
  List.flatMap_append

/-- The nodes of subtrees are their roots and the nodes below these. -/
theorem preorderAll_perm (nodes : List Node) :
    (preorderAll nodes).Perm (nodes ++ preorderAll (childrenAll nodes)) := by
  induction nodes with
  | nil => exact .nil
  | cons node rest ih =>
    rw [preorderAll_cons, preorder_eq, childrenAll_cons, preorderAll_append, List.cons_append,
      List.cons_append]
    exact .cons node ((ih.append_left _).trans (List.perm_append_comm_assoc _ _ _))

/-- The first `visited` nodes have put their children behind the root, and each of them stood in the
queue when it was visited. -/
structure Queued (root : Node) (visited : Nat) (seen : List Node) : Prop where
  eq : seen = root :: childrenAll (seen.take visited)
  ahead : ∀ k < visited, k ≤ (childrenAll (seen.take k)).length

/-- All nodes have been visited. -/
structure LevelOrder (root : Node) (nodes : List Node) : Prop where
  eq : nodes = root :: childrenAll nodes
  ahead : ∀ k < nodes.length, k ≤ (childrenAll (nodes.take k)).length

/-- A node that is visited puts its children at the end of the queue. -/
theorem Queued.visit {root node : Node} {visited : Nat} {seen : List Node}
    (h : root.Queued visited seen) (hnode : seen[visited]? = some node) :
    root.Queued (visited + 1) (seen ++ node.children) := by
  have hlt : visited < seen.length := (List.getElem?_eq_some_iff.mp hnode).1
  have htake : (seen ++ node.children).take (visited + 1) = seen.take visited ++ [node] := by
    rw [List.take_append_of_le_length hlt, List.take_add_one, hnode]
    rfl
  constructor
  · rw [htake, childrenAll_append, childrenAll_cons, childrenAll_nil, List.append_nil,
      ← List.cons_append, ← h.eq]
  · intro k hk
    have hle : k ≤ seen.length := by omega
    rw [List.take_append_of_le_length hle]
    rcases Nat.lt_succ_iff_lt_or_eq.mp hk with hlt | rfl
    · exact h.ahead k hlt
    · -- the node that is visited now stood in the list, which has one node more than the children
      have hlen := congrArg List.length h.eq
      rw [List.length_cons] at hlen
      omega

/-- With a step for every node that waits or lies below one that waits, the walk visits all
nodes. -/
theorem unqueue_levelOrder (root : Node) (steps : Nat) :
    ∀ (visited : Nat) (seen : Array Node), root.Queued visited seen.toList →
      visited ≤ seen.size → countAll (seen.toList.drop visited) = steps →
        root.LevelOrder (unqueue steps visited seen).toList := by
  induction steps with
  | zero =>
    intro visited seen hqueued hle hcount
    -- nothing waits any more
    have hall : seen.toList.length ≤ visited :=
      List.drop_eq_nil_iff.mp (eq_nil_of_countAll_eq_zero hcount)
    have hvisited : visited = seen.toList.length := by
      rw [Array.length_toList] at hall ⊢
      omega
    rw [unqueue]
    constructor
    · have heq := hqueued.eq
      rwa [hvisited, List.take_length] at heq
    · intro k hk
      exact hqueued.ahead k (hvisited ▸ hk)
  | succ steps ih =>
    intro visited seen hqueued hle hcount
    cases hdrop : seen.toList.drop visited with
    | nil =>
      rw [hdrop] at hcount
      simp at hcount
    | cons node rest =>
      have hnode : seen.toList[visited]? = some node := by
        rw [← List.head?_drop, hdrop]
        rfl
      have hlt : visited < seen.size := by
        have hlt := (List.getElem?_eq_some_iff.mp hnode).1
        rwa [Array.length_toList] at hlt
      have hrest : seen.toList.drop (visited + 1) = rest := by
        rw [← List.tail_drop, hdrop]
        rfl
      have happend : (seen.appendList node.children).toList = seen.toList ++ node.children := by
        rw [Array.appendList_eq_append, Array.toList_appendList]
      have hcount' : countAll ((seen.appendList node.children).toList.drop (visited + 1)) =
          steps := by
        rw [hdrop, countAll_cons, count_eq] at hcount
        have hle : visited + 1 ≤ seen.toList.length := by
          rw [Array.length_toList]
          omega
        rw [happend, List.drop_append_of_le_length hle, hrest, countAll_append]
        omega
      rw [Array.getElem?_toList] at hnode
      rw [unqueue, hnode]
      refine ih (visited + 1) (seen.appendList node.children) ?_ ?_ hcount'
      · rw [happend]
        exact hqueued.visit (by rwa [Array.getElem?_toList])
      · rw [← Array.length_toList, happend, List.length_append, Array.length_toList]
        omega

/-- The walk with a queue visits all nodes and puts the children of every node behind it. -/
theorem breadthOrder_levelOrder (root : Node) : root.LevelOrder root.breadthOrder := by
  have hstart : root.Queued 0 [root] := by
    constructor
    · rfl
    · intro k hk
      exact absurd hk (Nat.not_lt_zero k)
  refine unqueue_levelOrder root root.count 0 #[root] hstart (Nat.zero_le _) ?_
  show countAll [root] = root.count
  rw [countAll_cons, countAll_nil, Nat.add_zero]

namespace LevelOrder

variable {root node : Node} {nodes : List Node}

/-- The root comes first. -/
theorem getElem?_zero (h : root.LevelOrder nodes) : nodes[0]? = some root := by
  rw [h.eq]
  rfl

/-- The children of the node at a position stand behind the root and the children of the nodes
before it. -/
theorem children_eq (h : root.LevelOrder nodes) {k : Nat} (hnode : nodes[k]? = some node) :
    (nodes.drop (1 + (childrenAll (nodes.take k)).length)).take node.children.length =
      node.children := by
  obtain ⟨hlt, hget⟩ := List.getElem?_eq_some_iff.mp hnode
  have hsplit : nodes = nodes.take k ++ node :: nodes.drop (k + 1) := by
    rw [← hget, List.getElem_cons_drop, List.take_append_drop]
  have hchildren : childrenAll nodes =
      childrenAll (nodes.take k) ++ (node.children ++ childrenAll (nodes.drop (k + 1))) := by
    conv => lhs; rw [hsplit]
    rw [childrenAll_append, childrenAll_cons]
  have hdrop : nodes.drop (1 + (childrenAll (nodes.take k)).length) =
      node.children ++ childrenAll (nodes.drop (k + 1)) := by
    conv => lhs; rw [h.eq]
    rw [Nat.add_comm, List.drop_succ_cons, ← h.eq, hchildren, List.drop_left]
  rw [hdrop, List.take_left]

/-- In level order stand the nodes of the prefix order. Both ways to take the roots from all nodes
below the list leave the nodes below the children, and these cancel. -/
theorem perm_preorder (h : root.LevelOrder nodes) : nodes.Perm root.preorder := by
  have hbelow : preorderAll nodes = root.preorder ++ preorderAll (childrenAll nodes) := by
    conv => lhs; rw [h.eq]
    rw [preorderAll_cons]
  have hperm := preorderAll_perm nodes
  rw [hbelow] at hperm
  exact ((List.perm_append_right_iff _).mp hperm).symm

end LevelOrder

end Node

end FormulaEngine
