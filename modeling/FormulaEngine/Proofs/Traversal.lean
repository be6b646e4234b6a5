import FormulaEngine.Proofs.Batch.Levels
import Mathlib.Data.List.Shortlex
import Mathlib.Order.Interval.Set.Nat

/-!
# Walks through a tree

The two walks, by the places of a tree that they come to. A place is told by the path that leads to
it, so that equal subtrees at different places are not mixed up. In lexicographic order the paths
tell the prefix order, in order of their lengths the levels.

- `Node.at?`: the node that a path leads to;
- `Node.paths`: the paths of a tree in lexicographic order;
- `Node.Visits`: a walk comes to every place once, in a given order of the paths;
- `Node.unstack_eq_take`, `Node.take_unqueue`: what the walks have visited after some steps;
- `Node.traversals_agree`: both walks, the number of nodes and the depth tell the same of a tree.
-/

namespace FormulaEngine

namespace Node

/-! ## Places -/

/-- The node that a path leads to, which says at each step which child to take. -/
def at? : Node → List Nat → Option Node
  | node, [] => some node
  | node, k :: path => node.children[k]?.bind (at? · path)

/-- A walk that comes to every place of a tree exactly once. The paths that lead to the places stand
in the order `before`. -/
def Visits (before : List Nat → List Nat → Prop) (root : Node) (walk : List Node) : Prop :=
  ∃ paths : List (List Nat), paths.Nodup ∧ paths.Pairwise before ∧
    (∀ path, path ∈ paths ↔ (root.at? path).isSome) ∧ paths.map root.at? = walk.map some

mutual

/-- The paths to the nodes of a subtree, in the order of its nodes. -/
def paths : Node → List (List Nat)
  | ⟨_, children⟩ => [] :: pathsFrom 0 children

/-- The paths to the nodes of several subtrees, which are the children of a node from number `k`
on. -/
def pathsFrom (k : Nat) : List Node → List (List Nat)
  | [] => []
  | child :: rest => (paths child).map (k :: ·) ++ pathsFrom (k + 1) rest

end

theorem paths_eq (node : Node) : node.paths = [] :: pathsFrom 0 node.children := by
  cases node
  rfl

/-- Below a child, the paths go on as they do from the child. -/
theorem map_at?_cons {node child : Node} {k : Nat} (h : node.children[k]? = some child)
    (paths : List (List Nat)) :
    (paths.map (k :: ·)).map node.at? = paths.map child.at? := by
  rw [List.map_map]
  refine List.map_congr_left fun path _ => ?_
  rw [Function.comp_apply, at?, h, Option.bind_some]

mutual

/-- The paths lead to the nodes in prefix order. -/
theorem map_at?_paths : ∀ node : Node, node.paths.map node.at? = node.preorder.map some
  | ⟨symbol, children⟩ => by
    have hbelow := map_at?_pathsFrom [] children ⟨symbol, children⟩ rfl
    rw [List.length_nil] at hbelow
    rw [paths, preorder, List.map_cons, List.map_cons, hbelow, at?]

theorem map_at?_pathsFrom (front : List Node) : ∀ (rest : List Node) (parent : Node),
    parent.children = front ++ rest →
      (pathsFrom front.length rest).map parent.at? = (preorderAll rest).map some
  | [], _, _ => rfl
  | child :: rest, parent, h => by
    have hchild : parent.children[front.length]? = some child := by simp [h]
    have hrest := map_at?_pathsFrom (front ++ [child]) rest parent (by simp [h])
    rw [List.length_append, List.length_singleton] at hrest
    rw [pathsFrom, List.map_append, map_at?_cons hchild, map_at?_paths child, hrest,
      preorderAll_cons, List.map_append]

end

/-- A path to a node below goes through one of the children. -/
theorem mem_pathsFrom_iff {nodes : List Node} {k : Nat} {path : List Nat} :
    path ∈ pathsFrom k nodes ↔
      ∃ j child rest, nodes[j]? = some child ∧ rest ∈ child.paths ∧ path = (k + j) :: rest := by
  induction nodes generalizing k with
  | nil => simp [pathsFrom]
  | cons node nodes ih =>
    rw [pathsFrom, List.mem_append, List.mem_map, ih]
    constructor
    · rintro (⟨rest, hrest, rfl⟩ | ⟨j, child, rest, hchild, hrest, rfl⟩)
      · exact ⟨0, node, rest, rfl, hrest, rfl⟩
      · exact ⟨j + 1, child, rest, hchild, hrest, by rw [Nat.add_right_comm, Nat.add_assoc]⟩
    · rintro ⟨j, child, rest, hchild, hrest, rfl⟩
      cases j with
      | zero =>
        obtain rfl : node = child := by simpa using hchild
        exact Or.inl ⟨rest, hrest, rfl⟩
      | succ j =>
        exact Or.inr ⟨j, child, rest, by simpa using hchild, hrest, by rw [Nat.add_right_comm,
          Nat.add_assoc]⟩

/-- There is a node at the end of a path exactly if the path is among those of the tree. -/
theorem mem_paths_iff {node : Node} {path : List Nat} :
    path ∈ node.paths ↔ (node.at? path).isSome := by
  induction path generalizing node with
  | nil => simp [paths_eq, at?]
  | cons k path ih =>
    have hcons : k :: path ∈ node.paths ↔
        ∃ child, node.children[k]? = some child ∧ path ∈ child.paths := by
      rw [paths_eq, List.mem_cons, mem_pathsFrom_iff]
      simp
    rw [hcons, at?]
    cases node.children[k]? with
    | none => simp
    | some child => simpa using ih

/-! ## Order of the paths -/

mutual

/-- The paths stand in lexicographic order. -/
theorem pairwise_paths : ∀ node : Node, node.paths.Pairwise (· < ·)
  | ⟨symbol, children⟩ => by
    rw [paths_eq, List.pairwise_cons]
    refine ⟨fun path hpath => ?_, pairwise_pathsFrom 0 children⟩
    obtain ⟨j, child, rest, -, -, rfl⟩ := mem_pathsFrom_iff.mp hpath
    exact List.nil_lt_cons _ _

theorem pairwise_pathsFrom (k : Nat) : ∀ nodes : List Node, (pathsFrom k nodes).Pairwise (· < ·)
  | [] => .nil
  | child :: rest => by
    rw [pathsFrom, List.pairwise_append]
    refine ⟨?_, pairwise_pathsFrom (k + 1) rest, ?_⟩
    · refine (pairwise_paths child).map _ fun first second hlt => ?_
      exact List.cons_lt_cons_iff.mpr (Or.inr ⟨rfl, hlt⟩)
    · -- the paths through a later child begin with a greater number
      intro first hfirst second hsecond
      obtain ⟨below, -, rfl⟩ := List.mem_map.mp hfirst
      obtain ⟨j, _, _, -, -, rfl⟩ := mem_pathsFrom_iff.mp hsecond
      exact List.cons_lt_cons_iff.mpr (Or.inl (by omega))

end

/-- The two ones of a sum are at different places, and the deeper one is behind the product that it
is an operand of. -/
example : paths ⟨.addition, [.leaf (.constant 1.0), ⟨.multiplication,
    [.leaf (.constant 1.0), .leaf (.argument 0)]⟩, .leaf (.argument 1)]⟩ =
      [[], [0], [1], [1, 0], [1, 1], [2]] := by
  decide

/-- The paths of a level, in the order of all paths. -/
def levelPaths (distance : Nat) (node : Node) : List (List Nat) :=
  node.paths.filter (·.length = distance)

/-- A level has the nodes at the paths of its distance, from left to right. -/
theorem map_at?_levelPaths (distance : Nat) (node : Node) :
    (node.levelPaths distance).map node.at? = (node.level distance).map some := by
  induction distance generalizing node with
  | zero =>
    have hbelow : (pathsFrom 0 node.children).filter (·.length = 0) = [] := by
      refine List.filter_eq_nil_iff.mpr fun path hpath => ?_
      obtain ⟨j, child, rest, -, -, rfl⟩ := mem_pathsFrom_iff.mp hpath
      simp
    have hroot : node.levelPaths 0 = [[]] := by
      rw [levelPaths, paths_eq, List.filter_cons_of_pos (by simp), hbelow]
    rw [hroot, level, List.map_singleton, List.map_singleton, at?]
  | succ distance ih =>
    have hbelow : ∀ front rest, node.children = front ++ rest →
        ((pathsFrom front.length rest).filter (·.length = distance + 1)).map node.at? =
          (rest.flatMap (level distance)).map some := by
      intro front rest
      induction rest generalizing front with
      | nil => exact fun _ => rfl
      | cons child rest ihrest =>
        intro h
        have hchild : node.children[front.length]? = some child := by simp [h]
        have hrest := ihrest (front ++ [child]) (by simp [h])
        have hfirst : ((child.paths.map (front.length :: ·)).filter (·.length = distance + 1)) =
            (child.levelPaths distance).map (front.length :: ·) := by
          rw [List.filter_map, levelPaths]
          congr 2
          funext path
          simp
        rw [List.length_append, List.length_singleton] at hrest
        rw [pathsFrom, List.filter_append, hfirst, List.map_append, map_at?_cons hchild, ih, hrest,
          List.flatMap_cons, List.map_append]
    have hroot := hbelow [] node.children rfl
    rw [levelPaths, paths_eq, level, ← hroot]
    rfl

/-- A path is shorter than the tree is deep. -/
theorem length_lt_depth {node : Node} {path : List Nat} (h : path ∈ node.paths) :
    path.length < node.depth := by
  refine Nat.lt_of_not_le fun hdepth => ?_
  have hnone := level_eq_nil_iff.mpr hdepth
  have hlevel := map_at?_levelPaths path.length node
  rw [hnone, List.map_nil, List.map_eq_nil_iff] at hlevel
  have hmem : path ∈ node.levelPaths path.length := List.mem_filter.mpr ⟨h, by simp⟩
  rw [hlevel] at hmem
  cases hmem

/-! ## Walks by places -/

/-- The prefix order visits the places in lexicographic order of their paths. -/
theorem visits_prefixOrder (root : Node) : root.Visits (· < ·) root.prefixOrder := by
  refine ⟨root.paths, root.pairwise_paths.imp fun h => ne_of_lt h, root.pairwise_paths,
    fun path => mem_paths_iff, ?_⟩
  rw [prefixOrder_eq, map_at?_paths]

/-- The paths of the levels, one level after another, are in order of their lengths. -/
theorem pairwise_flatMap_levelPaths (bound : Nat) (root : Node) :
    ((List.range bound).flatMap (levelPaths · root)).Pairwise (List.Shortlex (· < ·)) := by
  have hlength : ∀ distance, ∀ path ∈ root.levelPaths distance, path.length = distance := by
    intro distance path hpath
    simpa using (List.mem_filter.mp hpath).2
  rw [List.pairwise_flatMap]
  constructor
  · intro distance _
    refine (root.pairwise_paths.filter _).imp_of_mem fun {first second} hfirst hsecond hlt => ?_
    exact .of_lex ((hlength _ _ hfirst).trans (hlength _ _ hsecond).symm) hlt
  · refine List.pairwise_lt_range.imp fun {near far} hlt first hfirst second hsecond => ?_
    rw [← hlength _ _ hfirst, ← hlength _ _ hsecond] at hlt
    exact .of_length_lt hlt

/-- The walk level by level visits the places in order of the lengths of their paths, and paths of
one length in lexicographic order. -/
theorem visits_breadthOrder (root : Node) :
    root.Visits (List.Shortlex (· < ·)) root.breadthOrder := by
  have hpairwise := root.pairwise_flatMap_levelPaths root.depth
  refine ⟨_, hpairwise.imp fun {first second} hbefore heq => ?_, hpairwise, fun path => ?_, ?_⟩
  · subst heq
    exact asymm hbefore hbefore
  · rw [← mem_paths_iff, List.mem_flatMap]
    constructor
    · rintro ⟨distance, -, hpath⟩
      exact (List.mem_filter.mp hpath).1
    · exact fun hpath => ⟨path.length, List.mem_range.mpr (length_lt_depth hpath),
        List.mem_filter.mpr ⟨hpath, by simp⟩⟩
  · rw [breadthOrder_eq, levels, ← List.flatMap_def, List.map_flatMap, List.map_flatMap]
    simp only [map_at?_levelPaths]

/-! ## Walks step by step -/

/-- Each step of the walk with a stack takes the next node of the prefix order of what is on the
stack. -/
theorem unstack_eq_take (steps : Nat) (stack seen : List Node) :
    unstack steps stack seen = seen.reverse ++ (preorderAll stack).take steps := by
  induction steps generalizing stack seen with
  | zero => simp [unstack]
  | succ steps ih =>
    cases stack with
    | nil => simp [unstack]
    | cons node stack =>
      rw [unstack, ih, preorderAll_append, preorderAll_cons, preorder_eq]
      simp

/-- Where no node waits any more, the walk with a queue has ended. -/
theorem unqueue_of_size_le {steps next : Nat} {seen : Array Node} (h : seen.size ≤ next) :
    unqueue steps next seen = seen := by
  cases steps with
  | zero => rfl
  | succ steps => rw [unqueue, Array.getElem?_eq_none h]

/-- The walk goes on from where it has come to. -/
theorem unqueue_add (first second next : Nat) (seen : Array Node) :
    unqueue (first + second) next seen =
      unqueue second (next + first) (unqueue first next seen) := by
  induction first generalizing next seen with
  | zero => rw [Nat.zero_add, unqueue, Nat.add_zero]
  | succ first ih =>
    cases hnode : seen[next]? with
    | none =>
      have hsize : seen.size ≤ next := Array.getElem?_eq_none_iff.mp hnode
      rw [unqueue_of_size_le hsize, unqueue_of_size_le hsize, unqueue_of_size_le (by omega)]
    | some node =>
      have hnext : ∀ steps, unqueue (steps + 1) next seen =
          unqueue steps (next + 1) (seen.appendList node.children) := by
        intro steps
        rw [unqueue, hnode]
      rw [Nat.add_right_comm, hnext, hnext, ih, Nat.add_right_comm, Nat.add_assoc]

/-- What has been put in the queue stays where it is. -/
theorem prefix_unqueue (steps next : Nat) (seen : Array Node) :
    seen.toList <+: (unqueue steps next seen).toList := by
  induction steps generalizing next seen with
  | zero => exact List.prefix_rfl
  | succ steps ih =>
    rw [unqueue]
    cases seen[next]? with
    | none => exact List.prefix_rfl
    | some node =>
      refine List.IsPrefix.trans ?_ (ih (next + 1) (seen.appendList node.children))
      rw [Array.appendList_eq_append, Array.toList_appendList]
      exact List.prefix_append _ _

/-- With a step for every node the walk has come to its end. -/
theorem toList_unqueue_of_count_le {root : Node} {steps : Nat} (h : root.count ≤ steps) :
    (unqueue steps 0 #[root]).toList = root.breadthOrder := by
  obtain ⟨more, rfl⟩ := Nat.exists_eq_add_of_le h
  have hsize : (unqueue root.count 0 #[root]).size ≤ root.count := by
    rw [← Array.length_toList, ← breadthOrder, length_breadthOrder]
  rw [unqueue_add, Nat.zero_add, unqueue_of_size_le hsize, breadthOrder]

/-- Each step of the walk with a queue visits the next node of the levels. -/
theorem take_unqueue (root : Node) (steps : Nat) :
    (unqueue steps 0 #[root]).toList.take steps = root.breadthOrder.take steps := by
  rcases Nat.le_total steps root.count with hle | hge
  · obtain ⟨more, hmore⟩ := Nat.exists_eq_add_of_le hle
    have hall : root.breadthOrder = (unqueue more steps (unqueue steps 0 #[root])).toList := by
      rw [breadthOrder, hmore, unqueue_add, Nat.zero_add]
    rw [hall]
    rcases Nat.lt_or_ge (unqueue steps 0 #[root]).size steps with hsize | hsize
    · rw [unqueue_of_size_le hsize.le]
    · obtain ⟨back, hback⟩ := prefix_unqueue more steps (unqueue steps 0 #[root])
      rw [← hback, List.take_append_of_le_length (by simpa using hsize)]
  · rw [toList_unqueue_of_count_le hge]

/-! ## All that the walks tell -/

theorem countAll_eq_sum (nodes : List Node) : countAll nodes = (nodes.map count).sum := by
  induction nodes with
  | nil => rfl
  | cons node rest ih => rw [countAll_cons, ih, List.map_cons, List.sum_cons]

/-- What the two walks through a tree, its number of nodes and its depth have to do with each
other. -/
structure Traversed (root : Node) : Prop where
  inPreorder : root.prefixOrder = root.preorder
  inLevels : root.breadthOrder = root.levels.flatten
  /-- The walks visit one node after another in these orders, and end by themselves. -/
  unstacked : ∀ steps, unstack steps [root] [] = root.preorder.take steps
  unqueued : ∀ steps, (unqueue steps 0 #[root]).toList.take steps =
    root.levels.flatten.take steps
  drained : ∀ steps, root.count ≤ steps →
    (unqueue steps 0 #[root]).toList = root.levels.flatten
  /-- Both come to every place of the tree once. -/
  prefixPlaces : root.Visits (· < ·) root.prefixOrder
  breadthPlaces : root.Visits (List.Shortlex (· < ·)) root.breadthOrder
  prefixLength : root.prefixOrder.length = root.count
  breadthLength : root.breadthOrder.length = root.count
  count : root.count = 1 + (root.children.map count).sum
  /-- The levels that have nodes are those above the depth. -/
  level : ∀ distance, root.level distance ≠ [] ↔ distance < root.depth
  depth : {distance | root.level distance ≠ []}.ncard = root.depth

/-- The walks through a tree agree with each other, and with its levels, its number of nodes and its
depth. -/
theorem traversals_agree (root : Node) : root.Traversed := by
  have hlevel : ∀ distance, root.level distance ≠ [] ↔ distance < root.depth := by
    intro distance
    rw [Ne, level_eq_nil_iff, Nat.not_le]
  refine
    { inPreorder := root.prefixOrder_eq
      inLevels := root.breadthOrder_eq
      unstacked := fun steps => ?_
      unqueued := fun steps => ?_
      drained := fun steps hsteps => ?_
      prefixPlaces := root.visits_prefixOrder
      breadthPlaces := root.visits_breadthOrder
      prefixLength := ?_
      breadthLength := root.length_breadthOrder
      count := ?_
      level := hlevel
      depth := ?_ }
  · rw [unstack_eq_take]
    simp
  · rw [take_unqueue, breadthOrder_eq]
  · rw [toList_unqueue_of_count_le hsteps, breadthOrder_eq]
  · rw [prefixOrder_eq, length_preorder]
  · rw [count_eq, countAll_eq_sum]
  · have hset : {distance | root.level distance ≠ []} = Set.Iio root.depth := Set.ext hlevel
    rw [hset, Set.ncard_Iio_nat]

end Node

end FormulaEngine
