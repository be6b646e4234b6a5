import FormulaEngine.Node

/-!
# Prefix order

The prefix order of a node, by recursion on the tree. The program holds the nodes of a body in this
order, so the statements about compiled code are read off here.

- `Node.preorder`, `Node.preorderAll`: a node, or several, each before its children;
- `Node.prefixOrder_eq`: the walk with a stack visits the nodes in this order;
- `Node.length_preorder`: every node occurs once;
- `Node.mapSymbols`: a subtree of the same shape with other symbols, and its prefix order.
-/

namespace FormulaEngine

namespace Node

mutual

/-- The nodes of a subtree, each before its children and these from left to right. -/
def preorder : Node → List Node
  | ⟨symbol, children⟩ => ⟨symbol, children⟩ :: preorderAll children

/-- The nodes of several subtrees, one subtree after another. -/
def preorderAll : List Node → List Node
  | [] => []
  | child :: rest => preorder child ++ preorderAll rest

end

@[simp] theorem preorderAll_nil : preorderAll [] = [] := rfl

@[simp] theorem preorderAll_cons (child : Node) (rest : List Node) :
    preorderAll (child :: rest) = child.preorder ++ preorderAll rest := rfl

theorem preorder_eq (node : Node) : node.preorder = node :: preorderAll node.children := by
  cases node
  rfl

theorem preorderAll_append (front back : List Node) :
    preorderAll (front ++ back) = preorderAll front ++ preorderAll back := by
  induction front with
  | nil => rfl
  | cons child rest ih => rw [List.cons_append, preorderAll_cons, ih, preorderAll_cons,
      List.append_assoc]

theorem countAll_append (front back : List Node) :
    countAll (front ++ back) = countAll front + countAll back := by
  induction front with
  | nil => simp
  | cons child rest ih => rw [List.cons_append, countAll_cons, ih, countAll_cons, Nat.add_assoc]

theorem count_eq (node : Node) : node.count = 1 + countAll node.children := by
  cases node
  exact count_mk _ _

theorem count_pos (node : Node) : 0 < node.count := by
  rw [count_eq]
  omega

/-- Nodes that count nothing are none. -/
theorem eq_nil_of_countAll_eq_zero : ∀ {nodes : List Node}, countAll nodes = 0 → nodes = []
  | [], _ => rfl
  | child :: rest, h => by
    have hpos := count_pos child
    rw [countAll_cons] at h
    omega

mutual

/-- Every node of a subtree occurs once in its prefix order. -/
theorem length_preorder : ∀ node : Node, node.preorder.length = node.count
  | ⟨symbol, children⟩ => by
    rw [preorder, List.length_cons, length_preorderAll children, count_mk, Nat.add_comm]

theorem length_preorderAll : ∀ nodes : List Node, (preorderAll nodes).length = countAll nodes
  | [] => rfl
  | child :: rest => by
    rw [preorderAll_cons, List.length_append, length_preorder child, length_preorderAll rest,
      countAll_cons]

end

/-! ## The walk with a stack -/

/-- With a step for every node on the stack or below, the walk appends the prefix order of what is
on the stack. -/
theorem unstack_eq (steps : Nat) :
    ∀ stack seen : List Node, countAll stack = steps →
      unstack steps stack seen = seen.reverse ++ preorderAll stack := by
  induction steps with
  | zero =>
    intro stack seen h
    rw [eq_nil_of_countAll_eq_zero h, preorderAll_nil, List.append_nil, unstack]
    simp
  | succ steps ih =>
    intro stack seen h
    cases stack with
    | nil => simp at h
    | cons node stack =>
      -- the node is taken off and its children go on: one node less to visit
      have hleft : countAll (node.children ++ stack) = steps := by
        rw [countAll_cons, count_eq] at h
        rw [countAll_append]
        omega
      rw [unstack, ih _ _ hleft, preorderAll_append, preorderAll_cons, preorder_eq]
      simp

/-- The walk with a stack visits the nodes in prefix order. -/
theorem prefixOrder_eq (node : Node) : node.prefixOrder = node.preorder := by
  have hstack : countAll [node] = node.count := by rw [countAll_cons, countAll_nil, Nat.add_zero]
  rw [prefixOrder, unstack_eq _ _ _ hstack]
  simp

/-! ## Other symbols -/

mutual

/-- The subtree of the same shape with other symbols. -/
def mapSymbols (f : Symbol → Symbol) : Node → Node
  | ⟨symbol, children⟩ => ⟨f symbol, mapSymbolsAll f children⟩

/-- Several subtrees with other symbols. -/
def mapSymbolsAll (f : Symbol → Symbol) : List Node → List Node
  | [] => []
  | child :: rest => mapSymbols f child :: mapSymbolsAll f rest

end

section MapSymbols

variable (f : Symbol → Symbol)

theorem mapSymbolsAll_eq (nodes : List Node) : mapSymbolsAll f nodes = nodes.map (mapSymbols f) := by
  induction nodes with
  | nil => rfl
  | cons child rest ih => rw [mapSymbolsAll, ih, List.map_cons]

theorem mapSymbols_mk (symbol : Symbol) (children : List Node) :
    mapSymbols f ⟨symbol, children⟩ = ⟨f symbol, children.map (mapSymbols f)⟩ := by
  rw [mapSymbols, mapSymbolsAll_eq]

@[simp] theorem symbol_mapSymbols (node : Node) : (node.mapSymbols f).symbol = f node.symbol := by
  cases node
  rfl

@[simp] theorem children_mapSymbols (node : Node) :
    (node.mapSymbols f).children = node.children.map (mapSymbols f) := by
  cases node
  exact congrArg children (mapSymbols_mk f _ _)

mutual

theorem preorder_mapSymbols :
    ∀ node : Node, (node.mapSymbols f).preorder = node.preorder.map (mapSymbols f)
  | ⟨symbol, children⟩ => by
    rw [preorder_eq, preorder_eq, List.map_cons, ← preorderAll_mapSymbols children, mapSymbols_mk]

theorem preorderAll_mapSymbols :
    ∀ nodes : List Node, preorderAll (nodes.map (mapSymbols f)) =
      (preorderAll nodes).map (mapSymbols f)
  | [] => rfl
  | child :: rest => by
    rw [List.map_cons, preorderAll_cons, preorderAll_cons, List.map_append,
      preorder_mapSymbols child, preorderAll_mapSymbols rest]

end

@[simp] theorem count_mapSymbols (node : Node) : (node.mapSymbols f).count = node.count := by
  rw [← length_preorder, preorder_mapSymbols, List.length_map, length_preorder]

end MapSymbols

end Node

end FormulaEngine
