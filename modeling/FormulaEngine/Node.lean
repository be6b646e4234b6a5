import FormulaEngine.Symbol

/-!
# Nodes

A node is a symbol over a list of child nodes.

- `Node.count`, `Node.depth`: how many nodes and how many levels a node has below and including
  itself;
- `Node.prefixOrder`: all nodes, parents before children and children from left to right, found with
  a stack of the nodes still to visit;
- `Node.breadthOrder`: all nodes level by level, found with a queue;
- `Node.text`: the node as a written formula.

`count_mk` and `countAll_cons` are the equations of `count` on the tree. The walks run once for
every node, so `count` bounds them.
-/

namespace FormulaEngine

/-- A symbol with its operands. -/
structure Node where
  symbol : Symbol
  children : List Node

namespace Node

/-- A node without children. -/
def leaf (symbol : Symbol) : Node := ⟨symbol, []⟩

/-! ## Size -/

mutual

/-- `total` and the number of nodes of a subtree. -/
def addCount (total : Nat) : Node → Nat
  | ⟨_, children⟩ => addCounts (total + 1) children

/-- `total` and the number of nodes of several subtrees. -/
def addCounts (total : Nat) : List Node → Nat
  | [] => total
  | child :: rest => addCounts (addCount total child) rest

end

/-- The number of nodes of the subtree, itself included. -/
def count (node : Node) : Nat := addCount 0 node

/-- The number of nodes of several subtrees. -/
def countAll (nodes : List Node) : Nat := addCounts 0 nodes

mutual

theorem addCount_eq (total : Nat) : ∀ node, addCount total node = total + count node
  | ⟨_, children⟩ => by
    simp only [count, addCount]
    rw [addCounts_eq, addCounts_eq 1]
    omega

theorem addCounts_eq (total : Nat) : ∀ nodes, addCounts total nodes = total + countAll nodes
  | [] => rfl
  | child :: rest => by
    simp only [countAll, addCounts]
    rw [addCounts_eq, addCounts_eq (addCount 0 child), addCount_eq, addCount_eq 0]
    omega

end

@[simp] theorem count_mk (symbol : Symbol) (children : List Node) :
    count ⟨symbol, children⟩ = 1 + countAll children := by
  rw [count, addCount, addCounts_eq]

@[simp] theorem countAll_nil : countAll [] = 0 := rfl

@[simp] theorem countAll_cons (node : Node) (rest : List Node) :
    countAll (node :: rest) = count node + countAll rest := by
  rw [countAll, addCounts, addCounts_eq, addCount_eq, Nat.zero_add]

mutual

/-- The number of levels of the subtree; a leaf has one. -/
def depth : Node → Nat
  | ⟨_, children⟩ => 1 + maxDepth 0 children

/-- The larger of `least` and the depths of several subtrees. -/
def maxDepth (least : Nat) : List Node → Nat
  | [] => least
  | child :: rest => maxDepth (max least (depth child)) rest

end

/-! ## Orders of visit -/

/-- Takes `steps` nodes off the stack, one after another, and puts the children of each on top of
it; `seen` holds the nodes taken, the last one first. -/
def unstack : (steps : Nat) → (stack seen : List Node) → List Node
  | steps + 1, node :: stack, seen => unstack steps (node.children ++ stack) (node :: seen)
  | _, _, seen => seen.reverse

/-- All nodes, each before its children and these from left to right. -/
def prefixOrder (node : Node) : List Node := unstack node.count [node] []

/-- Appends the children of the nodes from position `next` on, for `steps` nodes. What has been
appended and not visited is the queue. -/
def unqueue : (steps next : Nat) → (seen : Array Node) → Array Node
  | 0, _, seen => seen
  | steps + 1, next, seen =>
    match seen[next]? with
    | some node => unqueue steps (next + 1) (seen.appendList node.children)
    | none => seen

/-- All nodes, level by level and each level from left to right. -/
def breadthOrder (node : Node) : List Node := (unqueue node.count 0 #[node]).toList

/-! ## Text -/

mutual

/-- `text` followed by the text of a node. -/
def appendText (text : String) : Node → String
  | ⟨symbol, []⟩ => text ++ symbol.label
  | ⟨symbol, first :: rest⟩ =>
    appendTexts (appendText (text ++ symbol.label ++ "(") first) rest ++ ")"

/-- `text` followed by the texts of further operands, a comma before each. -/
def appendTexts (text : String) : List Node → String
  | [] => text
  | child :: rest => appendTexts (appendText (text ++ ", ") child) rest

end

/-- The node as a written formula, `f(a, b)`. -/
def text (node : Node) : String := appendText "" node

end Node

end FormulaEngine
