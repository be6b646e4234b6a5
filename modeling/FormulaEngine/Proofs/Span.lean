import FormulaEngine.Program
import FormulaEngine.Proofs.PrefixOrder

/-!
# Stored subtrees

What it means that code holds a list from an address on, and how far the walk over whole subtrees
gets on code that holds subtrees in prefix order. The walk counts operands only; it knows nothing of
the tree.

- `Stored`: the code holds a list of items from an address on;
- `spanEnd?_stored`: over stored subtrees the walk goes to the address behind them;
- `spanEnd?_stored_one`: so from the start of a subtree it goes over all of its nodes;
- `spanLength?_stored`: and the length that it measures there is the number of nodes.
-/

namespace FormulaEngine

variable {α β : Type}

/-- From the address `start` on, `code` holds `items`. -/
def Stored (code : Array α) : (start : Nat) → (items : List α) → Prop
  | _, [] => True
  | start, item :: rest => code[start]? = some item ∧ Stored code (start + 1) rest

namespace Stored

variable {code : Array α}

theorem append {start : Nat} {front back : List α} :
    Stored code start (front ++ back) ↔
      Stored code start front ∧ Stored code (start + front.length) back := by
  induction front generalizing start with
  | nil => simp [Stored]
  | cons item rest ih =>
    have hlen : start + 1 + rest.length = start + (item :: rest).length := by
      rw [List.length_cons]
      omega
    rw [List.cons_append, Stored, Stored, ih, hlen, and_assoc]

/-- What is stored lies inside the code. -/
theorem le_size {start : Nat} {items : List α} (h : Stored code start items)
    (hne : items ≠ []) : start + items.length ≤ code.size := by
  induction items generalizing start with
  | nil => exact absurd rfl hne
  | cons item rest ih =>
    obtain ⟨hitem, hrest⟩ := h
    have hlt : start < code.size := (Array.getElem?_eq_some_iff.mp hitem).1
    rw [List.length_cons]
    cases rest with
    | nil => exact hlt
    | cons next rest =>
      have hle := ih hrest (List.cons_ne_nil _ _)
      omega

/-- Code holds the suffixes of its own list of items. -/
theorem of_toList {front back : List α} (h : code.toList = front ++ back) :
    Stored code front.length back := by
  induction back generalizing front with
  | nil => trivial
  | cons item rest ih =>
    refine ⟨?_, ?_⟩
    · rw [← Array.getElem?_toList, h, List.getElem?_append_right (Nat.le_refl _), Nat.sub_self]
      rfl
    · have hcode : code.toList = (front ++ [item]) ++ rest := by
        rw [h, List.append_assoc]
        rfl
      have hrest := ih hcode
      rwa [List.length_append] at hrest

/-- Changing all code changes what is stored. -/
theorem map {start : Nat} {items : List α} (f : α → β) (h : Stored code start items) :
    Stored (code.map f) start (items.map f) := by
  induction items generalizing start with
  | nil => trivial
  | cons item rest ih =>
    refine ⟨?_, ih h.2⟩
    rw [Array.getElem?_map, h.1]
    rfl

end Stored

/-! ## Walks over stored subtrees -/

section Walk

variable {argCount : α → Nat} {code : Array α} {item : Node → α}

/-- The walk goes over stored subtrees to what stands behind them. Every node brings its children
into the count of subtrees to go, so the induction is on the number of nodes and the list of
subtrees changes with it. -/
theorem spanEnd?_stored (hitem : ∀ node, argCount (item node) = node.children.length)
    (steps : Nat) :
    ∀ {nodes : List Node} {start : Nat} (left pending : Nat), Node.countAll nodes = steps →
      Stored code start ((Node.preorderAll nodes).map item) →
      spanEnd? argCount code (left + steps) (nodes.length + pending) start =
        spanEnd? argCount code left pending (start + steps) := by
  induction steps with
  | zero =>
    intro nodes start left pending hcount _
    rw [Node.eq_nil_of_countAll_eq_zero hcount]
    simp
  | succ steps ih =>
    intro nodes start left pending hcount hstored
    cases nodes with
    | nil => simp at hcount
    | cons node rest =>
      -- the subtrees to go are now those of the children, in front of the others
      have hleft : Node.countAll (node.children ++ rest) = steps := by
        rw [Node.countAll_cons, Node.count_eq] at hcount
        rw [Node.countAll_append]
        omega
      rw [Node.preorderAll_cons, Node.preorder_eq, List.cons_append, ← Node.preorderAll_append,
        List.map_cons] at hstored
      have hpending : rest.length + pending + argCount (item node) =
          (node.children ++ rest).length + pending := by
        rw [hitem, List.length_append]
        omega
      have hstart : start + 1 + steps = start + (steps + 1) := by omega
      rw [List.length_cons, Nat.add_right_comm rest.length, ← Nat.add_assoc left, spanEnd?,
        hstored.1]
      show spanEnd? argCount code (left + steps) (rest.length + pending + argCount (item node))
        (start + 1) = _
      rw [hpending, ih left pending hleft hstored.2, hstart]

/-- The walk from the start of a stored subtree ends behind it, if it may take enough steps. -/
theorem spanEnd?_stored_one (hitem : ∀ node, argCount (item node) = node.children.length)
    {node : Node} {start left : Nat} (hleft : node.count ≤ left)
    (hstored : Stored code start (node.preorder.map item)) :
    spanEnd? argCount code left 1 start = some (start + node.count) := by
  obtain ⟨rest, rfl⟩ : ∃ rest, left = rest + node.count := ⟨left - node.count, by omega⟩
  have hone : Node.countAll [node] = node.count := by simp
  have hspan := spanEnd?_stored hitem node.count rest 0 hone
    (by simpa using hstored)
  rw [List.length_singleton] at hspan
  rw [hspan]
  cases rest <;> rfl

/-- A stored subtree has the length of its nodes. -/
theorem spanLength?_stored (hitem : ∀ node, argCount (item node) = node.children.length)
    {node : Node} {start : Nat} (hstored : Stored code start (node.preorder.map item)) :
    spanLength? argCount code start = some node.count ∧ start + node.count ≤ code.size := by
  have hsize := hstored.le_size (by rw [Node.preorder_eq]; exact List.cons_ne_nil _ _)
  rw [List.length_map, Node.length_preorder] at hsize
  rw [Node.preorder_eq, List.map_cons] at hstored
  -- behind the root the walk has as many subtrees to go as the root has children
  obtain ⟨rest, hrest⟩ : ∃ rest, code.size - start = rest + Node.countAll node.children :=
    ⟨code.size - start - Node.countAll node.children, by rw [Node.count_eq] at hsize; omega⟩
  have hspan := spanEnd?_stored hitem _ rest 0 rfl hstored.2
  have hstop : start + 1 + Node.countAll node.children - start = node.count := by
    rw [Node.count_eq]
    omega
  refine ⟨?_, hsize⟩
  rw [spanLength?, hstored.1]
  show (spanEnd? argCount code (code.size - start) (argCount (item node)) (start + 1)).bind _ = _
  rw [hitem, hrest, ← Nat.add_zero node.children.length, hspan]
  cases rest <;> exact congrArg some hstop

end Walk

end FormulaEngine
