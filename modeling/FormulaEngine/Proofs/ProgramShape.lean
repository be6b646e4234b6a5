import FormulaEngine.Proofs.Emission
import FormulaEngine.Proofs.Span

/-!
# The shape of programs

Where everything stands in a compiled program. An instruction only counts its operands; that this is
enough to find every operand, every subtree and every function again is what the statements here
say.

- `Node.drop_preorderAll`: from any position on, the prefix order is one of whole subtrees;
- `Program.operandAddress?`: the address of an operand, found by measuring the operands before it;
- `Formula.subtree_programOf`, `Formula.operand_programOf`: every instruction measures the subtree
  of its node, and its operands are where the measured lengths lead;
- `Program.Represents`: a program stands for a main body and functions;
- `Formula.compile_represents`: what compilation gives stands for the bodies of the formula.
-/

namespace FormulaEngine

/-! ## Positions in prefix order -/

namespace Node

/-- Behind whole subtrees stands the root of the next one. -/
theorem getElem?_preorderAll (front : List Node) (node : Node) (back : List Node) :
    (preorderAll (front ++ node :: back))[countAll front]? = some node := by
  rw [preorderAll_append, ← length_preorderAll, List.getElem?_append_right (Nat.le_refl _),
    Nat.sub_self, preorderAll_cons, preorder_eq]
  rfl

/-- From the position of a node on, the prefix order is its subtree and then whole subtrees again.
The walk passes one node at a time, so the list of subtrees changes in the induction. -/
theorem drop_preorderAll {nodes : List Node} {i : Nat} {node : Node}
    (h : (preorderAll nodes)[i]? = some node) :
    ∃ later, (preorderAll nodes).drop i = preorderAll (node :: later) := by
  induction i generalizing nodes with
  | zero =>
    cases nodes with
    | nil => cases h
    | cons first rest =>
      rw [preorderAll_cons, preorder_eq] at h
      obtain rfl : first = node := Option.some.inj h
      exact ⟨rest, rfl⟩
  | succ i ih =>
    cases nodes with
    | nil => cases h
    | cons first rest =>
      rw [preorderAll_cons, preorder_eq, List.cons_append, ← preorderAll_append] at h ⊢
      exact ih h

/-- The children of the node at a position stand behind it, each behind the subtrees of those before
it. -/
theorem getElem?_child {nodes : List Node} {i k : Nat} {node child : Node}
    (h : (preorderAll nodes)[i]? = some node) (hchild : node.children[k]? = some child) :
    (preorderAll nodes)[i + 1 + countAll (node.children.take k)]? = some child := by
  obtain ⟨later, hdrop⟩ := drop_preorderAll h
  obtain ⟨hk, rfl⟩ := List.getElem?_eq_some_iff.mp hchild
  have hsplit : node.children ++ later =
      node.children.take k ++ node.children[k] :: (node.children.drop (k + 1) ++ later) := by
    rw [← List.cons_append, List.getElem_cons_drop, ← List.append_assoc,
      List.take_append_drop]
  rw [Nat.add_assoc, ← List.getElem?_drop, hdrop, preorderAll_cons, preorder_eq, List.cons_append,
    ← preorderAll_append, Nat.add_comm 1, List.getElem?_cons_succ, hsplit]
  exact getElem?_preorderAll _ _ _

end Node

/-! ## Entry points -/

namespace Draft

/-- A function is entered behind the bodies of the functions before it. -/
theorem addresses_eq (start : Nat) (functions : List (String × Node)) :
    addresses start functions = functions.mapIdx fun k function =>
      (function.1, start + Node.countAll ((functions.take k).map (·.2))) := by
  induction functions generalizing start with
  | nil => rfl
  | cons function rest ih =>
    rw [addresses, ih, List.mapIdx_cons]
    simp [Nat.add_assoc]

theorem getElem?_addresses {start k : Nat} {functions : List (String × Node)}
    {entry : String × Nat} (h : (addresses start functions)[k]? = some entry) :
    ∃ body, functions[k]? = some (entry.1, body) ∧
      entry.2 = start + Node.countAll ((functions.take k).map (·.2)) := by
  rw [addresses_eq, List.getElem?_mapIdx, Option.map_eq_some_iff] at h
  obtain ⟨⟨name, body⟩, hfunction, rfl⟩ := h
  exact ⟨body, hfunction, rfl⟩

/-- Every body has a node, so entry points lie apart and inside the code. -/
theorem pairwise_addresses (start : Nat) (functions : List (String × Node)) :
    (addresses start functions).Pairwise (·.2 < ·.2) ∧
      ∀ entry ∈ addresses start functions,
        start ≤ entry.2 ∧ entry.2 < start + Node.countAll (functions.map (·.2)) := by
  induction functions generalizing start with
  | nil => exact ⟨.nil, by simp [addresses]⟩
  | cons function rest ih =>
    obtain ⟨hpairwise, hinside⟩ := ih (start + function.2.count)
    have hpos := function.2.count_pos
    rw [addresses, List.map_cons, Node.countAll_cons]
    constructor
    · refine List.pairwise_cons.mpr ⟨fun entry hentry => ?_, hpairwise⟩
      show start < entry.2
      have hle := (hinside entry hentry).1
      omega
    · refine List.forall_mem_cons.mpr ⟨⟨Nat.le_refl _, ?_⟩, fun entry hentry => ?_⟩
      · show start < _
        omega
      · obtain ⟨hle, hlt⟩ := hinside entry hentry
        omega

end Draft

/-! ## Addresses of operands -/

/-- The address of operand `k` of the instruction at address `i`. The first operand stands right
behind the instruction and every other one behind the subtree of the one before. -/
def Program.operandAddress? (program : Program) (i : Nat) : (k : Nat) → Option Nat
  | 0 => some (i + 1)
  | k + 1 => do
    let address ← program.operandAddress? i k
    let length ← program.subtreeLength? address
    return address + length

namespace Formula

section Program

variable {main : Node} {functions : List (String × Node)} {i : Nat} {node : Node}

theorem size_programOf : (programOf main functions).size = (compiledNodes main functions).length := by
  simp [Program.size, programOf]

theorem getElem?_programOf (i : Nat) :
    (programOf main functions).code[i]? =
      (compiledNodes main functions)[i]?.map
        (Node.linked (Draft.addresses main.count functions)) := by
  simp [programOf]

/-- The instruction of a node measures the subtree of the node. -/
theorem subtree_programOf (h : (compiledNodes main functions)[i]? = some node) :
    (programOf main functions).subtreeLength? i = some node.count ∧
      i + node.count ≤ (programOf main functions).size := by
  obtain ⟨later, hdrop⟩ := Node.drop_preorderAll h
  have hi : ((compiledNodes main functions).take i).length = i :=
    List.length_take_of_le (Nat.le_of_lt (List.getElem?_eq_some_iff.mp h).1)
  have hlist : (programOf main functions).code.toList =
      ((compiledNodes main functions).take i).map (Node.linked (Draft.addresses main.count functions))
        ++ (node.preorder ++ Node.preorderAll later).map
          (Node.linked (Draft.addresses main.count functions)) := by
    rw [← Node.preorderAll_cons, ← hdrop, ← List.map_append]
    show _ = ((compiledNodes main functions).take i ++ (compiledNodes main functions).drop i).map _
    rw [List.take_append_drop]
    rfl
  have hstored := Stored.of_toList hlist
  rw [List.length_map, hi, List.map_append, Stored.append] at hstored
  have hargCount : ∀ node : Node, Instruction.argCount
      (node.linked (Draft.addresses main.count functions)) = node.children.length := fun _ => rfl
  exact spanLength?_stored hargCount hstored.1

/-- The lengths of the operands before it lead to an operand. -/
theorem operandAddress?_programOf (h : (compiledNodes main functions)[i]? = some node) {k : Nat}
    (hk : k ≤ node.children.length) :
    (programOf main functions).operandAddress? i k =
      some (i + 1 + Node.countAll (node.children.take k)) := by
  induction k with
  | zero => rfl
  | succ k ih =>
    have hchild : node.children[k]? = some node.children[k] := List.getElem?_eq_getElem hk
    obtain ⟨hlength, -⟩ := subtree_programOf (Node.getElem?_child h hchild)
    rw [Program.operandAddress?, ih (Nat.le_of_succ_le hk)]
    show ((programOf main functions).subtreeLength? _).bind _ = _
    rw [hlength, List.take_add_one, hchild, Node.countAll_append]
    simp [Nat.add_assoc]

theorem operand_programOf (h : (compiledNodes main functions)[i]? = some node) {k : Nat}
    {child : Node} (hchild : node.children[k]? = some child) :
    ∃ address, (programOf main functions).operandAddress? i k = some address ∧
      (compiledNodes main functions)[address]? = some child :=
  ⟨_, operandAddress?_programOf h (Nat.le_of_lt (List.getElem?_eq_some_iff.mp hchild).1),
    Node.getElem?_child h hchild⟩

/-- The subtree at an entry point is the body of the function. -/
theorem getElem?_entryPoint {k : Nat} {name : String} {body : Node}
    (h : functions[k]? = some (name, body)) :
    (compiledNodes main functions)[main.count + Node.countAll ((functions.take k).map (·.2))]? =
      some body := by
  obtain ⟨hk, hfunction⟩ := List.getElem?_eq_some_iff.mp h
  have hsplit : main :: functions.map (·.2) =
      (main :: (functions.take k).map (·.2)) ++ body :: (functions.drop (k + 1)).map (·.2) := by
    rw [List.cons_append, ← List.map_cons (f := Prod.snd) (a := (name, body)), ← List.map_append,
      ← hfunction, List.getElem_cons_drop, List.take_append_drop]
  rw [← Node.countAll_cons, compiledNodes, hsplit]
  exact Node.getElem?_preorderAll _ _ _

/-- A body ends where the next one starts, and the last one at the end of the program. -/
theorem end_entryPoint {k : Nat} {entry : String × Nat}
    (h : (programOf main functions).entryPoints[k]? = some entry) :
    ∃ length, (programOf main functions).subtreeLength? entry.2 = some length ∧
      entry.2 + length = (((programOf main functions).entryPoints[k + 1]?).map (·.2)).getD
        (programOf main functions).size := by
  obtain ⟨body, hfunction, hentry⟩ := Draft.getElem?_addresses h
  have hbody : (compiledNodes main functions)[_]? = some body := getElem?_entryPoint hfunction
  obtain ⟨hlength, -⟩ := subtree_programOf hbody
  refine ⟨body.count, by rw [hentry]; exact hlength, ?_⟩
  -- what stands before the next function is what stands before this one, and its body
  have hnext : Node.countAll ((functions.take (k + 1)).map (·.2)) =
      Node.countAll ((functions.take k).map (·.2)) + body.count := by
    rw [List.take_add_one, hfunction, List.map_append, Node.countAll_append]
    simp
  rw [hentry, Nat.add_assoc, ← hnext, size_programOf, compiledNodes, Node.length_preorderAll,
    Node.countAll_cons]
  show _ = ((Draft.addresses main.count functions)[k + 1]?.map (·.2)).getD _
  rw [Draft.addresses_eq, List.getElem?_mapIdx]
  by_cases hlast : k + 1 < functions.length
  · rw [List.getElem?_eq_getElem hlast]
    rfl
  · rw [List.getElem?_eq_none (Nat.not_lt.mp hlast), List.take_of_length_le (Nat.not_lt.mp hlast)]
    rfl

end Program

end Formula

/-! ## A formula with two functions -/

namespace TwoFunctions

/-- The sum of two calls, the second with two arguments. -/
def main : Node :=
  ⟨.addition,
    [⟨.call "square", [.leaf (.numericVariable "x" 1.0)]⟩,
      ⟨.call "second", [.leaf (.constant 1.0), .leaf (.constant 2.0)]⟩]⟩

def functions : List (String × Node) :=
  [("square", ⟨.multiplication, [.leaf (.argument 0), .leaf (.argument 0)]⟩),
    ("second", .leaf (.argument 1))]

def formula : Formula := .withFunctions main functions

theorem compile_formula : formula.compile [] = .ok (Formula.programOf main functions) := by
  refine Formula.compile_eq_ok.mpr ⟨main, functions, ?_, rfl⟩
  constructor
  · rfl
  · rfl
  · decide
  · decide
  · decide
  · decide

end TwoFunctions

/-! ## Programs as a whole -/

/-- The program stands for a main body and functions. -/
structure Program.Represents (program : Program) (main : Node) (functions : List (String × Node)) :
    Prop where
  /-- There is one instruction for every node, in prefix order, body after body. -/
  instructions : program.code.toList.map (fun i => (i.node, some i.opcode, i.argCount)) =
    (Node.preorderAll (main :: functions.map (·.2))).map
      fun node => (node, node.symbol.opcode?, node.children.length)
  bodyLength : program.bodyLength = main.count
  /-- A function is entered behind the main body and the bodies of the functions before it. -/
  entryPoints : program.entryPoints = functions.mapIdx fun k function =>
    (function.1, program.bodyLength + Node.countAll ((functions.take k).map (·.2)))
  increasing : program.entryPoints.Pairwise (·.2 < ·.2)
  inside : ∀ entry ∈ program.entryPoints, entry.2 < program.size
  /-- A call enters the function that it names, and nothing else has a target. -/
  target : ∀ i ∈ program.code.toList,
    (∀ function, i.node.symbol = .call function →
      ∃ address, (function, address) ∈ program.entryPoints ∧ i.target = some address) ∧
    ((∀ function, i.node.symbol ≠ .call function) → i.target = none)
  callStackSize : program.callStackSize =
    ((Node.preorderAll (main :: functions.map (·.2))).map fun node =>
      if node.symbol.opcode? = some .call then node.children.length + 1 else 0).sum
  /-- The subtree of an instruction has the length of its node and lies inside the code, and the
  measured lengths lead to every operand. -/
  subtree : ∀ address i, program.code[address]? = some i →
    program.subtreeLength? address = some i.node.count ∧
    address + i.node.count ≤ program.size ∧
    ∀ k child, i.node.children[k]? = some child →
      ∃ operandAddress operand, program.operandAddress? address k = some operandAddress ∧
        program.code[operandAddress]? = some operand ∧ operand.node = child
  mainSubtree : program.subtreeLength? 0 = some program.bodyLength
  /-- The subtree at an entry point ends where the next one begins. -/
  functionSubtree : ∀ k entry, program.entryPoints[k]? = some entry →
    ∃ length, program.subtreeLength? entry.2 = some length ∧
      entry.2 + length = ((program.entryPoints[k + 1]?).map (·.2)).getD program.size

namespace Formula

variable {formula : Formula} {main : Node} {functions : List (String × Node)}

/-- A call that names a function has the address of that function. -/
theorem target_linked {node : Node} {entryPoints : List (String × Nat)}
    (hdefined : node.CallDefined entryPoints) :
    (∀ function, node.symbol = .call function →
      ∃ address, (function, address) ∈ entryPoints ∧
        (node.linked entryPoints).target = some address) ∧
    ((∀ function, node.symbol ≠ .call function) → (node.linked entryPoints).target = none) := by
  constructor
  · intro function hsymbol
    obtain ⟨address, hlookup⟩ := hdefined function hsymbol
    obtain ⟨front, back, hentries, -⟩ := List.lookup_eq_some_iff.mp hlookup
    refine ⟨address, by rw [hentries]; simp, ?_⟩
    show node.target? entryPoints = _
    rw [Node.target?, hsymbol]
    exact hlookup
  · intro hsymbol
    show node.target? entryPoints = none
    unfold Node.target?
    split
    · exact absurd ‹_› (hsymbol _)
    · rfl

/-- The program of bodies that pass every check stands for these bodies. -/
theorem Compilable.represents (h : formula.Compilable main functions) :
    (programOf main functions).Represents main functions where
  instructions := by
    show ((compiledNodes main functions).map _).toArray.toList.map _ =
      (compiledNodes main functions).map _
    rw [List.map_map]
    refine List.map_congr_left fun node hnode => ?_
    obtain ⟨op, hop, -⟩ := (h.supported node hnode).opcode
    simp [Node.linked, Node.instruction, hop]
  bodyLength := rfl
  entryPoints := Draft.addresses_eq main.count functions
  increasing := (Draft.pairwise_addresses main.count functions).1
  inside := fun entry hentry => by
    rw [size_programOf, compiledNodes, Node.length_preorderAll, Node.countAll_cons]
    exact ((Draft.pairwise_addresses main.count functions).2 entry hentry).2
  target := fun i hi => by
    obtain ⟨node, hnode, rfl⟩ := List.mem_map.mp hi
    exact target_linked (h.calls node hnode)
  callStackSize := rfl
  subtree := fun address i hi => by
    rw [getElem?_programOf, Option.map_eq_some_iff] at hi
    obtain ⟨node, hnode, rfl⟩ := hi
    obtain ⟨hlength, hsize⟩ := subtree_programOf hnode
    refine ⟨hlength, hsize, fun k child hchild => ?_⟩
    obtain ⟨operandAddress, haddress, hoperand⟩ := operand_programOf hnode hchild
    exact ⟨operandAddress, _, haddress, by rw [getElem?_programOf, hoperand]; rfl, rfl⟩
  mainSubtree := (subtree_programOf (Node.getElem?_preorderAll [] main (functions.map (·.2)))).1
  functionSubtree := fun _ _ hentry => end_entryPoint hentry

/-- A compiled program stands for the main body and the functions of the formula. -/
theorem compile_represents {program : Program} (h : formula.compile [] = .ok program) :
    ∃ main functions, formula.body? = some main ∧
      formula.functions = functions.map (fun function => (function.1, some function.2)) ∧
      (functions.map (·.1)).Nodup ∧ program.Represents main functions := by
  obtain ⟨main, functions, hcompilable, rfl⟩ := compile_eq_ok.mp h
  exact ⟨main, functions, hcompilable.body_eq, hcompilable.functions_eq, hcompilable.names,
    hcompilable.represents⟩

/-- The functions are entered behind the six instructions of the main body and behind the first
function; the calls need room for two arguments and their mark, and for one. -/
theorem compile_represents_twoFunctions :
    ∃ program, TwoFunctions.formula.compile [] = .ok program ∧
      program.entryPoints = [("square", 6), ("second", 9)] ∧ program.bodyLength = 6 ∧
      program.size = 10 ∧ program.callStackSize = 5 ∧
      ∃ main functions, TwoFunctions.formula.body? = some main ∧
        TwoFunctions.formula.functions =
          functions.map (fun function => (function.1, some function.2)) ∧
        (functions.map (·.1)).Nodup ∧ program.Represents main functions :=
  ⟨_, TwoFunctions.compile_formula, by decide, by decide, by decide, by decide,
    compile_represents TwoFunctions.compile_formula⟩

end Formula

end FormulaEngine
