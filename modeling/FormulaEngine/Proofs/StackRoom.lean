import FormulaEngine.Proofs.CallGraph
import FormulaEngine.Proofs.Refusal
import Mathlib.Algebra.BigOperators.Group.Finset.Basic
import Mathlib.Algebra.Order.BigOperators.Group.List
import Mathlib.Algebra.Order.Group.Nat

/-!
# Room on the stack

Compilation adds up what all calls of a program ask of the stack, whether they are ever nested or
not. If no function can reach itself this is enough: at any time at most one instance of a call is
under construction or running. The sum is spent along the call graph. A subtree may use what the
calls in it ask for, and besides that what is set aside for the functions that it can reach; when
one of them is entered its share is taken out, and since it does not reach itself nothing is taken
out twice.

- `Node.stackNeed`, `Formula.stackNeed`: what the calls in a subtree, or in a function, ask for;
- `Formula.Reaches`: a function may be running while a subtree is run;
- `Formula.Fits`: the places in use leave room for a subtree and for the functions that it reaches;
- `Formula.fits_handsOn`: what a node runs fits as well;
- `Formula.Compilable.fits`: the main body fits on an empty stack;
- `Evaluation.throughout_occupied_le`: so the stack never grows beyond the sum.
-/

namespace FormulaEngine

/-! ## What calls ask for -/

namespace Node

/-- The places for the arguments and marks of all calls in a subtree. -/
def stackNeed (node : Node) : Nat := (node.preorder.map callSize).sum

/-- Several subtrees need what each of them needs. -/
theorem sum_callSize_preorderAll (nodes : List Node) :
    ((preorderAll nodes).map callSize).sum = (nodes.map stackNeed).sum := by
  induction nodes with
  | nil => rfl
  | cons node rest ih =>
    rw [preorderAll_cons, List.map_append, List.sum_append, ih, List.map_cons, List.sum_cons]
    rfl

theorem stackNeed_eq (node : Node) :
    node.stackNeed = node.callSize + (node.children.map stackNeed).sum := by
  rw [stackNeed, preorder_eq, List.map_cons, List.sum_cons, sum_callSize_preorderAll]

/-- A call and any one of its arguments find room together. -/
theorem callSize_add_stackNeed_le {node child : Node} (h : child ∈ node.children) :
    node.callSize + child.stackNeed ≤ node.stackNeed := by
  have hchild : child.stackNeed ≤ (node.children.map stackNeed).sum :=
    List.le_sum_of_mem (List.mem_map_of_mem h)
  have hnode := node.stackNeed_eq
  omega

theorem callSize_le_stackNeed (node : Node) : node.callSize ≤ node.stackNeed := by
  have hnode := node.stackNeed_eq
  omega

end Node

namespace Formula

/-- The places for all calls in a function; there are none in a function that does not exist. -/
def stackNeed (formula : Formula) (function : String) : Nat :=
  match formula.functionBody? function with
  | some body => body.stackNeed
  | none => 0

/-- A function is called in the subtree, or in a function that the subtree reaches. -/
def Reaches (formula : Formula) (node : Node) (function : String) : Prop :=
  ∃ first ∈ node.callees, Relation.ReflTransGen formula.Calls first function

/-- With `occupied` places in use, `limit` places leave room for the calls of a subtree and for those
of a set of functions that has all functions which the subtree can reach. -/
def Fits (formula : Formula) (limit : Nat) (node : Node) (occupied _depth : Nat) : Prop :=
  ∃ functions : Finset String, (∀ function, formula.Reaches node function → function ∈ functions) ∧
    occupied + node.stackNeed + ∑ function ∈ functions, formula.stackNeed function ≤ limit

variable {formula : Formula}

theorem Fits.occupied_le {limit occupied depth : Nat} {node : Node}
    (h : formula.Fits limit node occupied depth) : occupied + node.callSize ≤ limit := by
  obtain ⟨functions, -, hroom⟩ := h
  have hcall := node.callSize_le_stackNeed
  omega

theorem fits_handsOn (hnonrecursive : formula.Nonrecursive) (limit : Nat) :
    formula.HandsOn (formula.Fits limit) where
  child := by
    rintro node child occupied depth count ⟨functions, hreached, hroom⟩ hchild hcount
    refine ⟨functions, ?_, ?_⟩
    · rintro function ⟨first, hfirst, hpath⟩
      exact hreached function ⟨first, Node.callees_subset hchild hfirst, hpath⟩
    · have hboth := Node.callSize_add_stackNeed_le hchild
      omega
  body := by
    rintro node functionBody occupied depth function ⟨functions, hreached, hroom⟩ hsymbol hbody
    have hcalled : function ∈ node.callees := Node.mem_callees_of_call hsymbol
    refine ⟨functions.erase function, ?_, ?_⟩
    · -- what the function reaches is reached from the call, and it is not the function itself
      rintro other ⟨first, hfirst, hpath⟩
      have hcalls : formula.Calls function first := ⟨functionBody, hbody, hfirst⟩
      have hother : other ≠ function := by
        rintro rfl
        exact hnonrecursive other (Relation.TransGen.head' hcalls hpath)
      exact Finset.mem_erase.mpr
        ⟨hother, hreached other ⟨function, hcalled, Relation.ReflTransGen.head hcalls hpath⟩⟩
    · have hshare : formula.stackNeed function = functionBody.stackNeed := by
        rw [stackNeed, hbody]
      have hmem : function ∈ functions := hreached function ⟨function, hcalled, .refl⟩
      have htaken := Finset.add_sum_erase functions formula.stackNeed hmem
      have hcall := node.callSize_le_stackNeed
      omega

/-! ## Compiled formulas -/

section Compiled

variable {main : Node} {functions : List (String × Node)}

/-- A function that has a body is one of those that were compiled. -/
theorem Compilable.mem_functions (h : formula.Compilable main functions) {name : String}
    {body : Node} (hbody : formula.functionBody? name = some body) : (name, body) ∈ functions := by
  have hmem := mem_functions_of_functionBody? hbody
  rw [h.functions_eq] at hmem
  obtain ⟨function, hfunction, heq⟩ := List.mem_map.mp hmem
  cases heq
  exact hfunction

/-- Every function that was compiled is found under its name. -/
theorem Compilable.functionBody?_eq (h : formula.Compilable main functions) {name : String}
    {body : Node} (hmem : (name, body) ∈ functions) : formula.functionBody? name = some body := by
  refine functionBody?_of_lookup h.functions_eq ?_
  obtain ⟨front, back, hsplit⟩ := List.append_of_mem hmem
  refine List.lookup_eq_some_iff.mpr ⟨front, back, hsplit, fun earlier hearlier => ?_⟩
  -- no earlier function has the name
  have hnames := h.names
  rw [hsplit, List.map_append, List.map_cons, List.nodup_append] at hnames
  have hne := hnames.2.2 earlier.1 (List.mem_map_of_mem hearlier) name List.mem_cons_self
  simpa using Ne.symm hne

/-- Calls name functions that were compiled. -/
theorem Compilable.mem_names (h : formula.Compilable main functions) {root : Node}
    (hroot : root ∈ main :: functions.map (·.2)) {function : String}
    (hfunction : function ∈ root.callees) : function ∈ functions.map (·.1) := by
  obtain ⟨node, hnode, hsymbol⟩ := Node.mem_callees.mp hfunction
  obtain ⟨address, hlookup⟩ :=
    h.calls node (Node.mem_preorderAll_of_mem hroot hnode) function hsymbol
  rw [← Draft.names_addresses main.count functions]
  exact (lookup_isSome_iff_mem_names _ _).mp (by rw [hlookup]; rfl)

/-- Nothing but compiled functions is reached from the main body. -/
theorem Compilable.mem_names_of_reaches (h : formula.Compilable main functions) {function : String}
    (hreaches : formula.Reaches main function) : function ∈ functions.map (·.1) := by
  obtain ⟨first, hfirst, hpath⟩ := hreaches
  rcases Relation.ReflTransGen.cases_tail hpath with rfl | ⟨caller, -, body, hbody, hcallee⟩
  · exact h.mem_names List.mem_cons_self hfirst
  · have hmem : body ∈ functions.map (·.2) := List.mem_map_of_mem (h.mem_functions hbody)
    exact h.mem_names (List.mem_cons_of_mem _ hmem) hcallee

/-- The sum that compilation makes is enough for the main body and each function once. -/
theorem Compilable.fits (h : formula.Compilable main functions) :
    formula.Fits (programOf main functions).callStackSize main 0 0 := by
  have hshares : functions.map (formula.stackNeed ∘ Prod.fst) =
      functions.map (Node.stackNeed ∘ Prod.snd) := by
    refine List.map_congr_left fun function hfunction => ?_
    show formula.stackNeed function.1 = function.2.stackNeed
    rw [stackNeed, h.functionBody?_eq hfunction]
  have htotal : (programOf main functions).callStackSize =
      main.stackNeed + (functions.map (Node.stackNeed ∘ Prod.snd)).sum := by
    show ((Node.preorderAll (main :: functions.map (·.2))).map Node.callSize).sum = _
    rw [Node.sum_callSize_preorderAll, List.map_cons, List.sum_cons, List.map_map]
  refine ⟨(functions.map (·.1)).toFinset,
    fun function hreaches => List.mem_toFinset.mpr (h.mem_names_of_reaches hreaches), ?_⟩
  rw [List.sum_toFinset _ h.names, List.map_map, hshares, htotal, Nat.zero_add]

end Compiled

end Formula

/-! ## What happens on the stack -/

namespace Machine

/-- An instruction puts no more on the stack than its node asks for. -/
theorem Occurs.occupied_le {m : Machine} {entryPoints : List (String × Nat)} {data : Dataset}
    {node : Node} (hnode : node.Supported) {s t : State} {moment : Moment}
    (h : m.Occurs (node.bound entryPoints data) s moment t) :
    t.stack.occupied ≤ s.stack.occupied + node.callSize := by
  -- a call asks for its arguments and the mark of its frame
  have hcall : ∀ values : List Float, (node.bound entryPoints data).opcode.operation = .call →
      values.length ≤ (node.bound entryPoints data).argCount →
        values.length + 1 ≤ node.callSize := by
    intro values hoperation hle
    obtain ⟨function, hsymbol⟩ := Node.call_of_bound hnode hoperation
    rw [Node.callSize_of_call hsymbol]
    exact Nat.succ_le_succ hle
  cases h with
  | @pushed values _ _ called upTo =>
    have hroom := hcall values called upTo
    show (s.stack.pushAll values).occupied ≤ _
    rw [ArgumentStack.occupied_pushAll]
    omega
  | @entered values _ _ called _ _ all =>
    have hroom := hcall values called (Nat.le_of_eq all)
    show (s.stack.framed values).occupied ≤ _
    rw [ArgumentStack.occupied_framed]
    omega
  | left => exact Nat.le_add_right _ _
  | @cutOff values _ _ called _ all =>
    have hroom := hcall values called (Nat.le_of_eq all)
    show (s.stack.pushAll values).occupied ≤ _
    rw [ArgumentStack.occupied_pushAll]
    omega
  | discarded => exact Nat.le_add_right _ _

end Machine

namespace Evaluation

/-- In a run of a formula without recursion the places in use on the stack, those of frames and those
of arguments of calls under construction together, are never more than compilation has added up:
on every dataset, at every row, for every limit of nested calls. -/
theorem throughout_occupied_le {formula : Formula} {program : Program}
    (hcompile : formula.compile [] = .ok program) (hnonrecursive : formula.Nonrecursive)
    (data : Dataset) (maxCallDepth : Nat) (rows : Rows) (state : Machine.State) (row : Nat) :
    (machine ⟨program.bind data, maxCallDepth, rows, state⟩).Throughout
      (fun _ s => s.stack.occupied ≤ program.callStackSize) { cursor := row } := by
  obtain ⟨main, functions, hcompilable, rfl⟩ := Formula.compile_eq_ok.mp hcompile
  refine Machine.throughout_of_handsOn
    (Formula.fits_handsOn hnonrecursive (Formula.programOf main functions).callStackSize)
    (hcompilable.carries rfl) ?_ ?_ row hcompilable.fits
  · intro node s hfits
    have hle := hfits.occupied_le
    omega
  · intro node s moment t hnode hfits hoccurs
    have hle := hfits.occupied_le
    have hmore := hoccurs.occupied_le hnode
    omega

/-- The calls need nine places together. -/
theorem throughout_occupied_le_nested :
    Nested.formula.compile [] = .ok (Formula.programOf Nested.main Nested.functions) ∧
      Nested.formula.Nonrecursive ∧
      (Formula.programOf Nested.main Nested.functions).callStackSize = 9 ∧
      (machine ⟨(Formula.programOf Nested.main Nested.functions).bind Recall.data, 3,
          .indices [], {}⟩).Throughout
        (fun _ s => s.stack.occupied ≤
          (Formula.programOf Nested.main Nested.functions).callStackSize) { cursor := 2 } :=
  ⟨Nested.compile_formula, Nested.ranked_formula.nonrecursive, by decide,
    throughout_occupied_le Nested.compile_formula Nested.ranked_formula.nonrecursive Recall.data 3
      (.indices []) {} 2⟩

end Evaluation

end FormulaEngine
