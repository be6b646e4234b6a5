import FormulaEngine.Proofs.Lockstep
import Mathlib.Logic.Relation

/-!
# Functions that call functions

Which functions a body calls is written in the tree, and a run of compiled code goes by the tree: an
instruction runs children of its node, or the body of the function that its node calls. So what is
said of a node, of the places in use on the stack and of the number of functions running, and what
every node hands on to the nodes that it runs, is true before every fetch.

- `Node.callees`: the functions that are called in a subtree;
- `Formula.Calls`: one function calls another one;
- `Formula.Nonrecursive`: no function reaches itself through calls;
- `Formula.Ranked`: a criterion for this that looks at one body at a time;
- `Formula.HandsOn`: a statement is true of what a node runs, if it is true of the node;
- `Machine.leads_of_starts`: the nodes that the instruction of a node starts;
- `Machine.run_endsAs_of_leads`: another way to run a node ends the same, if it does so for every
  instruction at which a statement is true that nodes hand on;
- `Machine.throughout_of_handsOn`: a run from a node of which it is true is in allowed states
  throughout, if the statement allows what happens at every node.
-/

namespace FormulaEngine

/-! ## Calls in the tree -/

namespace Node

/-- The functions that the calls in a subtree name. -/
def callees (node : Node) : List String :=
  node.preorder.filterMap fun inner =>
    match inner.symbol with
    | .call function => some function
    | _ => none

theorem mem_preorderAll_of_mem {inner child : Node} {nodes : List Node} (hchild : child ∈ nodes)
    (hinner : inner ∈ child.preorder) : inner ∈ preorderAll nodes := by
  induction nodes with
  | nil => cases hchild
  | cons first rest ih =>
    rw [preorderAll_cons, List.mem_append]
    rcases List.mem_cons.mp hchild with rfl | hrest
    · exact Or.inl hinner
    · exact Or.inr (ih hrest)

theorem mem_callees {node : Node} {function : String} :
    function ∈ node.callees ↔ ∃ inner ∈ node.preorder, inner.symbol = .call function := by
  unfold callees
  rw [List.mem_filterMap]
  refine exists_congr fun inner => and_congr_right fun _ => ?_
  split
  · next called hsymbol => simp [hsymbol]
  · next hother => simpa using hother function

/-- A call names its function. -/
theorem mem_callees_of_call {node : Node} {function : String} (h : node.symbol = .call function) :
    function ∈ node.callees :=
  mem_callees.mpr ⟨node, by rw [preorder_eq]; exact List.mem_cons_self, h⟩

/-- What is called in a child is called in the subtree. -/
theorem callees_subset {node child : Node} (h : child ∈ node.children) :
    child.callees ⊆ node.callees := by
  intro function hfunction
  obtain ⟨inner, hinner, hsymbol⟩ := mem_callees.mp hfunction
  refine mem_callees.mpr ⟨inner, ?_, hsymbol⟩
  rw [preorder_eq]
  exact List.mem_cons_of_mem _ (mem_preorderAll_of_mem h hinner)

end Node

namespace Formula

variable {formula : Formula}

/-- A function that has a body is one of those that the formula defines. -/
theorem mem_functions_of_functionBody? {name : String} {body : Node}
    (h : formula.functionBody? name = some body) : (name, some body) ∈ formula.functions := by
  have hlookup : formula.functions.lookup name = some (some body) := Option.join_eq_some_iff.mp h
  obtain ⟨front, back, hfunctions, -⟩ := List.lookup_eq_some_iff.mp hlookup
  rw [hfunctions]
  simp

/-- A call of `callee` occurs in the body of `caller`. -/
def Calls (formula : Formula) (caller callee : String) : Prop :=
  ∃ body, formula.functionBody? caller = some body ∧ callee ∈ body.callees

/-- No function can reach itself through calls, directly or through other functions. -/
def Nonrecursive (formula : Formula) : Prop :=
  ∀ function, ¬ Relation.TransGen formula.Calls function function

/-- Every function calls functions of lower ranks only. -/
def Ranked (formula : Formula) (rank : String → Nat) : Prop :=
  ∀ function ∈ formula.functions, ∀ body ∈ function.2, ∀ callee ∈ body.callees,
    rank callee < rank function.1

theorem Ranked.lt {rank : String → Nat} (h : formula.Ranked rank) {caller callee : String}
    (hcalls : formula.Calls caller callee) : rank callee < rank caller := by
  obtain ⟨body, hbody, hcallee⟩ := hcalls
  exact h (caller, some body) (mem_functions_of_functionBody? hbody) body rfl callee hcallee

/-- With falling ranks no function comes back to itself. -/
theorem Ranked.nonrecursive {rank : String → Nat} (h : formula.Ranked rank) :
    formula.Nonrecursive := by
  have hfalls : ∀ {first last : String}, Relation.TransGen formula.Calls first last →
      rank last < rank first := by
    intro first last hpath
    induction hpath with
    | single hcalls => exact h.lt hcalls
    | tail _ hcalls ih => exact Nat.lt_trans (h.lt hcalls) ih
  exact fun function hcycle => Nat.lt_irrefl _ (hfalls hcycle)

/-! ## What nodes hand on -/

/-- What is said of a node, of the places in use when its instruction is fetched and of the number
of functions running then, is also true of its children, with arguments of a call put aside, and of
the function that it calls, within its frame. -/
structure HandsOn (formula : Formula) (inv : Node → (occupied depth : Nat) → Prop) : Prop where
  child : ∀ {node child : Node} {occupied depth count : Nat}, inv node occupied depth →
    child ∈ node.children → count ≤ node.callSize → inv child (occupied + count) depth
  body : ∀ {node functionBody : Node} {occupied depth : Nat} {function : String},
    inv node occupied depth → node.symbol = .call function →
      formula.functionBody? function = some functionBody →
        inv functionBody (occupied + node.callSize) (depth + 1)

end Formula

/-- Only an instruction that has an operand runs it at another row. -/
theorem BoundInstruction.Shifts.operandCount_pos {i : BoundInstruction} {offset : Int}
    (h : i.Shifts offset) : 0 < i.opcode.operation.operandCount i.argCount := by
  unfold Shifts at h
  split at h
  · next hoperation _ => rw [hoperation]; exact Nat.one_pos
  · next hoperation _ => rw [hoperation]; exact Nat.one_pos
  · next hoperation => rw [hoperation]; exact Nat.one_pos
  · exact h.elim

/-- An instruction that calls belongs to a call. -/
theorem Node.call_of_bound {entryPoints : List (String × Nat)} {data : Dataset} {node : Node}
    (hnode : node.Supported) (h : (node.bound entryPoints data).opcode.operation = .call) :
    ∃ function, node.symbol = .call function := by
  obtain ⟨op, hop, -⟩ := hnode.opcode
  have hopcode : (node.bound entryPoints data).opcode = op := Node.opcode_linked entryPoints hop
  rw [hopcode] at h
  obtain rfl := Opcode.eq_call h
  exact Symbol.eq_call hop

theorem Node.callSize_of_call {node : Node} {function : String}
    (h : node.symbol = .call function) : node.callSize = node.children.length + 1 := by
  unfold callSize
  rw [h]
  rfl

namespace Machine

variable {m : Machine} {formula : Formula} {entryPoints : List (String × Nat)} {data : Dataset}
  {main node : Node} {s : State}

/-- Where a way over subtrees ends, the next one of those that are held begins. -/
theorem Holds.operand {count pc stop : Nat} {nodes : List Node}
    (h : m.Holds entryPoints data pc nodes) (hpasses : m.Passes count pc stop)
    (hlt : count < nodes.length) : m.Holds entryPoints data stop [nodes[count]] := by
  have hsplit : nodes = nodes.take count ++ nodes[count] :: nodes.drop (count + 1) := by
    rw [List.getElem_cons_drop, List.take_append_drop]
  rw [hsplit] at h
  obtain ⟨hfront, hback⟩ := Holds.append.mp h
  rw [hpasses.stop_eq (List.length_take_of_le (Nat.le_of_lt hlt)) hfront]
  exact (Holds.cons.mp hback).1

/-- What the instruction of a node, fetched in `s`, runs in `t`: a child of the node, at a row that a
lag may lead to and with arguments of a call put aside, or the body of the function that the node
calls, in its frame. -/
inductive Leads (m : Machine) (formula : Formula) (node : Node) (s t : State) : Node → Prop where
  | child {child : Node} (mem : child ∈ node.children)
      (room : ∃ count ≤ node.callSize, t.stack.occupied = s.stack.occupied + count)
      (depth : t.callDepth = s.callDepth)
      (near : s.cursor - lagReach ≤ t.cursor ∧ t.cursor ≤ s.cursor + lagReach) :
      Leads m formula node s t child
  | body {function : String} {functionBody : Node} (called : node.symbol = .call function)
      (found : formula.functionBody? function = some functionBody)
      (room : t.stack.occupied = s.stack.occupied + node.callSize)
      (depth : t.callDepth = s.callDepth + 1 ∧ s.callDepth < m.maxCallDepth)
      (here : t.cursor = s.cursor) : Leads m formula node s t functionBody

/-- Wherever the instruction of a node starts something, there is a node again: a child or a
function. -/
theorem leads_of_starts (hcarries : m.Carries formula data entryPoints main)
    (hholds : m.Holds entryPoints data s.pc [node]) {t : State}
    (h : m.Starts (node.bound entryPoints data) (s.advance 1 1) t) :
    ∃ next, m.Holds entryPoints data t.pc [next] ∧ m.Leads formula node s t next := by
  obtain ⟨-, hsupported, hdefined, hchildren⟩ := hholds.root
  obtain ⟨op, hop, haccepts⟩ := hsupported.opcode
  have hopcode : (node.bound entryPoints data).opcode = op := Node.opcode_linked entryPoints hop
  have hcount : (node.bound entryPoints data).opcode.operation.operandCount
      (node.bound entryPoints data).argCount = node.children.length := by
    rw [hopcode, Node.argCount_bound, Opcode.operandCount_of_accepts haccepts]
  have hhere : ∀ cursor : Int, cursor - lagReach ≤ cursor ∧ cursor ≤ cursor + lagReach := by
    unfold lagReach
    omega
  cases h with
  | operand more before =>
    rw [hcount] at more
    exact ⟨_, hchildren.operand before more,
      .child (List.getElem_mem more) ⟨0, Nat.zero_le _, rfl⟩ rfl (hhere _)⟩
  | @shifted offset executed reached =>
    have hone := reached.operandCount_pos
    rw [hcount] at hone
    have hoffset := reached.within
    refine ⟨_, hchildren.operand (.nothing _) hone,
      .child (List.getElem_mem hone) ⟨0, Nat.zero_le _, rfl⟩ rfl ?_⟩
    show s.cursor - lagReach ≤ s.cursor + offset ∧ s.cursor + offset ≤ s.cursor + lagReach
    omega
  | @argument values pc executed called more before =>
    obtain ⟨function, hsymbol⟩ := Node.call_of_bound hsupported called
    rw [Node.argCount_bound] at more
    refine ⟨_, hchildren.operand before more,
      .child (List.getElem_mem more) ⟨values.length, ?_, ?_⟩ rfl (hhere _)⟩
    · rw [Node.callSize_of_call hsymbol]
      omega
    · exact ArgumentStack.occupied_pushAll values s.stack
  | @body values target executed called jumps room all =>
    obtain ⟨function, hsymbol⟩ := Node.call_of_bound hsupported called
    obtain ⟨address, hlookup⟩ := hdefined function hsymbol
    obtain ⟨functionBody, hbody, hstop⟩ := hcarries.function function address hlookup
    rw [Node.data_of_call data hsymbol hlookup] at jumps
    cases jumps
    refine ⟨functionBody, hstop, .body hsymbol hbody ?_ ⟨rfl, room⟩ rfl⟩
    rw [Node.argCount_bound] at all
    rw [Node.callSize_of_call hsymbol, ← all]
    exact ArgumentStack.occupied_framed values s.stack

/-- Another way to run a node ends as the machine does, if its instructions do wherever what they
start does, at nodes and states of which something is true that is handed on to all that they start.
The induction is on the steps: what an instruction starts is run with one step less. -/
theorem run_endsAs_of_leads (inv : Node → State → Prop) {other : Nat → Action Float}
    (hcarries : m.Carries formula data entryPoints main)
    (hleads : ∀ {node next s t}, inv node s → m.Leads formula node s t next → inv next t)
    (hstep : ∀ {node s} steps, m.code[s.pc]? = some (node.bound entryPoints data) →
      node.Supported → inv node s →
      (∀ t, m.Starts (node.bound entryPoints data) (s.advance 1 1) t →
        EndsAs t (m.run steps) (other steps)) →
      EndsAs s (m.run (steps + 1)) (other (steps + 1)))
    (steps : Nat) (hholds : m.Holds entryPoints data s.pc [node]) (hnode : inv node s) :
    EndsAs s (m.run steps) (other steps) := by
  induction steps generalizing s node with
  | zero =>
    intro outcome h
    cases h
  | succ steps ih =>
    obtain ⟨hcode, hsupported, -, -⟩ := hholds.root
    refine hstep steps hcode hsupported hnode fun t ht => ?_
    obtain ⟨next, hnext, hnodeLeads⟩ := leads_of_starts hcarries hholds ht
    exact ih hnext (hleads hnode hnodeLeads)

section Carried

variable {inv : Node → (occupied depth : Nat) → Prop} (hinv : formula.HandsOn inv)
  (hcarries : m.Carries formula data entryPoints main)

include hinv

/-- What is handed on reaches whatever the instruction of a node starts. -/
theorem inv_of_leads {next : Node} {t : State} (hnode : inv node s.stack.occupied s.callDepth)
    (h : m.Leads formula node s t next) : inv next t.stack.occupied t.callDepth := by
  cases h with
  | child mem room depth near =>
    obtain ⟨count, hcount, hroom⟩ := room
    rw [hroom, depth]
    exact hinv.child hnode mem hcount
  | body called found room depth here =>
    rw [room, depth.1]
    exact hinv.body hnode called found

variable {allowed : Moment → State → Prop} [∀ moment, DecidablePred (allowed moment)]
  (hfetch : ∀ node s, inv node s.stack.occupied s.callDepth → allowed .fetch s)
  (hlook : ∀ node s moment t, node.Supported → inv node s.stack.occupied s.callDepth →
    m.Occurs (node.bound entryPoints data) s moment t → allowed moment t)

include hcarries hfetch hlook

/-- Every run of a held node of which the statement is true comes through observation. -/
theorem runObserved_of_handsOn (steps : Nat) (hholds : m.Holds entryPoints data s.pc [node])
    (hnode : inv node s.stack.occupied s.callDepth) :
    EndsAs s (m.run steps) (m.runObserved allowed steps) := by
  refine run_endsAs_of_leads (fun node s => inv node s.stack.occupied s.callDepth) hcarries
    (inv_of_leads hinv) (fun {node s} steps hcode hsupported hnode hstarts => ?_) steps hholds hnode
  rw [← runObserved_true]
  refine look_endsAs (fun _ => hfetch node s hnode) (endsAs_after m.fetch fun i s' hrun => ?_)
  rw [fetch_eq hcode] at hrun
  cases hrun
  rw [runObserved_true]
  exact performObserved_endsAs (balances_run m steps) hstarts fun moment t ht _ =>
    hlook node (s.advance 1 1) moment t hsupported hnode ht

/-- So a run of the main body is in allowed states throughout, if the statement is true at its
start. -/
theorem throughout_of_handsOn (row : Int) (hmain : inv main 0 0) :
    m.Throughout allowed { cursor := row } :=
  throughout_of_endsAs
    (runObserved_of_handsOn hinv hcarries hfetch hlook _ hcarries.body_holds hmain)

end Carried

end Machine

/-! ## A formula with nested calls -/

namespace Nested

/-- An argument of the outer call is a call itself. -/
def main : Node :=
  ⟨.call "outer", [⟨.call "inner", [.leaf (.constant 3.0)]⟩, .leaf (.numericVariable "x" 1.0)]⟩

/-- One function calls the other one twice. -/
def functions : List (String × Node) :=
  [("inner", ⟨.square, [.leaf (.argument 0)]⟩),
    ("outer",
      ⟨.addition,
        [⟨.call "inner", [⟨.addition, [.leaf (.argument 0), .leaf (.argument 1)]⟩]⟩,
          ⟨.call "inner", [.leaf (.argument 1)]⟩]⟩)]

def formula : Formula := .withFunctions main functions

theorem compile_formula : formula.compile [] = .ok (Formula.programOf main functions) := by
  refine Formula.compile_eq_ok.mpr ⟨main, functions, ?_, rfl⟩
  constructor
  · rfl
  · rfl
  · decide
  · decide
  · decide
  · decide

def rank (function : String) : Nat := if function = "outer" then 1 else 0

theorem ranked_formula : formula.Ranked rank := by
  unfold Formula.Ranked
  decide

end Nested

end FormulaEngine
