import FormulaEngine.Proofs.Correctness
import FormulaEngine.Proofs.ProgramShape

/-!
# Subtrees run on their own

Every address of a compiled program is the start of a subtree, and the machine may be started there
in any state in which a run of the program fetches an instruction. What it comes to is the meaning of
the subtree, for the frame, the cursor and the number of running functions that the state has.

- `Machine.Holds.subtree`: where code holds subtrees, it holds every subtree of theirs;
- `Machine.State.scope`: what the subtrees that are started in a state see;
- `Machine.OperandValues`: the values that the operands of an instruction have of their own;
- `Evaluation.evaluate_at`: a run from any address ends with the meaning of the subtree there;
- `Evaluation.evaluate_marked`: so it does when the cursor is marked as moved where it stands;
- `Evaluation.operandValues`: operands have the meanings of the children of the node;
- `Evaluation.evaluate_elsewhere`: a subtree of another program means the same if its functions do.
-/

namespace FormulaEngine

namespace Machine

/-- Where code holds subtrees, it holds the subtree of any node of theirs at the position of the
node. -/
theorem Holds.subtree {m : Machine} {entryPoints : List (String × Nat)} {data : Dataset}
    {start k : Nat} {nodes : List Node} {node : Node} (h : m.Holds entryPoints data start nodes)
    (hnode : (Node.preorderAll nodes)[k]? = some node) :
    m.Holds entryPoints data (start + k) [node] := by
  obtain ⟨later, hdrop⟩ := Node.drop_preorderAll hnode
  have hsplit : Node.preorderAll nodes =
      (Node.preorderAll nodes).take k ++ (Node.preorderAll [node] ++ Node.preorderAll later) := by
    rw [← Node.preorderAll_append, List.singleton_append, ← hdrop, List.take_append_drop]
  have hlength : (((Node.preorderAll nodes).take k).map (Node.bound entryPoints data)).length = k := by
    rw [List.length_map]
    exact List.length_take_of_le (Nat.le_of_lt (List.getElem?_eq_some_iff.mp hnode).1)
  obtain ⟨hstored, hsupported, hcalls⟩ := h
  rw [hsplit] at hstored hsupported hcalls
  rw [List.map_append, List.map_append, Stored.append, hlength, Stored.append] at hstored
  exact ⟨hstored.2.1, (List.forall_mem_append.mp (List.forall_mem_append.mp hsupported).2).1,
    (List.forall_mem_append.mp (List.forall_mem_append.mp hcalls).2).1⟩

/-- What the subtrees that are started in a state see: the innermost frame, and the functions with
the calls that may still be nested. -/
def State.scope (s : State) (m : Machine) (formula : Formula) (data : Dataset) : Scope :=
  formula.scope data (m.maxCallDepth - s.callDepth) s.stack.innermost

/-- The values that the operands of the instruction at the program counter have of their own, each
started at its own address. -/
structure OperandValues (m : Machine) (program : Program) (s : State) (values : List Float) :
    Prop where
  length : ∃ i, program.code[s.pc]? = some i ∧ values.length = i.argCount
  value : ∀ k value, values[k]? = some value → ∃ address after,
    program.operandAddress? s.pc k = some address ∧
      m.evaluate { s with pc := address } = .done value after

end Machine

namespace Evaluation

open Machine

section Compiled

variable {formula : Formula} {main : Node} {functions : List (String × Node)} {data : Dataset}
  {evaluation : Evaluation} {row : Nat} (h : formula.Compilable main functions)
  (hprogram : evaluation.program = (Formula.programOf main functions).bind data)
  (hdata : data.Rectangular) (hrow : row < data.rows)

include h hprogram

theorem loaded : evaluation.machine.Loaded formula data (Draft.addresses main.count functions) main := by
  refine ⟨h.carries ?_, ?_⟩
  · rw [← hprogram]
    rfl
  · show evaluation.program.rows = data.rows
    rw [hprogram]
    rfl

/-- At an address stands the subtree of the node there. -/
theorem holds_at {address : Nat} {node : Node}
    (hnode : (Formula.compiledNodes main functions)[address]? = some node) :
    evaluation.machine.Holds (Draft.addresses main.count functions) data address [node] := by
  have hcode : evaluation.machine.code = ((Formula.programOf main functions).bind data).code := by
    rw [← hprogram]
    rfl
  have hholds := (h.holds hcode).subtree hnode
  rwa [Nat.zero_add] at hholds

include hdata hrow

/-- A run at a row of the dataset fetches instructions in startable states only. -/
theorem always_startable :
    evaluation.machine.Always (State.Startable evaluation.machine row) { cursor := row } := by
  have hloaded := loaded h hprogram
  exact always_of_startable hloaded hdata (hloaded.rows ▸ hrow) fun _ hs => hs

variable {s : State} {node : Node} (hanchored : s.Anchored row) (hframed : s.stack.Framed)
  (hnode : (Formula.compiledNodes main functions)[s.pc]? = some node)

include hanchored hframed hnode

/-- The run from any address ends with the meaning of the subtree there, as long as the cursor stands
at the row or a lag is under way. -/
theorem evaluate_at : ∃ after, evaluation.machine.evaluate s =
    .done (node.value (s.scope evaluation.machine formula data) s.cursor) after := by
  have hloaded := loaded h hprogram
  have hgrounded : s.Grounded evaluation.machine data row :=
    fun hplain => ⟨hanchored hplain, hloaded.rows ▸ hrow, hdata⟩
  exact ⟨_, evaluate_subtree hloaded hframed hgrounded (holds_at h hprogram hnode)⟩

/-- Marking the cursor as moved where it stands does not change the value, although columns are read
with a check from then on, in the functions that are called below, too. -/
theorem evaluate_marked : ∃ value after after', evaluation.machine.evaluate s = .done value after ∧
    evaluation.machine.evaluate { s with lagged := true } = .done value after' := by
  obtain ⟨after, hafter⟩ := evaluate_at h hprogram hdata hrow hanchored hframed hnode
  have hmoved : State.Anchored row { s with lagged := true } := by
    intro hplain
    cases hplain
  obtain ⟨after', hafter'⟩ :=
    @evaluate_at _ _ _ _ _ _ h hprogram hdata hrow { s with lagged := true } _ hmoved hframed hnode
  exact ⟨_, after, after', hafter, hafter'⟩

/-- The operands of an instruction have the meanings of the children of its node, whichever of them
the instruction itself goes on to run. -/
theorem operandValues : evaluation.machine.OperandValues (Formula.programOf main functions) s
    (node.children.map fun child =>
      child.value (s.scope evaluation.machine formula data) s.cursor) := by
  constructor
  · refine ⟨_, by rw [Formula.getElem?_programOf, hnode]; rfl, ?_⟩
    rw [List.length_map]
    rfl
  · intro k value hvalue
    rw [List.getElem?_map, Option.map_eq_some_iff] at hvalue
    obtain ⟨child, hchild, rfl⟩ := hvalue
    obtain ⟨address, haddress, hoperand⟩ := Formula.operand_programOf hnode hchild
    obtain ⟨after, hafter⟩ := @evaluate_at _ _ _ _ _ _ h hprogram hdata hrow { s with pc := address } _
      hanchored hframed hoperand
    exact ⟨address, after, haddress, hafter⟩

end Compiled

/-- A subtree of another program with the same functions, started in a state of this one, ends with
the meaning that it has here. -/
theorem evaluate_elsewhere {formula other : Formula} {program : Program} {data : Dataset}
    {evaluation evaluation' : Evaluation} {row : Nat} (hfunctions : other.functions = formula.functions)
    (hcompile : other.compile [] = .ok program) (hprogram : evaluation'.program = program.bind data)
    (hlimit : evaluation'.maxCallDepth = evaluation.maxCallDepth) (hdata : data.Rectangular)
    (hrow : row < data.rows) {s : State} (hanchored : s.Anchored row) (hframed : s.stack.Framed)
    {address : Nat} {j : Instruction} (hj : program.code[address]? = some j) :
    ∃ after, evaluation'.machine.evaluate { s with pc := address } =
      .done (j.node.value (s.scope evaluation.machine formula data) s.cursor) after := by
  obtain ⟨main, functions, hcompilable, rfl⟩ := Formula.compile_eq_ok.mp hcompile
  rw [Formula.getElem?_programOf, Option.map_eq_some_iff] at hj
  obtain ⟨node, hnode, rfl⟩ := hj
  obtain ⟨after, hafter⟩ := @evaluate_at _ _ _ _ _ _ hcompilable hprogram hdata hrow
    { s with pc := address } _ hanchored hframed hnode
  have hscope : State.scope { s with pc := address } evaluation'.machine other data =
      s.scope evaluation.machine formula data := by
    have hdepth : evaluation'.machine.maxCallDepth = evaluation.machine.maxCallDepth := hlimit
    rw [State.scope, State.scope, hdepth]
    exact Formula.scope_congr hfunctions _ _ _
  rw [hscope] at hafter
  exact ⟨after, hafter⟩

end Evaluation

end FormulaEngine
