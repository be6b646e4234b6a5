import FormulaEngine.Proofs.Combination
import FormulaEngine.Proofs.Operations
import Mathlib.Data.List.Basic

/-!
# Instructions of loaded code

What the machine does with one instruction after it has been fetched, symbol by symbol.

- `Machine.Performs`: the instruction of a node ends with the value that its symbol means and moves
  past the operands;
- `Machine.performs_strict`: so do all symbols that combine all operands;
- `Machine.perform_eq`: so does every instruction of a loaded formula.
-/

namespace FormulaEngine

open Arithmetic Meaning

namespace Machine

/-- Run in `s`, right behind its fetch, the instruction of `node` gives the value that its symbol
means and moves past the operands. -/
def Performs (m : Machine) (entryPoints : List (String × Nat)) (data : Dataset)
    (self : Action Float) (scope : Scope) (node : Node) (s : State) : Prop :=
  m.perform self (node.bound entryPoints data) s =
    some (.done (node.symbol.value scope (node.children.map (Node.value scope)) s.cursor)
      (s.advance (Node.countAll node.children)
        (node.symbol.cost scope (node.children.map (Node.operand scope)) s.cursor)))

variable {m : Machine} {entryPoints : List (String × Nat)} {data : Dataset} {self : Action Float}
  {p d row : Nat} {scope : Scope} {s : State}

theorem performs_strict (hself : m.Evaluates entryPoints data self p d row scope)
    (hs : s.Ready p d scope.arguments) (hrow : s.Grounded m data row) {node : Node}
    (hnode : node.Supported) (hholds : m.Holds entryPoints data s.pc node.children)
    {combine : List Float → Float} (hcombine : node.symbol.combine? = some combine) :
    m.Performs entryPoints data self scope node s := by
  obtain ⟨op, hop, haccepts⟩ := hnode.opcode
  obtain ⟨operands, join, hoperation, hjoin⟩ := Symbol.operation_combines hop hcombine
  have hlength : (node.children.map (·.value scope s.cursor)).length = node.children.length :=
    List.length_map _
  -- the operation asks for as many operands as the node has, and joins their values as it means
  obtain ⟨hall, hvalue⟩ := hjoin (node.children.map (·.value scope s.cursor)) (by rwa [hlength])
  rw [hlength] at hall hvalue
  have hopcode : (node.bound entryPoints data).opcode = op := Node.opcode_linked entryPoints hop
  unfold Performs perform
  rw [hopcode, hoperation, Symbol.value_of_combine? hcombine,
    Symbol.cost_of_combine? hcombine, List.map_map]
  show (collect self (operands (node.bound entryPoints data).argCount) [] >>= _) s = _
  rw [Node.argCount_bound, hall, bind_of_done (collect_eq hself [] hs hrow hholds), pure_apply]
  exact congrArg (fun value => some (Outcome.done value _)) hvalue

theorem performs_choice (hself : m.Evaluates entryPoints data self p d row scope)
    (hs : s.Ready p d scope.arguments) (hrow : s.Grounded m data row) {condition yes no : Node}
    (hholds : m.Holds entryPoints data s.pc [condition, yes, no]) :
    m.Performs entryPoints data self scope ⟨.ifThenElse, [condition, yes, no]⟩ s := by
  obtain ⟨hcondition, hbranches⟩ := Holds.cons.mp hholds
  obtain ⟨hyes, hno⟩ := Holds.cons.mp hbranches
  have hafter := hs.advance condition.count (condition.cost scope s.cursor)
  show (self >>= fun value =>
    if holds value then (self >>= fun value => m.skip >>= fun _ => pure value)
    else (m.skip >>= fun _ => self) : Action Float) s = _
  rw [bind_of_done (hself _ s hs hrow hcondition)]
  by_cases htrue : holds (condition.value scope s.cursor) = true
  · rw [if_pos htrue, bind_of_done (hself _ _ hafter hrow hyes), bind_of_done (skip_eq hno),
      pure_apply]
    simp [Node.operand, htrue, Nat.add_assoc]
  · have hlast := (hafter.advance yes.count 0)
    rw [if_neg htrue, bind_of_done (skip_eq hyes), hself _ _ hlast hrow hno]
    simp [Node.operand, htrue, Nat.add_assoc]

theorem performs_conjunction (hself : m.Evaluates entryPoints data self p d row scope)
    (hs : s.Ready p d scope.arguments) (hrow : s.Grounded m data row) {first : Node}
    {rest : List Node} (hholds : m.Holds entryPoints data s.pc (first :: rest)) :
    m.Performs entryPoints data self scope ⟨.conjunction, first :: rest⟩ s := by
  obtain ⟨hfirst, hrest⟩ := Holds.cons.mp hholds
  show (self >>= fun first => m.allTrue self rest.length first) s = _
  rw [bind_of_done (hself _ s hs hrow hfirst), allTrue_eq_operandsWhile,
    operandsWhile_eq hself holds _ (hs.advance _ _) hrow hrest, State.advance_advance]
  simp [Symbol.costWhile, Node.operand, Function.comp_def]

theorem performs_disjunction (hself : m.Evaluates entryPoints data self p d row scope)
    (hs : s.Ready p d scope.arguments) (hrow : s.Grounded m data row) {first : Node}
    {rest : List Node} (hholds : m.Holds entryPoints data s.pc (first :: rest)) :
    m.Performs entryPoints data self scope ⟨.disjunction, first :: rest⟩ s := by
  obtain ⟨hfirst, hrest⟩ := Holds.cons.mp hholds
  show (self >>= fun first => m.anyTrue self rest.length first) s = _
  rw [bind_of_done (hself _ s hs hrow hfirst), anyTrue_eq_operandsWhile,
    operandsWhile_eq hself (· ≤ 0.0) _ (hs.advance _ _) hrow hrest, State.advance_advance]
  simp [Symbol.costWhile, Node.operand, Function.comp_def]

theorem performs_timeLag (hself : m.Evaluates entryPoints data self p d row scope)
    (hs : s.Ready p d scope.arguments) {operand : Node} (lag : Lag)
    (hholds : m.Holds entryPoints data s.pc [operand]) :
    m.Performs entryPoints data self scope ⟨.timeLag lag, [operand]⟩ s := by
  have hback : s.cursor + lag.toInt + -lag.toInt = s.cursor := by omega
  show (move lag.toInt >>= fun _ => lagged self >>= fun value =>
    move (-lag.toInt) >>= fun _ => pure value : Action Float) s = _
  rw [move_bind]
  refine (bind_of_done (lagged_shift_eq hself hs hholds lag.toInt 0)).trans ?_
  rw [move_bind, pure_apply]
  simp [Node.operand, State.shift, State.advance, hback]

theorem performs_integral (hself : m.Evaluates entryPoints data self p d row scope)
    (hs : s.Ready p d scope.arguments) {operand : Node} (lag : Lag)
    (hholds : m.Holds entryPoints data s.pc [operand]) :
    m.Performs entryPoints data self scope ⟨.integral lag, [operand]⟩ s := by
  refine (integrate_eq hself lag.toInt hs hholds).trans ?_
  simp [Node.operand]

theorem performs_derivative (hself : m.Evaluates entryPoints data self p d row scope)
    (hs : s.Ready p d scope.arguments) {operand : Node}
    (hholds : m.Holds entryPoints data s.pc [operand]) :
    m.Performs entryPoints data self scope ⟨.derivative, [operand]⟩ s := by
  refine (differentiate_eq hself hs hholds).trans ?_
  simp [Node.operand]

theorem performs_argument (hs : s.Ready p d scope.arguments) (index : Nat) :
    m.Performs entryPoints data self scope ⟨.argument index, []⟩ s := by
  show (Action.get (fun s => s.stack.argument? index) >>=
    fun value => Action.ofOption .outOfBounds value : Action Float) s = _
  rw [get_bind, ArgumentStack.argument?_eq hs.frames]
  rfl

variable {formula : Formula} {body : Node}

theorem performs_variableCondition (hloaded : m.Loaded formula data entryPoints body)
    (hself : m.Evaluates entryPoints data self p d row scope) (hscope : scope.data = data)
    (hs : s.Ready p d scope.arguments) (hrow : s.Grounded m data row)
    {left right : Node} (name : String) (threshold slope : Float) (ignoreSlope : Bool)
    (hholds : m.Holds entryPoints data s.pc [left, right]) :
    m.Performs entryPoints data self scope
      ⟨.variableCondition name threshold slope ignoreSlope, [left, right]⟩ s := by
  obtain ⟨hleft, hright⟩ := Holds.cons.mp hholds
  subst hscope
  have hdata : (Node.bound entryPoints scope.data
      ⟨.variableCondition name threshold slope ignoreSlope, [left, right]⟩).data =
        Symbol.data (.variableCondition name threshold slope ignoreSlope) false scope.data := rfl
  refine (bind_of_done (readNumber_eq hloaded hdata rfl hrow)).trans ?_
  cases hnumber : scope.data.numberAt? name s.cursor with
  | none =>
    -- without a number neither operand is run
    refine (bind_of_done (skip_eq hleft)).trans ((bind_of_done (skip_eq hright)).trans ?_)
    rw [pure_apply]
    simp [hnumber]
  | some number =>
    cases ignoreSlope with
    | false =>
      -- both operands are run and weighed against each other
      refine (bind_of_done (hself left s hs hrow hleft)).trans ?_
      refine (bind_of_done (hself right _ (hs.advance _ _) hrow hright)).trans ?_
      rw [pure_apply]
      simp [Node.operand, hnumber]
    | true =>
      show (if number ≤ threshold then
          (self >>= fun value => m.skip >>= fun _ => pure value)
        else (m.skip >>= fun _ => self) : Action Float) s = _
      by_cases hle : number ≤ threshold
      · rw [if_pos hle, bind_of_done (hself left s hs hrow hleft), bind_of_done (skip_eq hright),
          pure_apply]
        simp [Node.operand, hnumber, hle]
      · rw [if_neg hle, bind_of_done (skip_eq hleft),
          hself right _ (hs.advance _ _) hrow hright]
        simp [Node.operand, hnumber, hle]

/-- A leaf has no operands to move past and none to count. -/
theorem performs_leaf {symbol : Symbol}
    (hcost : symbol.cost scope [] s.cursor = 0)
    (h : m.perform self (Node.bound entryPoints data ⟨symbol, []⟩) s =
      some (.done (symbol.value scope [] s.cursor) s)) :
    m.Performs entryPoints data self scope ⟨symbol, []⟩ s := by
  refine h.trans ?_
  simp [hcost]

theorem performs_numericVariable (hloaded : m.Loaded formula data entryPoints body)
    (hscope : scope.data = data) (hrow : s.Grounded m data row) (name : String) (weight : Float) :
    m.Performs entryPoints data self scope ⟨.numericVariable name weight, []⟩ s := by
  subst hscope
  have hdata : (Node.bound entryPoints scope.data ⟨.numericVariable name weight, []⟩).data =
      Symbol.data (.numericVariable name weight) false scope.data := rfl
  exact performs_leaf rfl (weighted_eq hloaded hdata rfl hrow weight)

theorem performs_laggedVariable (hloaded : m.Loaded formula data entryPoints body)
    (hscope : scope.data = data) (name : String) (weight : Float) (lag : Lag) :
    m.Performs entryPoints data self scope ⟨.laggedVariable name weight lag, []⟩ s := by
  subst hscope
  have hdata : (Node.bound entryPoints scope.data ⟨.laggedVariable name weight lag, []⟩).data =
      Symbol.data (.laggedVariable name weight lag) false scope.data := rfl
  exact performs_leaf rfl (weightedAt_eq hloaded hdata rfl weight lag.toInt)

theorem performs_factorVariable (hloaded : m.Loaded formula data entryPoints body)
    (hscope : scope.data = data) (hrow : s.Grounded m data row) (name : String)
    (weights : List (String × Float)) :
    m.Performs entryPoints data self scope ⟨.factorVariable name weights, []⟩ s := by
  subst hscope
  have hdata : (Node.bound entryPoints scope.data ⟨.factorVariable name weights, []⟩).data =
      Symbol.data (.factorVariable name weights) true scope.data := rfl
  exact performs_leaf rfl (categorized_eq hloaded hdata rfl hrow _)

theorem performs_binaryFactorVariable (hloaded : m.Loaded formula data entryPoints body)
    (hscope : scope.data = data) (hrow : s.Grounded m data row) (name wanted : String)
    (weight : Float) :
    m.Performs entryPoints data self scope ⟨.binaryFactorVariable name wanted weight, []⟩ s := by
  subst hscope
  have hdata : (Node.bound entryPoints scope.data
      ⟨.binaryFactorVariable name wanted weight, []⟩).data =
        Symbol.data (.binaryFactorVariable name wanted weight) true scope.data := rfl
  exact performs_leaf rfl (categorized_eq hloaded hdata rfl hrow _)

/-- Every instruction of a loaded formula ends as its symbol means, if subtrees are run so, and the
bodies of functions with one more function running. -/
theorem perform_eq (hloaded : m.Loaded formula data entryPoints body)
    (hscope : scope = formula.scope data (m.maxCallDepth - d) scope.arguments)
    (hself : m.Evaluates entryPoints data self p d row scope)
    (hbody : d < m.maxCallDepth → ∀ target arguments, m.Evaluates entryPoints data self target
      (d + 1) row (formula.scope data (m.maxCallDepth - (d + 1)) arguments))
    (hs : s.Ready p d scope.arguments) (hrow : s.Grounded m data row) {node : Node}
    (hnode : node.Supported) (hdefined : node.CallDefined entryPoints)
    (hholds : m.Holds entryPoints data s.pc node.children) :
    m.Performs entryPoints data self scope node s := by
  have hdata : scope.data = data := by rw [hscope]; rfl
  cases hcombine : node.symbol.combine? with
  | some combine => exact performs_strict hself hs hrow hnode hholds hcombine
  | none =>
    obtain ⟨op, hop, haccepts⟩ := hnode.opcode
    obtain ⟨symbol, children⟩ := node
    -- the opcode of the symbol says how many children there are, and so what they are called
    cases symbol with
    | ifThenElse =>
      cases hop
      obtain ⟨condition, yes, no, rfl⟩ := List.length_eq_three.mp (of_decide_eq_true haccepts)
      exact performs_choice hself hs hrow hholds
    | conjunction =>
      cases hop
      obtain ⟨first, rest, rfl⟩ := List.exists_cons_of_length_pos (of_decide_eq_true haccepts)
      exact performs_conjunction hself hs hrow hholds
    | disjunction =>
      cases hop
      obtain ⟨first, rest, rfl⟩ := List.exists_cons_of_length_pos (of_decide_eq_true haccepts)
      exact performs_disjunction hself hs hrow hholds
    | constant value =>
      cases hop
      obtain rfl := List.length_eq_zero_iff.mp (of_decide_eq_true haccepts)
      exact performs_leaf rfl rfl
    | numericVariable name weight =>
      cases hop
      obtain rfl := List.length_eq_zero_iff.mp (of_decide_eq_true haccepts)
      exact performs_numericVariable hloaded hdata hrow name weight
    | laggedVariable name weight lag =>
      cases hop
      obtain rfl := List.length_eq_zero_iff.mp (of_decide_eq_true haccepts)
      exact performs_laggedVariable hloaded hdata name weight lag
    | factorVariable name weights =>
      cases hop
      obtain rfl := List.length_eq_zero_iff.mp (of_decide_eq_true haccepts)
      exact performs_factorVariable hloaded hdata hrow name weights
    | binaryFactorVariable name wanted weight =>
      cases hop
      obtain rfl := List.length_eq_zero_iff.mp (of_decide_eq_true haccepts)
      exact performs_binaryFactorVariable hloaded hdata hrow name wanted weight
    | variableCondition name threshold slope ignoreSlope =>
      cases hop
      obtain ⟨left, right, rfl⟩ := List.length_eq_two.mp (of_decide_eq_true haccepts)
      exact performs_variableCondition hloaded hself hdata hs hrow name threshold slope
        ignoreSlope hholds
    | timeLag lag =>
      cases hop
      obtain ⟨operand, rfl⟩ := List.length_eq_one_iff.mp (of_decide_eq_true haccepts)
      exact performs_timeLag hself hs lag hholds
    | integral lag =>
      cases hop
      obtain ⟨operand, rfl⟩ := List.length_eq_one_iff.mp (of_decide_eq_true haccepts)
      exact performs_integral hself hs lag hholds
    | derivative =>
      cases hop
      obtain ⟨operand, rfl⟩ := List.length_eq_one_iff.mp (of_decide_eq_true haccepts)
      exact performs_derivative hself hs hholds
    | call function =>
      refine (call_eq hloaded hscope hself hbody hs hrow hholds rfl hdefined).trans ?_
      simp [Function.comp_def, Node.operand]
    | argument index =>
      cases hop
      obtain rfl := List.length_eq_zero_iff.mp (of_decide_eq_true haccepts)
      exact performs_argument hs index
    | programRoot => cases hop
    | start => cases hop
    | defun name => cases hop
    | custom name => cases hop
    -- the other symbols combine all operands
    | _ => cases hcombine

end Machine

end FormulaEngine
