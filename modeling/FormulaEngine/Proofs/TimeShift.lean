import FormulaEngine.Proofs.Rewriting
import FormulaEngine.Proofs.Subtrees

/-!
# Shifts in time

A lag moves the row for a whole subtree. It may be pushed down to the variables, which then read that
many rows away by themselves; two lags in a row may be merged, and a lag of zero may be left out. The
machine does these things in different ways: for a lag it moves the cursor and marks it as moved, so
that columns are read with a check, and a lagged variable does not move the cursor at all.

- `Node.shifted`: a subtree whose variables read some rows away;
- `Node.value_shifted`: its value is that of the subtree at the other row;
- `Node.PushesDown`, `Node.MergesLags`: the rules;
- `Formula.pushDown_sameValues`, `Formula.mergeLags_sameValues`: formulas that are rewritten with
  them have the same values.
-/

namespace FormulaEngine

open Arithmetic Meaning

/-! ## Lags -/

/-- The sum of the two lags is a lag. -/
def LagsFit (first second : Lag) : Prop :=
  Int32.minValue.toInt ≤ first.toInt + second.toInt ∧
    first.toInt + second.toInt ≤ Int32.maxValue.toInt

instance (first second : Lag) : Decidable (LagsFit first second) := inferInstanceAs (Decidable (_ ∧ _))

theorem LagsFit.toInt_add {first second : Lag} (h : LagsFit first second) :
    (first + second).toInt = first.toInt + second.toInt := by
  obtain ⟨hlow, hhigh⟩ := h
  rw [Int32.toInt_minValue] at hlow
  rw [Int32.toInt_maxValue] at hhigh
  rw [Int32.toInt_add]
  exact Int.bmod_eq_of_le (by omega) (by omega)

/-- The rows behind a row that is shifted are the rows behind it, shifted. -/
theorem rowsBehind_add (step offset : Int) (count : Nat) (row : Int) :
    rowsBehind step count (row + offset) = (rowsBehind step count row).map (· + offset) := by
  induction count generalizing row with
  | zero => rfl
  | succ count ih =>
    have hnext : row + offset + step = row + step + offset := by omega
    rw [rowsBehind, rowsBehind, List.map_cons, hnext, ih]

theorem lagRows_add (lag offset row : Int) :
    lagRows lag (row + offset) = (lagRows lag row).map (· + offset) := by
  rw [lagRows, lagRows, rowsBehind_add, List.map_append]
  rfl

/-! ## Shifted subtrees -/

namespace Symbol

/-- The symbol can read some rows away instead of being evaluated there: it neither reads anything
else at the row nor calls a function, and the lag that it already has leaves room for another one. -/
def Shiftable (lag : Lag) : Symbol → Prop
  | .call _ | .factorVariable _ _ | .binaryFactorVariable _ _ _ | .variableCondition _ _ _ _ => False
  | .laggedVariable _ _ own => LagsFit own lag
  | _ => True

/-- The symbol that reads some rows away. -/
def shifted (lag : Lag) : Symbol → Symbol
  | .numericVariable name weight => .laggedVariable name weight lag
  | .laggedVariable name weight own => .laggedVariable name weight (own + lag)
  | symbol => symbol

/-- Over operands that have their values some rows away, a shifted symbol has its own value there. -/
theorem value_shifted {symbol : Symbol} {lag : Lag} (h : symbol.Shiftable lag) (scope : Scope)
    (operands : List (Int → Float)) (row : Int) :
    (symbol.shifted lag).value scope (operands.map fun operand row => operand (row + lag.toInt))
        row =
      symbol.value scope operands (row + lag.toInt) := by
  have hpresent : (operands.map fun operand row => operand (row + lag.toInt)).map (· row) =
      operands.map (· (row + lag.toInt)) := List.map_map
  cases hcombine : symbol.combine? with
  | some combine =>
    have hsame : symbol.shifted lag = symbol := by
      cases symbol <;> first | rfl | cases hcombine
    rw [hsame, value_of_combine? hcombine, value_of_combine? hcombine, hpresent]
  | none =>
    cases symbol with
    | laggedVariable name weight own =>
      have hrow : row + (own + lag).toInt = row + lag.toInt + own.toInt := by
        rw [LagsFit.toInt_add h]
        omega
      show value scope operands (row + (own + lag).toInt) (.numericVariable name weight) =
        value scope operands (row + lag.toInt + own.toInt) (.numericVariable name weight)
      rw [hrow]
    | ifThenElse =>
      rcases operands with _ | ⟨condition, _ | ⟨yes, _ | ⟨no, _ | ⟨more, rest⟩⟩⟩⟩ <;> rfl
    | conjunction =>
      rcases operands with _ | ⟨first, rest⟩
      · rfl
      · show value scope _ row .conjunction = _
        rw [List.map_cons, value_conjunction, value_conjunction, List.map_map]
        rfl
    | disjunction =>
      rcases operands with _ | ⟨first, rest⟩
      · rfl
      · show value scope _ row .disjunction = _
        rw [List.map_cons, value_disjunction, value_disjunction, List.map_map]
        rfl
    | timeLag inner =>
      rcases operands with _ | ⟨operand, _ | ⟨more, rest⟩⟩
      · rfl
      · exact congrArg operand (Int.add_right_comm row inner.toInt lag.toInt)
      · rfl
    | integral inner =>
      rcases operands with _ | ⟨operand, _ | ⟨more, rest⟩⟩
      · rfl
      · show _ = value scope [operand] (row + lag.toInt) (.integral inner)
        rw [value_integral, lagRows_add, List.map_map]
        rfl
      · rfl
    | derivative =>
      rcases operands with _ | ⟨operand, _ | ⟨more, rest⟩⟩
      · rfl
      · have hbefore : ∀ rows, row - rows + lag.toInt = row + lag.toInt - rows := by
          intro rows
          omega
        show recentSlope (operand (row + lag.toInt)) (operand (row - 1 + lag.toInt))
          (operand (row - 3 + lag.toInt)) (operand (row - 4 + lag.toInt)) = _
        rw [hbefore, hbefore, hbefore]
        rfl
      · rfl
    | _ => first | rfl | exact h.elim | cases hcombine

theorem opcode?_shifted {symbol : Symbol} {lag : Lag} {op : Opcode}
    (h : symbol.opcode? = some op) :
    ∃ op', (symbol.shifted lag).opcode? = some op' ∧ op'.arity = op.arity := by
  cases symbol <;> first | exact ⟨op, h, rfl⟩ | (cases h; exact ⟨.lagVariable, rfl, rfl⟩)

end Symbol

namespace Node

mutual

/-- The subtree with all variables reading some rows away. -/
def shifted (lag : Lag) : Node → Node
  | ⟨symbol, children⟩ => ⟨symbol.shifted lag, shiftedAll lag children⟩

/-- Several subtrees with all variables reading some rows away. -/
def shiftedAll (lag : Lag) : List Node → List Node
  | [] => []
  | child :: rest => shifted lag child :: shiftedAll lag rest

end

mutual

/-- Shifting a subtree shifts its symbols. -/
theorem shifted_eq_mapSymbols (lag : Lag) :
    ∀ node : Node, node.shifted lag = node.mapSymbols (Symbol.shifted lag)
  | ⟨symbol, children⟩ => by rw [shifted, mapSymbols, shiftedAll_eq_mapSymbolsAll lag children]

theorem shiftedAll_eq_mapSymbolsAll (lag : Lag) :
    ∀ nodes : List Node, shiftedAll lag nodes = mapSymbolsAll (Symbol.shifted lag) nodes
  | [] => rfl
  | child :: rest => by
    rw [shiftedAll, mapSymbolsAll, shifted_eq_mapSymbols lag child,
      shiftedAll_eq_mapSymbolsAll lag rest]

end

theorem shifted_mk (lag : Lag) (symbol : Symbol) (children : List Node) :
    shifted lag ⟨symbol, children⟩ = ⟨symbol.shifted lag, children.map (shifted lag)⟩ := by
  have hshifted : shifted lag = mapSymbols (Symbol.shifted lag) :=
    funext (shifted_eq_mapSymbols lag)
  rw [hshifted, mapSymbols_mk]

/-- All symbols of the subtree can read some rows away. -/
def Shiftable (lag : Lag) (node : Node) : Prop :=
  ∀ inner ∈ node.preorder, inner.symbol.Shiftable lag

theorem Shiftable.root {lag : Lag} {node : Node} (h : node.Shiftable lag) :
    node.symbol.Shiftable lag :=
  h node (by rw [preorder_eq]; exact List.mem_cons_self)

theorem Shiftable.child {lag : Lag} {node child : Node} (h : node.Shiftable lag)
    (hchild : child ∈ node.children) : child.Shiftable lag := by
  intro inner hinner
  refine h inner ?_
  rw [preorder_eq]
  exact List.mem_cons_of_mem _ (mem_preorderAll_of_mem hchild hinner)

/-- A shifted subtree has the value of the subtree at the other row. -/
theorem value_shifted (scope : Scope) {lag : Lag} :
    ∀ node : Node, node.Shiftable lag →
      (node.shifted lag).value scope = fun row => node.value scope (row + lag.toInt)
  | ⟨symbol, children⟩, h => by
    have hchildren : (children.map (shifted lag)).map (value scope) =
        (children.map (value scope)).map fun operand row => operand (row + lag.toInt) := by
      rw [List.map_map, List.map_map]
      exact List.map_congr_left fun child hchild => value_shifted scope child (h.child hchild)
    funext row
    rw [shifted_mk, value_eq, value_eq, hchildren]
    exact Symbol.value_shifted h.root scope _ row

/-- The nodes of a shifted subtree are the shifted nodes of the subtree. -/
theorem preorder_shifted (lag : Lag) (node : Node) :
    (node.shifted lag).preorder = node.preorder.map (shifted lag) := by
  have hshifted : shifted lag = mapSymbols (Symbol.shifted lag) :=
    funext (shifted_eq_mapSymbols lag)
  rw [hshifted, preorder_mapSymbols]

theorem supported_shifted (lag : Lag) {node : Node} (h : node.Supported) :
    (node.shifted lag).Supported := by
  obtain ⟨symbol, children⟩ := node
  obtain ⟨⟨op, hop, haccepts⟩, hmany⟩ := h
  obtain ⟨op', hop', harity⟩ := @Symbol.opcode?_shifted symbol lag op hop
  have hlength : (children.map (shifted lag)).length = children.length := List.length_map _
  rw [shifted_mk]
  exact ⟨⟨op', hop', by rw [harity, hlength]; exact haccepts⟩, hlength ▸ hmany⟩

/-! ## Subtrees below a lag -/

/-- The subtree with a lag above it. -/
def lagBy (lag : Lag) (operand : Node) : Node := ⟨.timeLag lag, [operand]⟩

section LagBy

variable (lag : Lag) (operand : Node)

theorem value_lagBy (scope : Scope) :
    (operand.lagBy lag).value scope = fun row => operand.value scope (row + lag.toInt) := by
  funext row
  rw [lagBy, value_eq]
  rfl

theorem preorder_lagBy : (operand.lagBy lag).preorder = operand.lagBy lag :: operand.preorder := by
  rw [preorder_eq]
  exact congrArg _ (List.append_nil _)

theorem count_lagBy : (operand.lagBy lag).count = operand.count + 1 := by
  rw [← length_preorder, preorder_lagBy, List.length_cons, length_preorder]

theorem callees_lagBy : (operand.lagBy lag).callees = operand.callees := by
  unfold callees
  rw [preorder_lagBy]
  rfl

theorem supported_lagBy : (operand.lagBy lag).Supported :=
  ⟨⟨.timeLag, rfl, rfl⟩, show 1 ≤ addressLimit by decide⟩

end LagBy

/-! ## Rules -/

/-- A lag is pushed down to the variables below it. -/
inductive PushesDown : (before after : Node) → Prop where
  | lag (lag : Lag) (operand : Node) (h : operand.Shiftable lag) :
      PushesDown (operand.lagBy lag) (operand.shifted lag)

/-- Two lags in a row are merged, or a lag of zero is left out. -/
inductive MergesLags : (before after : Node) → Prop where
  | both (first second : Lag) (operand : Node) (h : LagsFit first second) :
      MergesLags ((operand.lagBy second).lagBy first) (operand.lagBy (first + second))
  | zero (operand : Node) : MergesLags (operand.lagBy 0) operand

theorem PushesDown.replaces {before after : Node} (h : PushesDown before after) :
    after.Replaces before := by
  obtain ⟨lag, operand, hoperand⟩ := h
  constructor
  · intro scope
    rw [value_shifted scope operand hoperand, value_lagBy]
  · rw [count_lagBy, ← length_preorder, preorder_shifted, List.length_map, length_preorder]
    exact Nat.le_succ _
  · rw [preorder_lagBy, preorder_shifted]
    intro hsupported node hnode
    obtain ⟨inner, hinner, rfl⟩ := List.mem_map.mp hnode
    exact supported_shifted lag (hsupported inner (List.mem_cons_of_mem _ hinner))
  · -- there are no calls to begin with
    intro function hfunction
    obtain ⟨node, hnode, hsymbol⟩ := mem_callees.mp hfunction
    rw [preorder_shifted] at hnode
    obtain ⟨⟨symbol, children⟩, hinner, rfl⟩ := List.mem_map.mp hnode
    have hshiftable := hoperand _ hinner
    rw [shifted_mk] at hsymbol
    cases symbol <;> first | exact hshiftable.elim | cases hsymbol

theorem MergesLags.replaces {before after : Node} (h : MergesLags before after) :
    after.Replaces before := by
  cases h with
  | both first second _ hfit =>
    rename_i operand
    constructor
    · intro scope
      funext row
      rw [value_lagBy, value_lagBy, value_lagBy, hfit.toInt_add]
      exact congrArg _ (Int.add_assoc _ _ _).symm
    · rw [count_lagBy, count_lagBy, count_lagBy]
      exact Nat.le_succ _
    · rw [preorder_lagBy, preorder_lagBy, preorder_lagBy]
      simp only [List.forall_mem_cons]
      exact fun ⟨_, _, hoperand⟩ => ⟨supported_lagBy _ _, hoperand⟩
    · rw [callees_lagBy, callees_lagBy, callees_lagBy]
      exact List.Subset.refl _
  | zero =>
    constructor
    · intro scope
      funext row
      rw [value_lagBy]
      exact congrArg _ (Int.add_zero row).symm
    · rw [count_lagBy]
      exact Nat.le_succ _
    · rw [preorder_lagBy]
      exact fun hbefore node hnode => hbefore node (List.mem_cons_of_mem _ hnode)
    · rw [callees_lagBy]
      exact List.Subset.refl _

end Node

/-! ## Programs -/

namespace Formula

variable {formula other : Formula} {program : Program}

/-- However many lags are pushed down to the variables, in the main body and in functions: the
formula still compiles, and nothing has changed for its values. -/
theorem pushDown_sameValues (h : formula.Rewritten Node.PushesDown other)
    (hcompile : formula.compile [] = .ok program) :
    ∃ program', other.compile [] = .ok program' ∧ program.SameValues program' :=
  h.sameValues (fun _ _ => Node.PushesDown.replaces) hcompile

open Evaluation Machine in
/-- However many lags are merged or left out, in the main body and in functions: the formula still
compiles, and nothing has changed for its values. Wherever a run of the program fetches an
instruction, the subtree there has the same value when the cursor is marked as moved where it
stands. -/
theorem mergeLags_sameValues (h : formula.Rewritten Node.MergesLags other)
    (hcompile : formula.compile [] = .ok program) :
    (∃ program', other.compile [] = .ok program' ∧ program.SameValues program') ∧
      ∀ (data : Dataset) (evaluation : Evaluation) (row : Nat), data.Rectangular →
        evaluation.program = program.bind data → row < data.rows →
          evaluation.machine.Always (State.Startable evaluation.machine row) { cursor := row } ∧
            ∀ s, State.Startable evaluation.machine row s → ∃ value after after',
              evaluation.machine.evaluate s = .done value after ∧
                evaluation.machine.evaluate { s with lagged := true } = .done value after' := by
  refine ⟨h.sameValues (fun _ _ => Node.MergesLags.replaces) hcompile, ?_⟩
  intro data evaluation row hdata hprogram hrow
  obtain ⟨main, functions, hcompilable, rfl⟩ := compile_eq_ok.mp hcompile
  refine ⟨always_startable hcompilable hprogram hdata hrow, ?_⟩
  rintro s ⟨⟨hpc, hanchored⟩, hframed⟩
  have hsize : s.pc < (compiledNodes main functions).length := by
    have hcode : evaluation.machine.code = ((programOf main functions).bind data).code := by
      rw [← hprogram]
      rfl
    rw [hcode] at hpc
    simpa [Program.bind, programOf] using hpc
  exact evaluate_marked hcompilable hprogram hdata hrow hanchored hframed
    (List.getElem?_eq_getElem hsize)

end Formula

/-! ## A lag in a function -/

namespace Delayed

/-- By the argument, the sum over the present row and the one before, or the next row. -/
def operand : Node :=
  ⟨.ifThenElse, [.leaf (.argument 0), ⟨.integral (-1), [.leaf (.numericVariable "x" 2.0)]⟩,
    .leaf (.laggedVariable "x" 1.0 1)]⟩

def main : Node := ⟨.call "f", [.leaf (.constant 1.0)]⟩

def formula : Formula := .withFunctions main [("f", operand.lagBy (-1))]

def pushed : Formula := .withFunctions main [("f", operand.shifted (-1))]

theorem compile_formula :
    formula.compile [] = .ok (Formula.programOf main [("f", operand.lagBy (-1))]) := by
  refine Formula.compile_eq_ok.mpr ⟨main, [("f", operand.lagBy (-1))], ?_, rfl⟩
  constructor
  · rfl
  · rfl
  · decide
  · decide
  · decide
  · decide

theorem shiftable_operand : operand.Shiftable (-1) := by
  intro inner hinner
  simp only [operand, Node.leaf, Node.preorder_eq, Node.preorderAll_cons, Node.preorderAll_nil,
    List.append_nil, List.cons_append, List.nil_append, List.mem_cons, List.not_mem_nil,
    or_false] at hinner
  rcases hinner with rfl | rfl | rfl | rfl | rfl
  · trivial
  · trivial
  · trivial
  · trivial
  · exact (by decide : LagsFit 1 (-1))

theorem rewritten_pushed : formula.Rewritten Node.PushesDown pushed :=
  ⟨.some .refl, .cons ⟨rfl, .some (.single (.here (.lag _ _ shiftable_operand)))⟩ .nil⟩

/-- A lag there and back around a call. -/
def around : Formula := .withFunctions ((Recall.main.lagBy 1).lagBy (-1)) [("back", Recall.back)]

def aroundProgram : Program :=
  Formula.programOf ((Recall.main.lagBy 1).lagBy (-1)) [("back", Recall.back)]

theorem compile_around : around.compile [] = .ok aroundProgram := by
  refine Formula.compile_eq_ok.mpr ⟨_, [("back", Recall.back)], ?_, rfl⟩
  constructor
  · rfl
  · rfl
  · decide
  · decide
  · decide
  · decide

theorem rewritten_around : around.Rewritten Node.MergesLags Recall.formula := by
  refine ⟨.some ?_, .cons ⟨rfl, .some .refl⟩ .nil⟩
  have hmerged : Relation.ReflTransGen (Node.Rewrites Node.MergesLags)
      ((Recall.main.lagBy 1).lagBy (-1)) (Recall.main.lagBy (-1 + 1)) :=
    .single (.here (.both (-1) 1 _ (by decide)))
  exact hmerged.tail (.here (.zero _))

def evaluation : Evaluation := ⟨aroundProgram.bind Recall.data, 3, .indices [], {}⟩

/-- In the function, with no lag under way and nothing left to go back. -/
def entered : Machine.State where
  pc := 4
  stack := ⟨[.length 1, .argument 0.0], []⟩
  cursor := 2
  callDepth := 1

theorem startable_entered : entered.Startable evaluation.machine 2 :=
  ⟨⟨by decide +kernel, fun _ => rfl⟩, by decide⟩

end Delayed

namespace Formula

/-- The variables in the body of the function read one row before, as the lag did. -/
theorem pushDown_sameValues_delayed :
    Delayed.formula.Rewritten Node.PushesDown Delayed.pushed ∧
      Delayed.formula.compile [] =
        .ok (programOf Delayed.main [("f", Delayed.operand.lagBy (-1))]) ∧
      ∃ program', Delayed.pushed.compile [] = .ok program' ∧
        (programOf Delayed.main [("f", Delayed.operand.lagBy (-1))]).SameValues program' :=
  ⟨Delayed.rewritten_pushed, Delayed.compile_formula,
    pushDown_sameValues Delayed.rewritten_pushed Delayed.compile_formula⟩

/-- Neither the lags around the call nor a mark inside of the function make a difference. -/
theorem mergeLags_sameValues_around :
    (Delayed.around.Rewritten Node.MergesLags Recall.formula ∧
      Delayed.around.compile [] = .ok Delayed.aroundProgram ∧
      ∃ program', Recall.formula.compile [] = .ok program' ∧
        Delayed.aroundProgram.SameValues program') ∧
    Recall.data.Rectangular ∧ 2 < Recall.data.rows ∧
      Delayed.entered.Startable Delayed.evaluation.machine 2 ∧ ∃ value after after',
        Delayed.evaluation.machine.evaluate Delayed.entered = .done value after ∧
          Delayed.evaluation.machine.evaluate { Delayed.entered with lagged := true } =
            .done value after' := by
  obtain ⟨hsame, hmarked⟩ := mergeLags_sameValues Delayed.rewritten_around Delayed.compile_around
  obtain ⟨-, hentered⟩ := hmarked Recall.data Delayed.evaluation 2 Recall.rectangular_data rfl
    (by decide)
  exact ⟨⟨Delayed.rewritten_around, Delayed.compile_around, hsame⟩, Recall.rectangular_data,
    by decide, Delayed.startable_entered, hentered _ Delayed.startable_entered⟩

end Formula

end FormulaEngine
