import FormulaEngine.Proofs.CallGraph
import FormulaEngine.Proofs.Cost
import FormulaEngine.Proofs.Refusal
import Mathlib.Data.List.Forall2

/-!
# Rewriting formulas

What may be put in place of a subtree, anywhere in the main body or in a function, without a
difference to the values of the formula. The rest of the program changes with it: everything behind
the subtree moves to other addresses. But the meaning of a formula is said on the tree, and there a
subtree matters by its own meaning alone.

- `Node.Rewrites`: a rule is applied at one place of a tree;
- `Formula.Rewritten`: it is applied any number of times to the bodies of a formula;
- `Node.Replaces`: a subtree with the same meaning as another one, and no harder to compile;
- `Formula.Related.wellFormed`, `Formula.Related.value_eq`: bodies that replace the bodies of a
  formula make a formula that compiles, too, and has the same values;
- `Program.SameValues`: programs that have the same values at all rows of all datasets;
- `Formula.Rewritten.sameValues`: with rules that give replacements, a formula is rewritten to one
  whose program has the same values.
-/

namespace FormulaEngine

/-! ## Rules -/

/-- The rule is applied at one place of a tree. -/
inductive Node.Rewrites (rule : Node → Node → Prop) : (before after : Node) → Prop where
  | here {before after : Node} (h : rule before after) : Rewrites rule before after
  | inside (symbol : Symbol) (front back : List Node) {before after : Node}
      (h : Rewrites rule before after) :
      Rewrites rule ⟨symbol, front ++ before :: back⟩ ⟨symbol, front ++ after :: back⟩

/-- The formulas have the same functions, and the relation holds between their bodies. -/
structure Formula.Related (relation : Node → Node → Prop) (formula other : Formula) : Prop where
  body : Option.Rel relation formula.body? other.body?
  functions : List.Forall₂
    (fun function function' : String × Option Node =>
      function.1 = function'.1 ∧ Option.Rel relation function.2 function'.2)
    formula.functions other.functions

/-- The rule is applied any number of times, anywhere in the main body and in the bodies of the
functions. -/
def Formula.Rewritten (rule : Node → Node → Prop) : Formula → Formula → Prop :=
  Formula.Related (Relation.ReflTransGen (Node.Rewrites rule))

theorem optionRel_mono {α β : Type} {relation relation' : α → β → Prop}
    (h : ∀ a b, relation a b → relation' a b) {a : Option α} {b : Option β}
    (hrel : Option.Rel relation a b) : Option.Rel relation' a b := by
  cases hrel with
  | none => exact .none
  | some hab => exact .some (h _ _ hab)

theorem forall₂_toList {α β : Type} {relation : α → β → Prop} {a : Option α} {b : Option β}
    (h : Option.Rel relation a b) : List.Forall₂ relation a.toList b.toList := by
  cases h with
  | none => exact .nil
  | some hab => exact .cons hab .nil

theorem exists_of_optionRel_some {α β : Type} {relation : α → β → Prop} {a : α} {b : Option β}
    (h : Option.Rel relation (some a) b) : ∃ found, b = some found ∧ relation a found := by
  cases h with
  | some hab => exact ⟨_, rfl, hab⟩

theorem eq_none_of_optionRel_none {α β : Type} {relation : α → β → Prop} {b : Option β}
    (h : Option.Rel relation none b) : b = none := by
  cases h
  rfl

theorem Formula.Related.mono {relation relation' : Node → Node → Prop} {formula other : Formula}
    (h : ∀ a b, relation a b → relation' a b) (hrel : formula.Related relation other) :
    formula.Related relation' other :=
  ⟨optionRel_mono h hrel.body, hrel.functions.imp fun _ _ hf => ⟨hf.1, optionRel_mono h hf.2⟩⟩

/-! ## Meaning -/

section Meaning

variable {scope scope' : Scope} (hdata : scope.data = scope'.data)
  (harguments : scope.arguments = scope'.arguments) (hcall : scope.call = scope'.call)

include hdata harguments hcall

/-- Values do not depend on what a call costs. -/
theorem Symbol.value_congr (operands : List (Int → Float)) (row : Int) (symbol : Symbol) :
    symbol.value scope operands row = symbol.value scope' operands row := by
  obtain ⟨data, arguments, call, callCost⟩ := scope
  obtain ⟨data', arguments', call', callCost'⟩ := scope'
  obtain rfl : data = data' := hdata
  obtain rfl : arguments = arguments' := harguments
  obtain rfl : call = call' := hcall
  cases symbol <;> rfl

theorem Node.value_congr (node : Node) : node.value scope = node.value scope' := by
  cases node with
  | mk symbol children =>
    have hchildren : children.map (value scope) = children.map (value scope') :=
      List.map_congr_left fun child _ => value_congr child
    funext row
    rw [value_eq, value_eq, hchildren]
    exact Symbol.value_congr hdata harguments hcall _ row symbol

end Meaning

/-! ## Replacements -/

namespace Node

/-- A subtree with the meaning of another one that takes no more room, that compiles if the other one
does and that calls no other functions. -/
structure Replaces (after before : Node) : Prop where
  value : ∀ scope, after.value scope = before.value scope
  count : after.count ≤ before.count
  supported : (∀ node ∈ before.preorder, node.Supported) → ∀ node ∈ after.preorder, node.Supported
  callees : after.callees ⊆ before.callees

namespace Replaces

variable {first second third : Node}

theorem refl (node : Node) : node.Replaces node :=
  ⟨fun _ => rfl, Nat.le_refl _, id, List.Subset.refl _⟩

theorem trans (h : first.Replaces second) (h' : second.Replaces third) : first.Replaces third :=
  ⟨fun scope => (h.value scope).trans (h'.value scope), Nat.le_trans h.count h'.count,
    fun hthird => h.supported (h'.supported hthird), List.Subset.trans h.callees h'.callees⟩

/-- Inside a tree, too, a subtree matters by its own meaning alone. -/
theorem inside (h : first.Replaces second) (symbol : Symbol) (front back : List Node) :
    (Node.mk symbol (front ++ first :: back)).Replaces (Node.mk symbol (front ++ second :: back)) := by
  have hpreorder : ∀ node : Node, (Node.mk symbol (front ++ node :: back)).preorder =
      Node.mk symbol (front ++ node :: back) ::
        (preorderAll front ++ (node.preorder ++ preorderAll back)) := by
    intro node
    rw [preorder_eq, preorderAll_append, preorderAll_cons]
  constructor
  · intro scope
    funext row
    rw [value_eq, value_eq, List.map_append, List.map_append, List.map_cons, List.map_cons,
      h.value scope]
  · have hcount := h.count
    rw [count_eq, count_eq, countAll_append, countAll_append, countAll_cons, countAll_cons]
    omega
  · rw [hpreorder, hpreorder]
    simp only [List.forall_mem_cons, List.forall_mem_append]
    rintro ⟨⟨hopcode, hchildren⟩, hfront, hsecond, hback⟩
    -- the root has as many children as before
    have hlength : (front ++ first :: back).length = (front ++ second :: back).length := by simp
    exact ⟨⟨hlength ▸ hopcode, hlength ▸ hchildren⟩, hfront, h.supported hsecond, hback⟩
  · intro function hfunction
    rw [mem_callees, hpreorder] at hfunction ⊢
    simp only [List.mem_cons, List.mem_append] at hfunction ⊢
    obtain ⟨inner, hinner, hsymbol⟩ := hfunction
    rcases hinner with rfl | hfront | hfirst | hback
    · exact ⟨_, Or.inl rfl, hsymbol⟩
    · exact ⟨inner, Or.inr (Or.inl hfront), hsymbol⟩
    · obtain ⟨inner, hinner, hsymbol⟩ :=
        mem_callees.mp (h.callees (mem_callees.mpr ⟨inner, hfirst, hsymbol⟩))
      exact ⟨inner, Or.inr (Or.inr (Or.inl hinner)), hsymbol⟩
    · exact ⟨inner, Or.inr (Or.inr (Or.inr hback)), hsymbol⟩

end Replaces

variable {rule : Node → Node → Prop} (hrule : ∀ before after, rule before after →
  after.Replaces before)

include hrule

/-- A rule that gives replacements does so wherever it is applied. -/
theorem Rewrites.replaces {before after : Node} (h : Rewrites rule before after) :
    after.Replaces before := by
  induction h with
  | here h => exact hrule _ _ h
  | inside symbol front back _ ih => exact ih.inside symbol front back

theorem replaces_of_rewrites {before after : Node}
    (h : Relation.ReflTransGen (Rewrites rule) before after) : after.Replaces before := by
  induction h with
  | refl => exact .refl before
  | tail _ hlast ih => exact (hlast.replaces hrule).trans ih

end Node

/-! ## Formulas -/

namespace Formula.Related

variable {relation : Node → Node → Prop} {formula other : Formula}

theorem names_eq (h : formula.Related relation other) :
    formula.functions.map (·.1) = other.functions.map (·.1) := by
  have hnames : List.Forall₂ (· = ·) (formula.functions.map (·.1)) (other.functions.map (·.1)) := by
    rw [List.forall₂_map_left_iff, List.forall₂_map_right_iff]
    exact h.functions.imp fun _ _ hfunction => hfunction.1
  rwa [List.forall₂_eq_eq_eq] at hnames

theorem bodies (h : formula.Related relation other) :
    List.Forall₂ relation formula.bodies other.bodies :=
  List.rel_append (forall₂_toList h.body)
    (List.rel_filterMap (fun _ _ hfunction => hfunction.2) h.functions)

theorem functionBody? (h : formula.Related relation other) (name : String) :
    Option.Rel relation (formula.functionBody? name) (other.functionBody? name) := by
  have hfunctions := h.functions
  unfold Formula.functionBody?
  generalize formula.functions = functions at hfunctions ⊢
  generalize other.functions = functions' at hfunctions ⊢
  induction hfunctions with
  | nil => exact .none
  | @cons function function' _ _ hfunction _ ih =>
    obtain ⟨first, body⟩ := function
    obtain ⟨first', body'⟩ := function'
    obtain ⟨hfirst, hbody⟩ := hfunction
    obtain rfl : first = first' := hfirst
    rw [List.lookup_cons, List.lookup_cons]
    by_cases hname : (name == first) = true
    · simp only [hname]
      exact hbody
    · simp only [hname]
      exact ih

theorem functionBodies (h : formula.Related relation other)
    (hdefined : ∀ function ∈ formula.functions, ∃ body, function.2 = some body) :
    ∀ function ∈ other.functions, ∃ body, function.2 = some body := by
  -- what the other list has by itself, with the two lists exchanged
  have hpairs : List.Forall₂
      (flip fun function' _ : String × Option Node => (∃ body, function'.2 = some body) ∧ True)
      formula.functions other.functions := by
    refine ((List.forall₂_and_left _ _).mpr ⟨hdefined, h.functions⟩).imp ?_
    rintro function function' ⟨⟨body, hbody⟩, -, hrelated⟩
    obtain ⟨body', hbody', -⟩ := exists_of_optionRel_some (hbody ▸ hrelated)
    exact ⟨⟨body', hbody'⟩, trivial⟩
  exact ((List.forall₂_and_left _ _).mp hpairs.flip).1

end Formula.Related

/-- Bodies that replace others one by one take no more room together, compile if the others do, and
call no other functions. -/
theorem Node.forall₂_replaces {before after : List Node}
    (h : List.Forall₂ (fun before after => after.Replaces before) before after) :
    countAll after ≤ countAll before ∧
      ((∀ node ∈ preorderAll before, node.Supported) →
        ∀ node ∈ preorderAll after, node.Supported) ∧
      ∀ inner ∈ preorderAll after, ∀ function, inner.symbol = .call function →
        ∃ inner ∈ preorderAll before, inner.symbol = .call function := by
  induction h with
  | nil => exact ⟨Nat.le_refl _, id, fun inner hinner => absurd hinner List.not_mem_nil⟩
  | @cons first first' rest rest' hfirst _ ih =>
    obtain ⟨hcount, hsupported, hcalls⟩ := ih
    have hfirstCount := hfirst.count
    simp only [preorderAll_cons, countAll_cons, List.forall_mem_append]
    refine ⟨by omega, fun hbefore => ⟨hfirst.supported hbefore.1, hsupported hbefore.2⟩, ?_, ?_⟩
    · intro inner hinner function hsymbol
      obtain ⟨found, hfound, hcall⟩ :=
        mem_callees.mp (hfirst.callees (mem_callees.mpr ⟨inner, hinner, hsymbol⟩))
      exact ⟨found, List.mem_append_left _ hfound, hcall⟩
    · intro inner hinner function hsymbol
      obtain ⟨found, hfound, hcall⟩ := hcalls inner hinner function hsymbol
      exact ⟨found, List.mem_append_right _ hfound, hcall⟩

namespace Formula.Related

variable {formula other : Formula}
  (h : formula.Related (fun before after => after.Replaces before) other)

include h

/-- With replacements for its bodies, a formula that compiles still does. -/
theorem wellFormed (hformula : formula.WellFormed) : other.WellFormed := by
  obtain ⟨hcount, hsupported, hcalls⟩ := Node.forall₂_replaces h.bodies
  constructor
  · obtain ⟨main, hmain⟩ := hformula.body
    obtain ⟨main', hmain', -⟩ := exists_of_optionRel_some (hmain ▸ h.body)
    exact ⟨main', hmain'⟩
  · exact h.functionBodies hformula.functionBodies
  · rw [← h.names_eq]
    exact hformula.names
  · exact hsupported hformula.nodes
  · exact Nat.le_trans hcount hformula.size
  · intro inner hinner function hsymbol
    obtain ⟨found, hfound, hcall⟩ := hcalls inner hinner function hsymbol
    rw [← h.names_eq]
    exact hformula.calls found hfound function hcall

/-- The functions have the same values, by induction on the calls that may be nested. -/
theorem callValue_eq (data : Dataset) (room : Nat) :
    formula.callValue data room = other.callValue data room := by
  induction room with
  | zero =>
    funext function arguments row
    rw [callValue_zero, callValue_zero]
  | succ room ih =>
    funext function arguments row
    have hrelated := h.functionBody? function
    cases hbody : formula.functionBody? function with
    | none =>
      have hnone := eq_none_of_optionRel_none (hbody ▸ hrelated)
      rw [callValue, callValue, hbody, hnone]
    | some body =>
      obtain ⟨body', hbody', hreplaces⟩ := exists_of_optionRel_some (hbody ▸ hrelated)
      rw [callValue_succ _ _ _ hbody, callValue_succ _ _ _ hbody', hreplaces.value]
      refine congrFun (Node.value_congr ?_ ?_ ?_ body) row
      · rfl
      · rfl
      · exact ih

/-- Replacements for its bodies leave the values of a formula as they are. -/
theorem value_eq (data : Dataset) (maxCallDepth row : Nat) :
    formula.value data maxCallDepth row = other.value data maxCallDepth row := by
  unfold Formula.value
  cases hbody : formula.body? with
  | none =>
    have hnone := eq_none_of_optionRel_none (hbody ▸ h.body)
    rw [hnone]
  | some body =>
    obtain ⟨body', hbody', hreplaces⟩ := exists_of_optionRel_some (hbody ▸ h.body)
    have hvalue : body.value (formula.scope data maxCallDepth []) =
        body'.value (other.scope data maxCallDepth []) := by
      rw [hreplaces.value]
      refine Node.value_congr ?_ ?_ ?_ body
      · rfl
      · rfl
      · exact h.callValue_eq data maxCallDepth
    simp only [hbody', hvalue]

theorem valueAt_eq (data : Dataset) (maxCallDepth row : Nat) :
    formula.valueAt data maxCallDepth row = other.valueAt data maxCallDepth row := by
  rw [valueAt, valueAt, h.value_eq]

end Formula.Related

/-! ## Programs -/

open Evaluation in
/-- Bound to the same dataset and run with the same limit of nested calls, the programs have the same
values. In a rectangular dataset both have one at every row, and in any other they do not have
different ones. -/
structure Program.SameValues (program other : Program) : Prop where
  value : ∀ data : Dataset, data.Rectangular → ∀ maxCallDepth rows state row, ∃ value,
    (evaluateRow ⟨program.bind data, maxCallDepth, rows, state⟩ row).1 = .ok value ∧
      (evaluateRow ⟨other.bind data, maxCallDepth, rows, state⟩ row).1 = .ok value
  unique : ∀ data maxCallDepth rows state row value value',
    (evaluateRow ⟨program.bind data, maxCallDepth, rows, state⟩ row).1 = .ok value →
      (evaluateRow ⟨other.bind data, maxCallDepth, rows, state⟩ row).1 = .ok value' →
        value = value'

/-- Rules that give replacements leave a formula that compiles, and the new program has the same
values as the old one. -/
theorem Formula.Rewritten.sameValues {rule : Node → Node → Prop} {formula other : Formula}
    {program : Program} (h : formula.Rewritten rule other)
    (hrule : ∀ before after, rule before after → after.Replaces before)
    (hcompile : formula.compile [] = .ok program) :
    ∃ program', other.compile [] = .ok program' ∧ program.SameValues program' := by
  have hrelated := Related.mono (fun _ _ => Node.replaces_of_rewrites hrule) h
  obtain ⟨program', hcompile'⟩ :=
    compile_isOk_iff.mpr (hrelated.wellFormed (compile_isOk_iff.mp ⟨program, hcompile⟩))
  refine ⟨program', hcompile', ?_, ?_⟩
  · intro data hdata maxCallDepth rows state row
    refine ⟨formula.valueAt data maxCallDepth row,
      Evaluation.evaluateRow_eq_ok.mpr (Evaluation.outcomeAt_eq hcompile hdata _ rfl row), ?_⟩
    rw [hrelated.valueAt_eq]
    exact Evaluation.evaluateRow_eq_ok.mpr (Evaluation.outcomeAt_eq hcompile' hdata _ rfl row)
  · intro data maxCallDepth rows state row value value' hvalue hvalue'
    rw [Evaluation.evaluateRow_unique hcompile hvalue,
      Evaluation.evaluateRow_unique hcompile' hvalue', hrelated.valueAt_eq]

end FormulaEngine
