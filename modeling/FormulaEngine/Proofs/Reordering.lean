import FormulaEngine.Proofs.ProgramShape
import FormulaEngine.Proofs.Relocation
import FormulaEngine.Proofs.StackRoom

/-!
# The order of functions

Functions may be defined in any order. Compilation accepts a formula or refuses it whatever the order
is, the program is as long and asks for as much stack, and it has the same values, found in as many
instructions, although the functions stand at other addresses.

- `Formula.Reordered`: the branches behind the first one in another order;
- `Formula.Reordered.wellFormed_iff`: compilation accepts both formulas or none;
- `Formula.Reordered.relocates`: what calls enter in the one program they find in the other;
- `Evaluation.evaluateRow_reordered`: both programs do the same.
-/

namespace FormulaEngine

namespace Node

theorem perm_preorderAll {nodes nodes' : List Node} (h : nodes.Perm nodes') :
    (preorderAll nodes).Perm (preorderAll nodes') := by
  induction h with
  | nil => exact .refl _
  | cons node _ ih =>
    rw [preorderAll_cons, preorderAll_cons]
    exact ih.append_left _
  | swap node node' rest =>
    simp only [preorderAll_cons, ← List.append_assoc]
    exact List.perm_append_comm.append_right _
  | trans _ _ ih ih' => exact ih.trans ih'

end Node

namespace Formula

/-- The first branch is the same, and the branches behind it are the same in any order. -/
structure Reordered (formula other : Formula) : Prop where
  first : formula.root.children.head? = other.root.children.head?
  rest : formula.root.children.tail.Perm other.root.children.tail

namespace Reordered

theorem withFunctions (body : Node) {functions functions' : List (String × Node)}
    (h : functions.Perm functions') :
    (Formula.withFunctions body functions).Reordered (.withFunctions body functions') :=
  ⟨rfl, h.map _⟩

variable {formula other : Formula} (h : formula.Reordered other)

include h

theorem symm : other.Reordered formula := ⟨h.first.symm, h.rest.symm⟩

theorem body?_eq : formula.body? = other.body? := by
  rw [body?, h.first]
  rfl

theorem functions_perm : formula.functions.Perm other.functions := h.rest.filterMap _

theorem names_perm : (formula.functions.map (·.1)).Perm (other.functions.map (·.1)) :=
  h.functions_perm.map _

theorem bodies_perm : formula.bodies.Perm other.bodies := by
  rw [bodies, bodies, h.body?_eq]
  exact (h.functions_perm.filterMap _).append_left _

theorem nodes_perm : (Node.preorderAll formula.bodies).Perm (Node.preorderAll other.bodies) :=
  Node.perm_preorderAll h.bodies_perm

/-- None of the checks looks at the order. -/
theorem wellFormed (hformula : formula.WellFormed) : other.WellFormed := by
  obtain ⟨hbody, hbodies, hnames, hnodes, hsize, hcalls⟩ := hformula
  constructor
  · rwa [← h.body?_eq]
  · exact fun function hfunction => hbodies function (h.functions_perm.mem_iff.mpr hfunction)
  · exact h.names_perm.nodup_iff.mp hnames
  · exact fun node hnode => hnodes node (h.nodes_perm.mem_iff.mpr hnode)
  · rwa [← Node.length_preorderAll, ← h.nodes_perm.length_eq, Node.length_preorderAll]
  · exact fun node hnode function hfunction => h.names_perm.mem_iff.mp
      (hcalls node (h.nodes_perm.mem_iff.mpr hnode) function hfunction)

theorem wellFormed_iff : formula.WellFormed ↔ other.WellFormed := ⟨h.wellFormed, h.symm.wellFormed⟩

/-- A name stands for the same body. Since no name is given twice, the first function with a name is
the only one. -/
theorem functionBody?_eq {main' : Node} {functions' : List (String × Node)}
    (hother : other.Compilable main' functions') {name : String} {body : Node}
    (hbody : formula.functionBody? name = some body) : other.functionBody? name = some body := by
  have hmem := h.functions_perm.mem_iff.mp (mem_functions_of_functionBody? hbody)
  rw [hother.functions_eq] at hmem
  obtain ⟨function, hfunction, heq⟩ := List.mem_map.mp hmem
  cases heq
  exact hother.functionBody?_eq hfunction

variable {main main' : Node} {functions functions' : List (String × Node)}
  (hformula : formula.Compilable main functions) (hother : other.Compilable main' functions')

include hformula hother

theorem main_eq : main = main' := by
  have hbody := hformula.body_eq.symm.trans (h.body?_eq.trans hother.body_eq)
  exact Option.some.inj hbody

theorem compiledNodes_perm : (compiledNodes main functions).Perm (compiledNodes main' functions') := by
  rw [compiledNodes, compiledNodes, ← bodies_eq hformula.body_eq hformula.functions_eq,
    ← bodies_eq hother.body_eq hother.functions_eq]
  exact h.nodes_perm

/-- Each function of the one program has an address in the other one, and the same body stands
there. -/
theorem relocates {m m' : Machine} {data : Dataset} (hrows : m.rows = m'.rows)
    (hdepth : m.maxCallDepth = m'.maxCallDepth)
    (hcode : m.code = ((programOf main functions).bind data).code)
    (hcode' : m'.code = ((programOf main' functions').bind data).code) :
    m.Relocates m' data (Draft.addresses main.count functions)
      (Draft.addresses main'.count functions') := by
  refine ⟨hrows, hdepth, fun name address haddress => ?_⟩
  obtain ⟨body, hbody, hholds⟩ := (hformula.carries hcode).function name address haddress
  have hother' := h.functionBody?_eq hother hbody
  have hname : name ∈ functions'.map (·.1) := List.mem_map_of_mem (hother.mem_functions hother')
  rw [← Draft.names_addresses main'.count, ← lookup_isSome_iff_mem_names,
    Option.isSome_iff_exists] at hname
  obtain ⟨address', haddress'⟩ := hname
  obtain ⟨found, hfound, hholds'⟩ := (hother.carries hcode').function name address' haddress'
  obtain rfl := Option.some.inj (hother'.symm.trans hfound)
  exact ⟨address', body, haddress', hholds, hholds'⟩

end Reordered

end Formula

/-! ## Functions in reverse -/

namespace Nested

def reversed : Formula := .withFunctions main functions.reverse

theorem compile_reversed :
    reversed.compile [] = .ok (Formula.programOf main functions.reverse) := by
  refine Formula.compile_eq_ok.mpr ⟨main, functions.reverse, ?_, rfl⟩
  constructor
  · rfl
  · rfl
  · decide
  · decide
  · decide
  · decide

theorem reordered_reversed : formula.Reordered reversed :=
  .withFunctions main (List.reverse_perm functions).symm

end Nested

namespace Evaluation

/-- At a row both evaluations have the same value, or both have none. With a value they leave the
same state behind: program counter, stack and number of instructions run. -/
structure MatchAt (row : Nat) (evaluation other : Evaluation) : Prop where
  value : ∀ value, (evaluation.evaluateRow row).1 = .ok value ↔ (other.evaluateRow row).1 = .ok value
  state : ∀ value, (evaluation.evaluateRow row).1 = .ok value →
    (evaluation.evaluateRow row).2.state = (other.evaluateRow row).2.state

theorem matchAt_of_outcomeAt {evaluation other : Evaluation} {row : Nat}
    (h : ∀ value after, evaluation.outcomeAt row = .done value after ↔
      other.outcomeAt row = .done value after) :
    MatchAt row evaluation other := by
  constructor
  · intro value
    rw [evaluateRow_eq_ok, evaluateRow_eq_ok]
    exact exists_congr (h value)
  · intro value hvalue
    obtain ⟨after, houtcome⟩ := evaluateRow_eq_ok.mp hvalue
    rw [evaluateRow_eq, evaluateRow_eq, houtcome, (h value after).mp houtcome]

variable {formula other : Formula}

/-- Where the one program ends with a value, the other one does so in the same state. -/
theorem outcomeAt_reordered (h : formula.Reordered other) {main main' : Node}
    {functions functions' : List (String × Node)} (hformula : formula.Compilable main functions)
    (hother : other.Compilable main' functions') (data : Dataset) (maxCallDepth : Nat)
    (rows : Rows) (state : Machine.State) (row : Nat) {value : Float} {after : Machine.State}
    (hrun : outcomeAt ⟨(Formula.programOf main functions).bind data, maxCallDepth, rows, state⟩
      row = .done value after) :
    outcomeAt ⟨(Formula.programOf main' functions').bind data, maxCallDepth, rows, state⟩ row =
      .done value after := by
  let m := machine ⟨(Formula.programOf main functions).bind data, maxCallDepth, rows, state⟩
  let m' := machine ⟨(Formula.programOf main' functions').bind data, maxCallDepth, rows, state⟩
  have hsame : InRange ⟨(Formula.programOf main functions).bind data, maxCallDepth, rows, state⟩ row ↔
      InRange ⟨(Formula.programOf main' functions').bind data, maxCallDepth, rows, state⟩ row :=
    (inRange_of_bind rfl).trans (inRange_of_bind rfl).symm
  unfold outcomeAt at hrun ⊢
  by_cases hrange :
      InRange ⟨(Formula.programOf main functions).bind data, maxCallDepth, rows, state⟩ row
  · rw [if_pos hrange] at hrun
    rw [if_pos (hsame.mp hrange)]
    have hinside : Machine.State.Inside m false { cursor := row } := fun hmarked => by cases hmarked
    have hmain : m.Holds (Draft.addresses main.count functions) data 0 [main] :=
      (hformula.carries rfl).body_holds
    have hmain' : m'.Holds (Draft.addresses main'.count functions') data 0 [main'] :=
      (hother.carries rfl).body_holds
    have hrelocates : m.Relocates m' data (Draft.addresses main.count functions)
        (Draft.addresses main'.count functions') := h.relocates hformula hother rfl rfl rfl rfl
    obtain rfl := h.main_eq hformula hother
    obtain ⟨executed, rfl, hrun'⟩ :=
      Machine.evaluate_relocates hrelocates hinside hmain hmain' hrun
    exact hrun'
  · rw [if_neg hrange] at hrun
    rw [if_neg fun hother => hrange (hsame.mpr hother)]
    exact hrun

/-- The order of the functions decides neither whether a formula is compiled, nor how long the
program is and how much stack it asks for, nor what it does at a row. In a rectangular dataset it
has a value there. -/
theorem evaluateRow_reordered (h : formula.Reordered other) :
    ((∃ program, formula.compile [] = .ok program) ↔ ∃ program, other.compile [] = .ok program) ∧
      ∀ program program', formula.compile [] = .ok program → other.compile [] = .ok program' →
        program.size = program'.size ∧ program.bodyLength = program'.bodyLength ∧
          program.callStackSize = program'.callStackSize ∧
          ∀ (data : Dataset) (maxCallDepth : Nat) (rows : Rows) (state : Machine.State) (row : Nat),
            MatchAt row ⟨program.bind data, maxCallDepth, rows, state⟩
                ⟨program'.bind data, maxCallDepth, rows, state⟩ ∧
              (data.Rectangular → ∃ value,
                (evaluateRow ⟨program.bind data, maxCallDepth, rows, state⟩ row).1 = .ok value) := by
  constructor
  · rw [Formula.compile_isOk_iff, Formula.compile_isOk_iff, h.wellFormed_iff]
  · intro program program' hcompile hcompile'
    obtain ⟨main, functions, hformula, hprogram⟩ := Formula.compile_eq_ok.mp hcompile
    obtain ⟨main', functions', hother, hprogram'⟩ := Formula.compile_eq_ok.mp hcompile'
    have hnodes := h.compiledNodes_perm hformula hother
    have hmain := h.main_eq hformula hother
    refine ⟨?_, ?_, ?_, ?_⟩
    · rw [hprogram, hprogram', Formula.size_programOf, Formula.size_programOf, hnodes.length_eq]
    · rw [hprogram, hprogram']
      exact congrArg Node.count hmain
    · rw [hprogram, hprogram']
      exact (hnodes.map Node.callSize).sum_eq
    · intro data maxCallDepth rows state row
      constructor
      · rw [hprogram, hprogram']
        refine matchAt_of_outcomeAt fun value after => ⟨?_, ?_⟩
        · exact outcomeAt_reordered h hformula hother data maxCallDepth rows state row
        · exact outcomeAt_reordered h.symm hother hformula data maxCallDepth rows state row
      · intro hdata
        exact ⟨_, evaluateRow_eq_ok.mpr (outcomeAt_eq hcompile hdata _ rfl row)⟩

/-- With the outer function before the inner one, both stand at other addresses, and the calls lead
there. -/
theorem evaluateRow_reordered_nested :
    Nested.formula.Reordered Nested.reversed ∧
      Nested.formula.compile [] = .ok (Formula.programOf Nested.main Nested.functions) ∧
      Nested.reversed.compile [] = .ok (Formula.programOf Nested.main Nested.functions.reverse) ∧
      (Formula.programOf Nested.main Nested.functions).entryPoints =
        [("inner", 4), ("outer", 6)] ∧
      (Formula.programOf Nested.main Nested.functions.reverse).entryPoints =
        [("outer", 4), ("inner", 11)] ∧
      MatchAt 2
        ⟨(Formula.programOf Nested.main Nested.functions).bind Recall.data, 3, .indices [], {}⟩
        ⟨(Formula.programOf Nested.main Nested.functions.reverse).bind Recall.data, 3,
          .indices [], {}⟩ :=
  ⟨Nested.reordered_reversed, Nested.compile_formula, Nested.compile_reversed, by decide, by decide,
    (((evaluateRow_reordered Nested.reordered_reversed).2 _ _ Nested.compile_formula
      Nested.compile_reversed).2.2.2 Recall.data 3 (.indices []) {} 2).1⟩

end Evaluation

end FormulaEngine
