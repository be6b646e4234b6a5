import FormulaEngine.Proofs.Subtrees

/-!
# Connectives

Which truth values conjunctions, disjunctions and exclusive disjunctions give, said on the values
that their operands have of their own. A conjunction stops at the first operand that is not true, so
the operands behind it make no difference. A disjunction stops at the first operand that is not at
most zero, and that may be NaN, which is not true: then the operands behind it are not looked at,
although one of them may be true.

- `Affirmed`: some value is true, and all values before it are numbers;
- `lastOf_holds`, `lastOf_nonpositive`: where operands that are run one after another stop;
- `Connects`: the truth values of the connectives;
- `Node.deMorgan`: a disjunction written with negations and a conjunction;
- `Evaluation.connectives_tell_truth`: the connectives of a compiled program give these truth values
  in every state in which a run of it fetches an instruction, and the other way of writing a
  disjunction gives another value only if NaN keeps the disjunction from a true operand.
-/

namespace FormulaEngine

open Arithmetic Meaning

/-! ## Numbers and truth -/

section Numbers

open Float.Model

theorem unpack_zero : (0.0 : Float).toModel.unpack = .zero .positive := rfl

/-- What is at most zero is neither true nor NaN, and all the rest is one of the two. -/
theorem le_zero_iff (x : Float) : x ≤ 0.0 ↔ holds x = false ∧ x.isNaN = false := by
  have hle : x ≤ 0.0 ↔ x.toModel.unpack.le (.zero .positive) = true := by
    rw [← unpack_zero]
    exact decide_eq_true_iff
  have hholds : holds x = UnpackedFloat.lt (.zero .positive) x.toModel.unpack := by
    rw [← unpack_zero, Bool.eq_iff_iff]
    exact decide_eq_true_iff.trans decide_eq_true_iff
  have hnan : x.isNaN = x.toModel.unpack.isNaN := rfl
  rw [hle, hholds, hnan]
  generalize x.toModel.unpack = unpacked
  cases unpacked with
  | notANumber => decide
  | infinity sign => cases sign <;> decide
  | zero sign => cases sign <;> decide
  | finite sign mantissa exponent hmantissa =>
    cases sign with
    | positive => exact iff_of_false Bool.false_ne_true fun h => Bool.false_ne_true h.1.symm
    | negative => exact iff_of_true rfl ⟨rfl, rfl⟩

end Numbers

/-- The value says whether the statement is true. -/
def TellsTruth (value : Float) (statement : Prop) : Prop :=
  (statement ∧ value = 1.0) ∨ (¬ statement ∧ value = -1.0)

theorem tellsTruth_truth {found : Bool} {statement : Prop} (h : found = true ↔ statement) :
    TellsTruth (truth found) statement := by
  rw [TellsTruth, ← h]
  cases found with
  | true => exact Or.inl ⟨rfl, rfl⟩
  | false => exact Or.inr ⟨Bool.false_ne_true, rfl⟩

theorem holds_truth (found : Bool) : holds (truth found) = found := by
  cases found <;> decide +kernel

theorem TellsTruth.holds_iff {value : Float} {statement : Prop} (h : TellsTruth value statement) :
    holds value = true ↔ statement := by
  rcases h with ⟨hs, rfl⟩ | ⟨hs, rfl⟩
  · exact iff_of_true (holds_truth true) hs
  · exact iff_of_false (Bool.eq_false_iff.mp (holds_truth false)) hs

/-- Values that tell the truth are the same for statements that are both true or both false. -/
theorem TellsTruth.eq_iff {value value' : Float} {statement statement' : Prop}
    (h : TellsTruth value statement) (h' : TellsTruth value' statement') :
    value = value' ↔ (statement ↔ statement') := by
  have hne : (1.0 : Float) ≠ -1.0 := by decide +kernel
  rcases h with ⟨hs, rfl⟩ | ⟨hs, rfl⟩ <;> rcases h' with ⟨hs', rfl⟩ | ⟨hs', rfl⟩ <;>
    simp [hs, hs', hne, hne.symm]

/-! ## Values one after another -/

/-- Some value is true, and all values before it are numbers. -/
def Affirmed (values : List Float) : Prop :=
  ∃ front value back, values = front ++ value :: back ∧ holds value = true ∧
    ∀ x ∈ front, x.isNaN = false

theorem affirmed_cons {first : Float} {rest : List Float} :
    Affirmed (first :: rest) ↔
      holds first = true ∨ (first.isNaN = false ∧ Affirmed rest) := by
  constructor
  · rintro ⟨front, value, back, hsplit, hvalue, hfront⟩
    cases front with
    | nil =>
      cases hsplit
      exact Or.inl hvalue
    | cons x front =>
      cases hsplit
      obtain ⟨hx, hfront⟩ := List.forall_mem_cons.mp hfront
      exact Or.inr ⟨hx, front, value, back, rfl, hvalue, hfront⟩
  · rintro (hfirst | ⟨hfirst, front, value, back, rfl, hvalue, hfront⟩)
    · exact ⟨[], first, rest, rfl, hfirst, List.forall_mem_nil _⟩
    · exact ⟨first :: front, value, back, rfl, hvalue, List.forall_mem_cons.mpr ⟨hfirst, hfront⟩⟩

theorem not_affirmed_nil : ¬ Affirmed [] := by
  rintro ⟨front, value, back, hsplit, -⟩
  simp at hsplit

theorem Affirmed.exists_holds {values : List Float} (h : Affirmed values) :
    ∃ value ∈ values, holds value = true := by
  obtain ⟨front, value, back, rfl, hvalue, -⟩ := h
  exact ⟨value, by simp, hvalue⟩

/-- Only where some value is true does it matter that NaN comes first. -/
theorem affirmed_iff_exists_iff {values : List Float} :
    (Affirmed values ↔ ∃ value ∈ values, holds value = true) ↔
      (Affirmed values ∨ ∀ value ∈ values, holds value = false) := by
  by_cases h : Affirmed values
  · exact iff_of_true (iff_of_true h h.exists_holds) (Or.inl h)
  · simp [h]

/-- Values that are looked at while they are true end with a true one if all are true. -/
theorem lastOf_holds (first : Float) (rest : List Float) :
    holds (lastOf holds first rest) = true ↔ ∀ value ∈ first :: rest, holds value = true := by
  induction rest generalizing first with
  | nil => simp [lastOf]
  | cons next rest ih =>
    rw [lastOf, List.forall_mem_cons]
    by_cases hfirst : holds first = true
    · rw [if_pos hfirst, ih next]
      simp [hfirst]
    · rw [if_neg hfirst]
      simp [hfirst]

/-- Values that are looked at while they are at most zero end with a true one if no NaN comes before
the first that is true. -/
theorem lastOf_nonpositive (first : Float) (rest : List Float) :
    holds (lastOf (· ≤ 0.0) first rest) = true ↔ Affirmed (first :: rest) := by
  induction rest generalizing first with
  | nil => simp [lastOf, affirmed_cons, not_affirmed_nil]
  | cons next rest ih =>
    rw [lastOf, affirmed_cons]
    by_cases hle : first ≤ 0.0
    · obtain ⟨hholds, hnan⟩ := (le_zero_iff first).mp hle
      rw [if_pos (decide_eq_true hle), ih next, hholds]
      exact ⟨fun hrest => Or.inr ⟨hnan, hrest⟩,
        fun hfound => hfound.elim (absurd · Bool.false_ne_true) (·.2)⟩
    · rw [if_neg (by simpa using hle)]
      -- what is not at most zero is true, or it is NaN
      by_cases hholds : holds first = true
      · exact iff_of_true hholds (Or.inl hholds)
      · have hnan : first.isNaN ≠ false :=
          fun hnan => hle ((le_zero_iff first).mpr ⟨Bool.eq_false_iff.mpr hholds, hnan⟩)
        exact iff_of_false hholds fun hfound => hfound.elim hholds fun hrest => hnan hrest.1

/-! ## Nodes -/

/-- What the connectives make of the values of their operands. -/
structure Connects (op : Opcode) (values : List Float) (result : Float) : Prop where
  conjunction : op = .conjunction → TellsTruth result (∀ value ∈ values, holds value = true)
  disjunction : op = .disjunction → TellsTruth result (Affirmed values)
  exclusiveOr : op = .exclusiveOr → TellsTruth result (values.countP holds % 2 = 1)

/-- Each connective is the only symbol with its opcode. -/
theorem Symbol.connective_of_opcode? {symbol : Symbol} {op : Opcode}
    (h : symbol.opcode? = some op) :
    (op = .conjunction → symbol = .conjunction) ∧ (op = .disjunction → symbol = .disjunction) ∧
      (op = .exclusiveOr → symbol = .exclusiveOr) := by
  refine ⟨?_, ?_, ?_⟩ <;> rintro rfl <;> cases symbol <;> first | rfl | cases h

namespace Node

def negated (node : Node) : Node := ⟨.negation, [node]⟩

/-- No child holds exactly if all negations do, so this is a disjunction of the children. -/
def deMorgan (node : Node) : Node := negated ⟨.conjunction, node.children.map negated⟩

variable {node : Node} {op : Opcode} (scope : Scope) (row : Int)

theorem value_connects (hop : node.symbol.opcode? = some op)
    (haccepts : op.arity.accepts node.children.length = true) :
    Connects op (node.children.map (·.value scope row)) (node.value scope row) := by
  obtain ⟨hconjunction, hdisjunction, hexclusive⟩ := Symbol.connective_of_opcode? hop
  rw [value_eq]
  constructor
  · rintro rfl
    obtain ⟨first, rest, hsplit⟩ := List.exists_cons_of_length_pos (of_decide_eq_true haccepts)
    rw [hconjunction rfl, hsplit, List.map_cons, Symbol.value_conjunction, List.map_map]
    exact tellsTruth_truth (lastOf_holds _ _)
  · rintro rfl
    obtain ⟨first, rest, hsplit⟩ := List.exists_cons_of_length_pos (of_decide_eq_true haccepts)
    rw [hdisjunction rfl, hsplit, List.map_cons, Symbol.value_disjunction, List.map_map]
    exact tellsTruth_truth (lastOf_nonpositive _ _)
  · rintro rfl
    rw [hexclusive rfl, Symbol.value_of_combine? rfl, List.map_map]
    exact tellsTruth_truth decide_eq_true_iff

theorem value_negated (node : Node) :
    node.negated.value scope row = truth (!holds (node.value scope row)) := by
  have hvalue : node.negated.value scope row = negate (node.value scope row) := by
    rw [negated, value_eq]
    rfl
  rw [hvalue, negate]
  by_cases h : node.value scope row > 0.0
  · simp [holds, truth, h]
  · simp [holds, truth, h]

theorem value_deMorgan (hchildren : 1 ≤ node.children.length) :
    TellsTruth (node.deMorgan.value scope row)
      (∃ value ∈ node.children.map (·.value scope row), holds value = true) := by
  have haccepts : Opcode.conjunction.arity.accepts (node.children.map negated).length = true := by
    rw [List.length_map]
    exact decide_eq_true hchildren
  have hinner := (@value_connects ⟨.conjunction, node.children.map negated⟩ _ scope row rfl
    haccepts).conjunction rfl
  rw [deMorgan, value_negated]
  refine tellsTruth_truth ?_
  rw [Bool.not_eq_true', ← Bool.not_eq_true, hinner.holds_iff]
  simp [value_negated, holds_truth]

end Node

/-! ## Programs -/

namespace Evaluation

open Machine

variable {formula : Formula} {program : Program} {data : Dataset} {row : Nat}

/-- A run at a row of the dataset fetches instructions in startable states only. In every such state,
whatever the cursor, the frame and the number of running functions are, a connective gives the truth
value of what its operands have as values of their own. Where negations and a conjunction stand in
place of a disjunction, they tell whether any operand is true; that is the same, unless some operand
is true and NaN comes before all that are. They may stand alone, or in any program with the same
functions, such as the one that has them in the place of the disjunction. -/
theorem connectives_tell_truth (hcompile : formula.compile [] = .ok program)
    (hdata : data.Rectangular) {evaluation : Evaluation}
    (hprogram : evaluation.program = program.bind data) (hrow : row < data.rows) :
    evaluation.machine.Always (State.Startable evaluation.machine row) { cursor := row } ∧
      ∀ s, State.Startable evaluation.machine row s → ∀ i, program.code[s.pc]? = some i →
        ∃ values result after, evaluation.machine.OperandValues program s values ∧
          evaluation.machine.evaluate s = .done result after ∧ Connects i.opcode values result ∧
          (i.opcode = .disjunction → ∃ dual,
            i.node.deMorgan.value (s.scope evaluation.machine formula data) s.cursor = dual ∧
            TellsTruth dual (∃ value ∈ values, holds value = true) ∧
            (result = dual ↔ (Affirmed values ∨ ∀ value ∈ values, holds value = false)) ∧
            ∀ (other : Formula) (program' : Program) (evaluation' : Evaluation),
              other.functions = formula.functions → other.compile [] = .ok program' →
              evaluation'.program = program'.bind data →
              evaluation'.maxCallDepth = evaluation.maxCallDepth →
              ∀ address j, program'.code[address]? = some j → j.node = i.node.deMorgan →
                ∃ after, evaluation'.machine.evaluate { s with pc := address } =
                  .done dual after) := by
  obtain ⟨main, functions, hcompilable, rfl⟩ := Formula.compile_eq_ok.mp hcompile
  refine ⟨always_startable hcompilable hprogram hdata hrow, ?_⟩
  rintro s ⟨⟨-, hanchored⟩, hframed⟩ i hi
  rw [Formula.getElem?_programOf, Option.map_eq_some_iff] at hi
  obtain ⟨node, hnode, rfl⟩ := hi
  obtain ⟨op, hop, haccepts⟩ := (hcompilable.supported node (List.mem_of_getElem? hnode)).opcode
  have hopcode := Node.opcode_linked (Draft.addresses main.count functions) hop
  obtain ⟨after, hafter⟩ := evaluate_at hcompilable hprogram hdata hrow hanchored hframed hnode
  have hconnects := node.value_connects (s.scope evaluation.machine formula data) s.cursor hop haccepts
  refine ⟨_, _, after, operandValues hcompilable hprogram hdata hrow hanchored hframed hnode, hafter,
    hopcode ▸ hconnects, fun hdisjunction => ?_⟩
  obtain rfl : op = .disjunction := hopcode.symm.trans hdisjunction
  have htells := node.value_deMorgan (s.scope evaluation.machine formula data) s.cursor
    (of_decide_eq_true haccepts)
  refine ⟨_, rfl, htells,
    ((hconnects.disjunction rfl).eq_iff htells).trans affirmed_iff_exists_iff, ?_⟩
  intro other program' evaluation' hfunctions hcompile' hprogram' hlimit address j hj hdual
  -- the other way of writing it is started in the same frame, at the same row and depth
  obtain ⟨after', hafter'⟩ := evaluate_elsewhere hfunctions hcompile' hprogram' hlimit hdata hrow
    hanchored hframed hj
  exact ⟨after', hdual ▸ hafter'⟩

end Evaluation

/-! ## A disjunction that does not get to a true operand -/

namespace Unknown

/-- Whether the number before the first row or one is above zero. -/
def either : Node :=
  ⟨.disjunction, [.leaf (.laggedVariable "x" 1.0 (-1)), .leaf (.constant 1.0)]⟩

def main : Node := ⟨.addition, [either, either.deMorgan]⟩

def formula : Formula := .ofBody main

def program : Program := Formula.programOf main []

def data : Dataset := ⟨0, false, 1, [("x", .numeric #[2.0])]⟩

def evaluation : Evaluation := ⟨program.bind data, 3, .indices [], {}⟩

theorem compile_formula : formula.compile [] = .ok program := by
  refine Formula.compile_eq_ok.mpr ⟨main, [], ?_, rfl⟩
  constructor
  · rfl
  · rfl
  · decide
  · decide
  · decide
  · decide

theorem rectangular_data : data.Rectangular := by
  intro column hcolumn
  simp only [data, List.mem_singleton] at hcolumn
  rw [hcolumn]
  rfl

/-- Where the sum has been fetched and the disjunction comes next. -/
def start : Machine.State := { pc := 1, executed := 1 }

theorem startable_start : start.Startable evaluation.machine 0 :=
  ⟨⟨by decide +kernel, fun _ => rfl⟩, Or.inl ⟨rfl, rfl⟩⟩

end Unknown

deriving instance DecidableEq for Machine.Outcome

namespace Evaluation

/-- The disjunction and the other way of writing it, both started behind the fetch of the sum. -/
theorem connectives_tell_truth_unknown :
    Unknown.formula.compile [] = .ok Unknown.program ∧ Unknown.data.Rectangular ∧
      0 < Unknown.data.rows ∧ Unknown.start.Startable Unknown.evaluation.machine 0 ∧
      ∃ values result after,
        Unknown.evaluation.machine.OperandValues Unknown.program Unknown.start values ∧
          Unknown.evaluation.machine.evaluate Unknown.start = .done result after ∧
          TellsTruth result (Affirmed values) ∧
          ∃ dual after,
            Unknown.evaluation.machine.evaluate { Unknown.start with pc := 4 } = .done dual after ∧
              (result = dual ↔ (Affirmed values ∨ ∀ value ∈ values, holds value = false)) := by
  obtain ⟨-, htruth⟩ := connectives_tell_truth Unknown.compile_formula Unknown.rectangular_data
    (show Unknown.evaluation.program = Unknown.program.bind Unknown.data from rfl)
    (show 0 < Unknown.data.rows by decide)
  obtain ⟨values, result, after, hvalues, hresult, hconnects, hdual⟩ :=
    htruth _ Unknown.startable_start _ rfl
  obtain ⟨dual, -, -, hsame, hprograms⟩ := hdual rfl
  obtain ⟨after', hafter'⟩ := hprograms Unknown.formula _ Unknown.evaluation rfl
    Unknown.compile_formula rfl rfl 4 _ rfl rfl
  exact ⟨Unknown.compile_formula, Unknown.rectangular_data, by decide, Unknown.startable_start,
    values, result, after, hvalues, hresult, hconnects.disjunction rfl, dual, after', hafter', hsame⟩

/-- The second operand is true, the disjunction is not, and the other way of writing it is. -/
theorem disjunction_misses_true_operand :
    Unknown.formula.compile [] = .ok Unknown.program ∧ Unknown.data.Rectangular ∧
      0 < Unknown.data.rows ∧ Unknown.start.Startable Unknown.evaluation.machine 0 ∧
      Unknown.program.code[Unknown.start.pc]?.map (·.node) = some Unknown.either ∧
      Unknown.program.operandAddress? Unknown.start.pc 1 = some 3 ∧
      Unknown.evaluation.machine.evaluate { Unknown.start with pc := 3 } =
        .done 1.0 { pc := 4, executed := 2 } ∧
      holds 1.0 = true ∧
      Unknown.evaluation.machine.evaluate Unknown.start = .done (-1.0) { pc := 4, executed := 3 } ∧
      Unknown.program.code[4]?.map (·.node) = some Unknown.either.deMorgan ∧
      Unknown.evaluation.machine.evaluate { Unknown.start with pc := 4 } =
        .done 1.0 { pc := 10, executed := 7 } := by
  refine ⟨Unknown.compile_formula, Unknown.rectangular_data, by decide, Unknown.startable_start,
    rfl, by decide, ?_, ?_, ?_, rfl, ?_⟩
  · decide +kernel
  · decide +kernel
  · decide +kernel
  · decide +kernel

end Evaluation

end FormulaEngine
