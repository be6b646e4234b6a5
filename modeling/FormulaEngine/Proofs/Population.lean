import FormulaEngine.Population
import FormulaEngine.Proofs.Batch.Agreement
import FormulaEngine.Proofs.Refusal

/-!
# Populations and compilation

What the entries of a population say about their formulas. A formula that compiles has the values
that the scalar interpreter gives, whichever interpreter was meant for it. A formula that does not
compile has an error, with one exception: the batch interpreter looks at the main body and at
nothing else, so a formula whose main body suffices for a batch has the values of that body,
whatever is wrong with its functions.

- `Formula.BodySuffices`: a batch can run the main body, and it would compile on its own;
- `Node.layout_isOk_iff`: such a body is laid out, and no other body that a batch could run;
- `Answers`: what an entry says about its formula;
- `ScalarInterpreter.answers_evaluate`, `BatchInterpreter.answers_of_bodySuffices`,
  `BatchInterpreter.answers_of_not_bodySuffices`: the entries of the two interpreters;
- `Worker.Ready`: what an evaluation needs of a worker and leaves of it;
- `Worker.answers_evaluatePopulation`: the entries of a whole population.

Nothing here depends on what a worker has evaluated before, so it makes no difference how a
population is divided among workers.
-/

namespace FormulaEngine

/-! ## Main bodies -/

/-- A batch does not run calls. -/
theorem Node.symbol_ne_call {node : Node} (h : node.isBatchNode = true) (function : String) :
    node.symbol ≠ .call function := by
  intro hcall
  simp [isBatchNode, hcall, Symbol.opcode?, Opcode.isBatchSupported, Opcode.kernel?] at h

namespace Formula

variable {formula : Formula} {body : Node}

theorem isBatchEligible_iff (hbody : formula.body? = some body) :
    formula.isBatchEligible = true ↔ ∀ node ∈ body.preorder, node.isBatchNode = true := by
  simp only [isBatchEligible, hbody, Node.prefixOrder_eq, List.all_eq_true]

/-- Without calls only the nodes and their number matter to a lone body. -/
theorem wellFormed_ofBody (hbatch : ∀ node ∈ body.preorder, node.isBatchNode = true) :
    (ofBody body).WellFormed ↔
      (∀ node ∈ body.preorder, node.Supported) ∧ body.count ≤ addressLimit := by
  have hbody : (ofBody body).body? = some body := body?_withFunctions body []
  have hfunctions : (ofBody body).functions = [] := functions_withFunctions body []
  have hbodies : (ofBody body).bodies = [body] := by rw [bodies, hbody, hfunctions]; rfl
  have hnodes : Node.preorderAll [body] = body.preorder := by simp
  have hcount : Node.countAll [body] = body.count := by simp
  constructor
  · intro h
    have hsupported := h.nodes
    have hsize := h.size
    rw [hbodies, hnodes] at hsupported
    rw [hbodies, hcount] at hsize
    exact ⟨hsupported, hsize⟩
  · rintro ⟨hsupported, hsize⟩
    constructor
    · exact ⟨body, hbody⟩
    · rw [hfunctions]
      exact fun function hfunction => absurd hfunction List.not_mem_nil
    · rw [hfunctions]
      exact List.nodup_nil
    · rw [hbodies, hnodes]
      exact hsupported
    · rw [hbodies, hcount]
      exact hsize
    · rw [hbodies, hnodes]
      exact fun node hnode function hcall =>
        absurd hcall (Node.symbol_ne_call (hbatch node hnode) function)

/-- A batch can run every node of the main body, and the main body would compile without the
functions of the formula. -/
def BodySuffices (formula : Formula) : Prop :=
  formula.isBatchEligible = true ∧ ∃ body, formula.body? = some body ∧ (ofBody body).WellFormed

/-- A main body that suffices would compile on its own. -/
theorem BodySuffices.wellFormed (h : formula.BodySuffices) (hbody : formula.body? = some body) :
    (ofBody body).WellFormed := by
  obtain ⟨-, main, hmain, hwellFormed⟩ := h
  obtain rfl := Option.some.inj (hmain.symm.trans hbody)
  exact hwellFormed

/-- A main body that suffices does so without the functions. -/
theorem BodySuffices.ofBody (h : formula.BodySuffices) (hbody : formula.body? = some body) :
    (ofBody body).BodySuffices := by
  have hlone : (Formula.ofBody body).body? = some body := body?_withFunctions body []
  have heligible := (isBatchEligible_iff hlone).mpr ((isBatchEligible_iff hbody).mp h.1)
  exact ⟨heligible, body, hlone, h.wellFormed hbody⟩

/-- The main body of a formula that compiles suffices if a batch can run it. -/
theorem WellFormed.bodySuffices (h : formula.WellFormed) (heligible : formula.isBatchEligible = true) :
    formula.BodySuffices := by
  obtain ⟨body, hbody⟩ := h.body
  have hbatch := (isBatchEligible_iff hbody).mp heligible
  have hbodies : formula.bodies = body :: formula.functions.filterMap (·.2) := by
    rw [bodies, hbody]
    rfl
  have hsupported := h.nodes
  have hsize := h.size
  rw [hbodies, Node.preorderAll_cons, List.forall_mem_append] at hsupported
  rw [hbodies, Node.countAll_cons] at hsize
  exact ⟨heligible, body, hbody, (wellFormed_ofBody hbatch).mpr ⟨hsupported.1, by omega⟩⟩

end Formula

/-- Where buffers fit into storage, the nodes that a batch can run are laid out when they would
compile. The layout takes them in another order, but they are the same nodes. -/
theorem Node.layout_isOk_iff {body : Node} {cache : ColumnCache} {lanes : Nat}
    (hlanes : lanes ≤ storageLimit) (hbatch : ∀ node ∈ body.preorder, node.isBatchNode = true) :
    (∃ code, body.layout cache lanes = .ok code) ↔ (Formula.ofBody body).WellFormed := by
  have hperm := body.breadthOrder_levelOrder.perm_preorder
  rw [Formula.wellFormed_ofBody hbatch, ← length_preorder, ← hperm.length_eq]
  constructor
  · rintro ⟨code, hcode⟩
    obtain ⟨hsupported, hsize, -, -⟩ := layout_eq_ok.mp hcode
    exact ⟨fun node hnode => (batchSupported_iff.mp
      (hsupported node (hperm.mem_iff.mpr hnode))).1, hsize⟩
  · rintro ⟨hsupported, hsize⟩
    refine ⟨_, layout_eq_ok.mpr ⟨fun node hnode => ?_, hsize, hlanes, rfl⟩⟩
    have hmem := hperm.mem_iff.mp hnode
    exact batchSupported_iff.mpr ⟨hsupported node hmem, hbatch node hmem⟩

/-! ## Batches -/

namespace BatchInterpreter

variable {batch : BatchInterpreter} {formula : Formula} {data : Dataset} {rows : Rows}

theorem lanes_le (h : batch.batchSize ≤ storageLimit) : batch.lanes rows ≤ storageLimit := by
  rw [lanes, if_pos h]
  omega

/-- A batch looks at the main body only. -/
theorem evaluate_congr {other : Formula} (h : formula.body? = other.body?) :
    batch.evaluate formula data rows = batch.evaluate other data rows := by
  unfold evaluate
  rw [h]

/-- A main body that suffices is evaluated, whatever the functions are. -/
theorem evaluate_eq_values (hdata : data.Rectangular)
    (hsize : 1 ≤ batch.batchSize ∧ batch.batchSize ≤ storageLimit)
    (hcached : ∀ name, (batch.cache.refresh data).2.get? name = data.numeric? name)
    (hbody : formula.BodySuffices) (maxCallDepth : Nat) :
    (batch.evaluate formula data rows).1 = formula.values data maxCallDepth rows := by
  obtain ⟨heligible, body, hbody, hwellFormed⟩ := hbody
  obtain ⟨code, hlayout⟩ := (Node.layout_isOk_iff (lanes_le hsize.2)
    ((Formula.isBatchEligible_iff hbody).mp heligible)).mpr hwellFormed
  exact evaluate_eq hdata hsize.1 hcached hbody hlayout maxCallDepth

/-- A main body that a batch could run but that would not compile is refused, not stopped. -/
theorem exists_error (hsize : batch.batchSize ≤ storageLimit)
    (heligible : formula.isBatchEligible = true) (hbody : ¬ formula.BodySuffices) :
    ∃ cause, (batch.evaluate formula data rows).1 = .error (.error cause) := by
  cases hmain : formula.body? with
  | none => simp [Formula.isBatchEligible, hmain] at heligible
  | some body =>
    have hbatch := (Formula.isBatchEligible_iff hmain).mp heligible
    cases hlayout : body.layout (batch.cache.refresh data).2 (batch.lanes rows) with
    | ok code =>
      have hwellFormed := (Node.layout_isOk_iff (lanes_le hsize) hbatch).mp ⟨code, hlayout⟩
      exact absurd ⟨heligible, body, hmain, hwellFormed⟩ hbody
    | error failure =>
      have hrefused : (batch.evaluate formula data rows).1 = .error failure := by
        unfold evaluate
        simp only [hmain, hlayout]
      cases failure with
      | error cause => exact ⟨cause, hrefused⟩
      | fault cause =>
        have hlacks := (body.layout_fault _ _ cause hlayout).2
        exact absurd (lanes_le hsize) (Nat.not_le.mpr hlacks)

end BatchInterpreter

/-! ## Entries -/

/-- What the entry of a formula says, compared with a scalar interpreter of the same limit of nested
calls. -/
structure Answers (maxCallDepth : Nat) (data : Dataset) (rows : Rows) (formula : Formula)
    (entry : Entry) : Prop where
  /-- A formula that compiles has exactly the values that the scalar interpreter gives. -/
  accepted : ∀ program, formula.compile [] = .ok program → ∃ values, entry = .ok values ∧
    (ScalarInterpreter.evaluate { maxCallDepth } formula data rows).1 = .ok values
  /-- A formula that does not compile has an error exactly if its main body does not suffice. -/
  refused : ∀ cause, formula.compile [] = .error cause →
    ((∃ found, entry = .error found) ↔ ¬ formula.BodySuffices)
  /-- Where no batch is run the error is that of the compilation. -/
  reported : ∀ cause, formula.compile [] = .error cause → formula.isBatchEligible = false →
    entry = .error cause
  /-- A main body that suffices has the values that it would have without the functions. -/
  neglected : ∀ body, formula.body? = some body → formula.BodySuffices → ∃ values, entry = .ok values ∧
    (ScalarInterpreter.evaluate { maxCallDepth } (.ofBody body) data rows).1 = .ok values

section Entries

variable {formula : Formula} {data : Dataset} {rows : Rows}

/-- A formula that a batch cannot run has what its compilation says. -/
theorem ScalarInterpreter.answers_evaluate {interpreter : ScalarInterpreter}
    (hhooks : interpreter.hooks = []) (hdata : data.Rectangular) (hroom : rows.size ≤ storageLimit)
    (heligible : formula.isBatchEligible = false) :
    ∃ entry, Entry.ofResult (interpreter.evaluate formula data rows).1 = .ok entry ∧
      Answers interpreter.maxCallDepth data rows formula entry := by
  have hnot : ¬ formula.BodySuffices := by
    rintro ⟨h, -⟩
    rw [heligible] at h
    cases h
  cases hcompile : formula.compile [] with
  | ok program =>
    have hvalues := @evaluate_eq_map interpreter _ _ _ rows hhooks hcompile hdata
    have halone := @evaluate_eq_map { maxCallDepth := interpreter.maxCallDepth } _ _ _ rows rfl
      hcompile hdata
    rw [if_pos hroom] at hvalues halone
    refine ⟨_, congrArg Entry.ofResult hvalues, fun _ _ => ⟨_, rfl, halone⟩, ?_, ?_,
      fun _ _ hsuffices => absurd hsuffices hnot⟩
    · intro cause hrefused
      rw [hcompile] at hrefused
      cases hrefused
    · intro cause hrefused
      rw [hcompile] at hrefused
      cases hrefused
  | error cause =>
    refine ⟨_, congrArg Entry.ofResult (evaluate_eq_error hhooks hcompile), ?_, ?_, ?_,
      fun _ _ hsuffices => absurd hsuffices hnot⟩
    · intro program haccepted
      rw [hcompile] at haccepted
      cases haccepted
    · exact fun _ _ => ⟨fun _ => hnot, fun _ => ⟨cause, rfl⟩⟩
    · intro found hrefused _
      rw [hcompile] at hrefused
      cases hrefused
      rfl

namespace BatchInterpreter

variable {batch : BatchInterpreter}

/-- A formula whose main body suffices has values, with functions or without. -/
theorem answers_of_bodySuffices (hdata : data.Rectangular) (hcounted : data.rows ≤ cursorLimit)
    (hsize : 1 ≤ batch.batchSize ∧ batch.batchSize ≤ storageLimit)
    (hcached : ∀ name, (batch.cache.refresh data).2.get? name = data.numeric? name)
    (hroom : rows.size ≤ storageLimit) (hsuffices : formula.BodySuffices) (maxCallDepth : Nat) :
    ∃ entry, Entry.ofResult (batch.evaluate formula data rows).1 = .ok entry ∧
      Answers maxCallDepth data rows formula entry := by
  have hscalar : ∀ {other : Formula} {program : Program}, other.compile [] = .ok program →
      (ScalarInterpreter.evaluate { maxCallDepth } other data rows).1 =
        other.values data maxCallDepth rows :=
    fun hcompile => ScalarInterpreter.evaluate_eq_values rfl hcompile hdata hcounted
  obtain ⟨values, hvalues⟩ : ∃ values, formula.values data maxCallDepth rows = .ok values :=
    Formula.exists_values hroom
  have hbatch : (batch.evaluate formula data rows).1 = .ok values :=
    (evaluate_eq_values hdata hsize hcached hsuffices maxCallDepth).trans hvalues
  refine ⟨.ok values, congrArg Entry.ofResult hbatch, ?_, ?_, ?_, ?_⟩
  · intro program hcompile
    exact ⟨values, rfl, (hscalar hcompile).trans hvalues⟩
  · intro cause _
    refine ⟨?_, fun h => absurd hsuffices h⟩
    rintro ⟨found, hfound⟩
    cases hfound
  · intro cause _ heligible
    rw [hsuffices.1] at heligible
    cases heligible
  · intro body hbody _
    obtain ⟨program, hcompile⟩ := Formula.compile_isOk_iff.mpr (hsuffices.wellFormed hbody)
    have hsame : (batch.evaluate (.ofBody body) data rows).1 = .ok values :=
      evaluate_congr (hbody.trans (Formula.body?_withFunctions body []).symm) ▸ hbatch
    rw [evaluate_eq_values hdata hsize hcached (hsuffices.ofBody hbody) maxCallDepth] at hsame
    exact ⟨values, rfl, (hscalar hcompile).trans hsame⟩

/-- A formula that a batch could run but whose main body does not suffice has an error. -/
theorem answers_of_not_bodySuffices (hsize : batch.batchSize ≤ storageLimit)
    (heligible : formula.isBatchEligible = true) (hnot : ¬ formula.BodySuffices)
    (maxCallDepth : Nat) :
    ∃ entry, Entry.ofResult (batch.evaluate formula data rows).1 = .ok entry ∧
      Answers maxCallDepth data rows formula entry := by
  obtain ⟨cause, hrefused⟩ := exists_error hsize heligible hnot
  refine ⟨.error cause, congrArg Entry.ofResult hrefused, ?_, ?_, ?_, ?_⟩
  · intro program hcompile
    have hwellFormed := Formula.compile_isOk_iff.mp ⟨program, hcompile⟩
    exact absurd (hwellFormed.bodySuffices heligible) hnot
  · exact fun _ _ => ⟨fun _ => hnot, fun _ => ⟨cause, rfl⟩⟩
  · intro _ _ h
    rw [heligible] at h
    cases h
  · intro body _ hsuffices
    exact absurd hsuffices hnot

end BatchInterpreter

end Entries

/-! ## Workers -/

namespace Worker

variable {known : Dataset → Prop} {maxCallDepth : Nat} {worker : Worker} {data : Dataset}
  {rows : Rows} {formula : Formula}

/-- A worker without hooks, with chunks that storage can hold, and with a cache that known datasets
have led to. -/
structure Ready (known : Dataset → Prop) (maxCallDepth : Nat) (worker : Worker) : Prop where
  hooks : worker.scalar.hooks = []
  depth : worker.scalar.maxCallDepth = maxCallDepth
  chunk : 1 ≤ worker.batch.batchSize ∧ worker.batch.batchSize ≤ storageLimit
  cache : worker.batch.cache.Reached known

/-- A new worker is ready for whatever is known. -/
theorem ready_new (known : Dataset → Prop) : Ready known defaultMaxCallDepth {} :=
  ⟨rfl, rfl, by decide, .empty⟩

/-- An evaluation leaves a worker ready, whatever comes of it. -/
theorem ready_evaluate (hworker : worker.Ready known maxCallDepth) (hmember : known data)
    (rows : Rows) (formula : Formula) :
    (worker.evaluate data rows formula).2.Ready known maxCallDepth := by
  unfold evaluate
  split
  · refine ⟨hworker.hooks, hworker.depth, ?_,
      BatchInterpreter.reached_evaluate hworker.cache hmember⟩
    show 1 ≤ (worker.batch.evaluate formula data rows).2.batchSize ∧ _
    rw [BatchInterpreter.batchSize_evaluate]
    exact hworker.chunk
  · obtain ⟨hhooks, hdepth⟩ := worker.scalar.evaluate_settings formula data rows
    exact ⟨hhooks.trans hworker.hooks, hdepth.trans hworker.depth, hworker.chunk, hworker.cache⟩

/-- One evaluation, whichever interpreter is meant for the formula. -/
theorem answers_evaluate (hknown : Identified known) (hmember : known data)
    (hdata : data.Rectangular) (hcounted : data.rows ≤ cursorLimit)
    (hworker : worker.Ready known maxCallDepth) (hroom : rows.size ≤ storageLimit)
    (formula : Formula) :
    ∃ entry, Entry.ofResult (worker.evaluate data rows formula).1 = .ok entry ∧
      Answers maxCallDepth data rows formula entry := by
  have hcached := ColumnCache.get?_refresh hknown hworker.cache hmember
  unfold evaluate
  split
  · next heligible =>
    by_cases hsuffices : formula.BodySuffices
    · exact BatchInterpreter.answers_of_bodySuffices hdata hcounted hworker.chunk hcached hroom
        hsuffices _
    · exact BatchInterpreter.answers_of_not_bodySuffices hworker.chunk.2 heligible hsuffices _
  · next heligible =>
    rw [← hworker.depth]
    exact ScalarInterpreter.answers_evaluate hworker.hooks hdata hroom (by simpa using heligible)

/-! ## Populations -/

/-- A formula that has an entry is followed by the others. -/
theorem evaluatePopulation_cons {entry : Entry}
    (h : Entry.ofResult (worker.evaluate data rows formula).1 = .ok entry) (rest : List Formula) :
    worker.evaluatePopulation data rows (formula :: rest) =
      ((worker.evaluate data rows formula).2.evaluatePopulation data rows rest).map
        fun (entries, after) => (entry :: entries, after) := by
  rw [evaluatePopulation]
  dsimp only
  rw [h]
  rfl

/-- If all values can be kept and the rows of the dataset can be counted, a population has an entry
for every formula, in their order, and the entry says of the formula what it would say if the formula
were evaluated alone. -/
theorem answers_evaluatePopulation (hknown : Identified known) (hmember : known data)
    (hdata : data.Rectangular) (hcounted : data.rows ≤ cursorLimit)
    (hworker : worker.Ready known maxCallDepth) (hroom : rows.size ≤ storageLimit)
    (population : List Formula) :
    ∃ entries after, worker.evaluatePopulation data rows population = .ok (entries, after) ∧
      List.Forall₂ (Answers maxCallDepth data rows) population entries := by
  induction population generalizing worker with
  | nil => exact ⟨[], worker, rfl, .nil⟩
  | cons first rest ih =>
    obtain ⟨entry, hentry, hanswers⟩ :=
      answers_evaluate hknown hmember hdata hcounted hworker hroom first
    obtain ⟨entries, after, hrest, hall⟩ := ih (ready_evaluate hworker hmember rows first)
    refine ⟨entry :: entries, after, ?_, .cons hanswers hall⟩
    rw [evaluatePopulation_cons hentry, hrest]
    rfl

end Worker

/-! ## A function that nothing calls -/

namespace IdleFunction

/-- Three times `x`, beside a function that no instruction can stand for. -/
def formula : Formula :=
  .withFunctions (.leaf (.numericVariable "x" 3.0)) [("F", .leaf (.custom "Sigmoid"))]

def data : Dataset := ⟨0, false, 2, [("x", .numeric #[1.0, 2.0])]⟩

/-- The second formula does not compile, the others do; the last one is not for a batch. -/
def population : List Formula := [WhatIf.formula, formula, Recall.formula]

theorem rectangular_data : data.Rectangular := by
  intro column hcolumn
  simp only [data, List.mem_singleton] at hcolumn
  rw [hcolumn]
  rfl

theorem identified_data : Identified (· = data) := by
  rintro first second rfl rfl _ _ _ name
  rfl

end IdleFunction

namespace Worker

/-- The formula that does not compile has the values of its main body. -/
theorem answers_evaluatePopulation_idleFunction :
    Identified (· = IdleFunction.data) ∧ IdleFunction.data.Rectangular ∧
      IdleFunction.data.rows ≤ cursorLimit ∧
      Ready (· = IdleFunction.data) defaultMaxCallDepth {} ∧ (Rows.range 0 2).size ≤ storageLimit ∧
      ∃ entries after,
        evaluatePopulation {} IdleFunction.data (.range 0 2) IdleFunction.population =
          .ok (entries, after) ∧
        List.Forall₂ (Answers defaultMaxCallDepth IdleFunction.data (.range 0 2))
          IdleFunction.population entries := by
  have hcounted : IdleFunction.data.rows ≤ cursorLimit := by decide
  have hroom : (Rows.range 0 2).size ≤ storageLimit := by decide
  exact ⟨IdleFunction.identified_data, IdleFunction.rectangular_data, hcounted, ready_new _, hroom,
    answers_evaluatePopulation IdleFunction.identified_data rfl IdleFunction.rectangular_data hcounted
      (ready_new _) hroom IdleFunction.population⟩

/-- Compilation refuses a formula for a function, and a worker gives values for it. -/
theorem evaluatePopulation_idleFunction :
    IdleFunction.formula.compile [] = .error (.unsupportedSymbol "Sigmoid") ∧
      (evaluatePopulation {} IdleFunction.data (.range 0 2) [IdleFunction.formula]).map (·.1) =
        .ok [.ok [3.0, 6.0]] := by
  constructor
  · exact (Formula.compile_decidedBy IdleFunction.formula _).mpr (by decide)
  · decide +kernel

end Worker

end FormulaEngine
