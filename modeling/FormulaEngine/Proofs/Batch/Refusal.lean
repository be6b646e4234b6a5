import FormulaEngine.Proofs.Batch.Buffers
import FormulaEngine.Proofs.Batch.Levels
import FormulaEngine.Proofs.Population

/-!
# Formulas that a batch refuses

Which formulas the batch interpreter evaluates, and with which error it refuses the others. It makes
the checks of compilation, and one more for every node, on the main body alone and level by level.
So it may report another defect than compilation does, and it may evaluate what compilation refuses;
but without functions it evaluates what compilation accepts, if it can run it at all.

- `Node.batchChecks`, `Formula.batchChecks`: what a batch looks at, in this order;
- `DecidedUnlessStopped`: a computation that ends as its checks say, or for want of storage;
- `Node.layout_decided`: the checks of a body decide its layout;
- `Formula.BatchWellFormed`: what all checks together demand;
- `Formula.DecidesBatch`: what an evaluation comes to, read off the formula;
- `BatchInterpreter.evaluate_decided`: this is what it comes to, whatever the cache and the dataset
  are;
- `BatchInterpreter.evaluate_overfull`: without the room a well-formed formula has no values.
-/

namespace FormulaEngine

/-! ## Checks level by level -/

/-- The checks of a node that is laid out at a position of a body with `required` nodes: those of
compilation, and behind the one for the symbol one more for its opcode. -/
def Node.batchChecks (required position : Nat) (node : Node) : List Check :=
  (node.checks required position).insertIdx 1
    ⟨node.symbol.opcode?.all Opcode.isBatchSupported,
      .unsupportedBatchOpcode (node.symbol.opcode?.getD .constant)⟩

/-- The checks of nodes that are laid out one after another. -/
def layoutChecks (required start : Nat) (nodes : List Node) : List Check :=
  (nodes.zipIdx start).flatMap fun (node, position) => node.batchChecks required position

theorem layoutChecks_cons (required start : Nat) (node : Node) (rest : List Node) :
    layoutChecks required start (node :: rest) =
      node.batchChecks required start ++ layoutChecks required (start + 1) rest := by
  rw [layoutChecks, List.zipIdx_cons, List.flatMap_cons]
  rfl

/-- Everything that a batch looks at, in this order. -/
def Formula.batchChecks (formula : Formula) : List Check :=
  ⟨formula.body?.isSome, .malformedTree .noBody⟩ ::
    formula.body?.toList.flatMap fun body => layoutChecks body.count 0 body.levels.flatten

/-- Unless it stops, the computation is refused with the error of the first check that fails, and
succeeds if none fails. -/
def DecidedUnlessStopped {α : Type} (checks : List Check) : Except Failure α → Prop
  | .ok _ => firstError? checks = none
  | .error (.error cause) => firstError? checks = some cause
  | .error (.fault _) => True

namespace DecidedUnlessStopped

variable {α β : Type} {checks later : List Check} {first : Except Failure α}

/-- The checks of a computation come before those of what follows it. -/
theorem bind {next : α → Except Failure β} (hfirst : DecidedUnlessStopped checks first)
    (hnext : ∀ value, first = .ok value → DecidedUnlessStopped later (next value)) :
    DecidedUnlessStopped (checks ++ later) (first >>= next) := by
  cases first with
  | ok value =>
    have hpassed : firstError? checks = none := hfirst
    have hrest := hnext value rfl
    show DecidedUnlessStopped (checks ++ later) (next value)
    unfold DecidedUnlessStopped at hrest ⊢
    rwa [firstError?_append, hpassed, Option.none_or]
  | error failure =>
    cases failure with
    | error cause =>
      have hfailed : firstError? checks = some cause := hfirst
      show firstError? (checks ++ later) = some cause
      rw [firstError?_append, hfailed, Option.some_or]
    | fault cause => exact trivial

end DecidedUnlessStopped

/-! ## Layout -/

namespace BatchDraft

variable (cache : ColumnCache) (lanes required : Nat)

theorem accept_decidedBy (draft : BatchDraft) (node : Node) :
    DecidedBy (node.batchChecks required draft.code.size) (accept required draft node) := by
  intro cause
  unfold accept Node.opcode Node.checkChildren Node.batchChecks Node.checks firstError?
  cases hop : node.symbol.opcode? with
  | none => simp [bind, Except.bind]
  | some op =>
    unfold Opcode.kernel
    cases hkernel : op.kernel? with
    | none => simp [bind, Except.bind, Opcode.isBatchSupported, hkernel]
    | some kernel =>
      by_cases hmany : addressLimit < node.children.length
      · simp [bind, Except.bind, Opcode.isBatchSupported, hkernel, hmany, Nat.not_le.mpr hmany]
      · by_cases haccepts : op.arity.accepts node.children.length = true
        · by_cases hfull : addressLimit ≤ draft.code.size
          · simp [bind, Except.bind, throw, throwThe, MonadExceptOf.throw, Opcode.isBatchSupported,
              hkernel, hmany, Nat.not_lt.mp hmany, haccepts, hfull, Nat.not_lt.mpr hfull]
          · simp [bind, Except.bind, pure, Except.pure, Opcode.isBatchSupported, hkernel, hmany,
              Nat.not_lt.mp hmany, haccepts, hfull, Nat.not_le.mp hfull]
        · simp [bind, Except.bind, Opcode.isBatchSupported, hkernel, hmany, Nat.not_lt.mp hmany,
            haccepts]

/-- Storage runs out only after the checks of the node. -/
theorem append_decided (draft : BatchDraft) (node : Node) :
    DecidedUnlessStopped (node.batchChecks required draft.code.size)
      (append cache lanes required draft node) := by
  have haccept := accept_decidedBy required draft node
  unfold append
  cases hresult : accept required draft node with
  | error cause => exact (haccept cause).mp hresult
  | ok accepted =>
    rw [hresult] at haccept
    by_cases hlanes : lanes ≤ storageLimit
    · simp [bind, Except.bind, pure, Except.pure, Except.mapError, filledBuffer, hlanes,
        DecidedUnlessStopped, haccept.eq_none]
    · simp [bind, Except.bind, Except.mapError, filledBuffer, hlanes, DecidedUnlessStopped]

theorem foldlM_append_decided (nodes : List Node) (draft : BatchDraft) :
    DecidedUnlessStopped (layoutChecks required draft.code.size nodes)
      (nodes.foldlM (append cache lanes required) draft) := by
  induction nodes generalizing draft with
  | nil => exact firstError?_nil
  | cons node rest ih =>
    rw [layoutChecks_cons, List.foldlM_cons]
    refine .bind (append_decided cache lanes required draft node) fun next hnext => ?_
    obtain ⟨-, -, -, rfl⟩ := append_eq_ok.mp hnext
    have hsize : (draft.extend cache lanes [node]).code.size = draft.code.size + 1 := by
      simp [extend, Node.laidOut]
    rw [← hsize]
    exact ih _

end BatchDraft

/-- The nodes of a body are checked level by level. -/
theorem Node.layout_decided (body : Node) (cache : ColumnCache) (lanes : Nat) :
    DecidedUnlessStopped (layoutChecks body.count 0 body.levels.flatten)
      (body.layout cache lanes) := by
  unfold layout
  rw [← breadthOrder_eq, ← List.append_nil (layoutChecks _ _ _)]
  exact .bind (BatchDraft.foldlM_append_decided cache lanes _ _ _) fun draft _ => firstError?_nil

/-! ## Formulas -/

namespace Formula

/-- What all checks of a batch demand together. Only a formula with a main body is eligible. -/
structure BatchWellFormed (formula : Formula) : Prop where
  eligible : formula.isBatchEligible = true
  nodes : ∀ body, formula.body? = some body → ∀ node ∈ body.preorder, node.Supported
  size : ∀ body, formula.body? = some body → body.count ≤ addressLimit

variable {formula other : Formula} {body : Node}

theorem exists_body_of_isBatchEligible (h : formula.isBatchEligible = true) :
    ∃ body, formula.body? = some body := by
  cases hbody : formula.body? with
  | none => simp [isBatchEligible, hbody] at h
  | some body => exact ⟨body, rfl⟩

/-- A batch demands of an eligible body what compilation demands of that body alone. -/
theorem batchWellFormed_iff (hbody : formula.body? = some body) :
    formula.BatchWellFormed ↔ formula.isBatchEligible = true ∧ (ofBody body).WellFormed := by
  constructor
  · intro h
    refine ⟨h.eligible, ?_⟩
    exact (wellFormed_ofBody ((isBatchEligible_iff hbody).mp h.eligible)).mpr
      ⟨h.nodes body hbody, h.size body hbody⟩
  · rintro ⟨heligible, hwellFormed⟩
    obtain ⟨hnodes, hsize⟩ :=
      (wellFormed_ofBody ((isBatchEligible_iff hbody).mp heligible)).mp hwellFormed
    constructor
    · exact heligible
    · rintro found hfound
      cases hbody.symm.trans hfound
      exact hnodes
    · rintro found hfound
      cases hbody.symm.trans hfound
      exact hsize

/-- Where storage does not run out, an eligible body is laid out when it satisfies a batch, and no
other body is. -/
theorem layout_isOk_iff_batchWellFormed {cache : ColumnCache} {lanes : Nat}
    (hbody : formula.body? = some body) (hlanes : lanes ≤ storageLimit) :
    (∃ code, body.layout cache lanes = .ok code) ↔ formula.BatchWellFormed := by
  rw [batchWellFormed_iff hbody]
  constructor
  · rintro ⟨code, hlayout⟩
    have hbatch : ∀ node ∈ body.preorder, node.isBatchNode = true := by
      intro node hnode
      rw [← body.breadthOrder_levelOrder.perm_preorder.mem_iff] at hnode
      exact (Node.batchSupported_iff.mp ((Node.layout_eq_ok.mp hlayout).1 node hnode)).2
    exact ⟨(isBatchEligible_iff hbody).mpr hbatch,
      (Node.layout_isOk_iff hlanes hbatch).mp ⟨code, hlayout⟩⟩
  · rintro ⟨heligible, hwellFormed⟩
    exact (Node.layout_isOk_iff hlanes ((isBatchEligible_iff hbody).mp heligible)).mpr hwellFormed

/-- Well-formedness is about the main body and the functions, not about the tree they are found in. -/
theorem WellFormed.congr (h : formula.WellFormed) (hbody : formula.body? = other.body?)
    (hfunctions : formula.functions = other.functions) : other.WellFormed := by
  have hbodies : formula.bodies = other.bodies := by rw [bodies, hbody, hfunctions, bodies]
  exact ⟨hbody ▸ h.body, hfunctions ▸ h.functionBodies, hfunctions ▸ h.names, hbodies ▸ h.nodes,
    hbodies ▸ h.size, hbodies ▸ hfunctions ▸ h.calls⟩

/-- Without functions an eligible formula satisfies a batch when it satisfies compilation. -/
theorem batchWellFormed_iff_wellFormed (hfunctions : formula.functions = [])
    (heligible : formula.isBatchEligible = true) :
    formula.BatchWellFormed ↔ formula.WellFormed := by
  obtain ⟨body, hbody⟩ := exists_body_of_isBatchEligible heligible
  have hlone : formula.body? = (ofBody body).body? := hbody
  have hnone : formula.functions = (ofBody body).functions := hfunctions
  rw [batchWellFormed_iff hbody]
  exact ⟨fun h => h.2.congr hlone.symm hnone.symm, fun h => ⟨heligible, h.congr hlone hnone⟩⟩

/-- A check of a batch is about the main body as a whole, or about one of its nodes at a position
that the body has. -/
theorem mem_batchChecks {check : Check} (h : check ∈ formula.batchChecks) :
    check = ⟨formula.body?.isSome, .malformedTree .noBody⟩ ∨
      ∃ body, formula.body? = some body ∧ ∃ node ∈ body.preorder, ∃ position < body.count,
        check ∈ node.batchChecks body.count position := by
  rcases List.mem_cons.mp h with hbody | h
  · exact Or.inl hbody
  · obtain ⟨body, hbody, h⟩ := List.mem_flatMap.mp h
    obtain ⟨⟨node, position⟩, hnode, h⟩ := List.mem_flatMap.mp h
    rw [← Node.breadthOrder_eq, List.mk_mem_zipIdx_iff_getElem?] at hnode
    have hposition := (List.getElem?_eq_some_iff.mp hnode).1
    rw [Node.length_breadthOrder] at hposition
    have hmem := List.mem_of_getElem? hnode
    rw [body.breadthOrder_levelOrder.perm_preorder.mem_iff] at hmem
    exact Or.inr ⟨body, Option.mem_toList.mp hbody, node, hmem, position, hposition, h⟩

/-- A check that fails is about the opcode only if a batch cannot run the node, and about the length
only beyond the limit. -/
theorem error_of_failed {node : Node} {required position : Nat} {check : Check}
    (hmem : check ∈ node.batchChecks required position) (hfailed : check.passed = false) :
    ((check.error = .unsupportedSymbol node.symbol.name ∨
        ∃ op, check.error = .unsupportedBatchOpcode op) ∧ node.isBatchNode = false) ∨
      check.error = .tooManyChildren node.symbol.name node.children.length ∨
      check.error = .malformedTree (.childCount node.symbol.name node.children.length) ∨
      (check.error = .programTooLong required ∧ addressLimit ≤ position) := by
  simp only [Node.batchChecks, Node.checks, List.insertIdx_succ_cons, List.insertIdx_zero,
    List.mem_cons, List.not_mem_nil, or_false] at hmem
  unfold Node.isBatchNode
  rcases hmem with rfl | rfl | rfl | rfl | rfl
  · refine Or.inl ⟨Or.inl rfl, ?_⟩
    cases hop : node.symbol.opcode? with
    | none => rfl
    | some op => simp [hop] at hfailed
  · refine Or.inl ⟨Or.inr ⟨_, rfl⟩, ?_⟩
    cases hop : node.symbol.opcode? with
    | none => rfl
    | some op => simpa [hop] using hfailed
  · exact Or.inr (Or.inl rfl)
  · exact Or.inr (Or.inr (Or.inl rfl))
  · exact Or.inr (Or.inr (Or.inr ⟨rfl, by simpa using hfailed⟩))

/-- In an eligible formula no check of an opcode fails. -/
theorem not_unsupported_of_eligible (heligible : formula.isBatchEligible = true)
    {cause : EvalError} (h : firstError? formula.batchChecks = some cause) :
    (∀ name, cause ≠ .unsupportedSymbol name) ∧ ∀ op, cause ≠ .unsupportedBatchOpcode op := by
  obtain ⟨check, hmem, hfailed, rfl⟩ := exists_mem_of_firstError? h
  rcases mem_batchChecks hmem with rfl | ⟨body, hbody, node, hnode, position, -, hmem⟩
  · simp
  · have hbatch := (isBatchEligible_iff hbody).mp heligible node hnode
    rcases error_of_failed hmem hfailed with ⟨-, hnot⟩ | herror | herror | ⟨herror, -⟩
    · rw [hbatch] at hnot
      cases hnot
    all_goals simp [herror]

/-- Only a node beyond the limit makes a body too long, and then all of its nodes are counted. -/
theorem length_of_bodyTooLong {length : Nat}
    (h : firstError? formula.batchChecks = some (.programTooLong length)) :
    addressLimit < length ∧ ∃ body, formula.body? = some body ∧ length = body.count := by
  obtain ⟨check, hmem, hfailed, herror⟩ := exists_mem_of_firstError? h
  rcases mem_batchChecks hmem with rfl | ⟨body, hbody, node, -, position, hposition, hmem⟩
  · cases herror
  · rcases error_of_failed hmem hfailed with
      ⟨hopcode | ⟨op, hopcode⟩, -⟩ | hchildren | hchildren | ⟨hlength, hbeyond⟩
    · cases hopcode.symm.trans herror
    · cases hopcode.symm.trans herror
    · cases hchildren.symm.trans herror
    · cases hchildren.symm.trans herror
    · cases hlength.symm.trans herror
      exact ⟨by omega, body, hbody, rfl⟩

/-- The checks of a body pass when it is laid out, with any cache and buffers of any length. -/
theorem firstError?_batchChecks_eq_none_iff :
    firstError? formula.batchChecks = none ↔ formula.BatchWellFormed := by
  unfold batchChecks
  cases hbody : formula.body? with
  | none =>
    rw [firstError?_failed rfl]
    constructor
    · intro h
      cases h
    · intro h
      obtain ⟨body, hsome⟩ := exists_body_of_isBatchEligible h.eligible
      cases hbody.symm.trans hsome
  | some body =>
    rw [firstError?_passed rfl, Option.toList_some, List.flatMap_singleton]
    -- an empty cache and buffers without lanes do as well as any others
    rw [← @layout_isOk_iff_batchWellFormed _ _ {} 0 hbody (Nat.zero_le storageLimit)]
    have hdecided := body.layout_decided {} 0
    cases hlayout : body.layout {} 0 with
    | ok code =>
      rw [hlayout] at hdecided
      exact ⟨fun _ => ⟨code, rfl⟩, fun _ => hdecided⟩
    | error failure =>
      rw [hlayout] at hdecided
      cases failure with
      | error cause =>
        have hfailed : firstError? (layoutChecks body.count 0 body.levels.flatten) = some cause :=
          hdecided
        simp [hfailed]
      | fault cause =>
        have hlacks := (body.layout_fault {} 0 cause hlayout).2
        exact absurd hlacks (Nat.not_lt_zero _)

/-- What the evaluation of a formula in a batch comes to. `room` says that storage does not run
out; it is the only thing that can stop an evaluation. -/
structure DecidesBatch (formula : Formula) (room : Prop)
    (result : Except Failure (List Float)) : Prop where
  accepts : room → ((∃ values, result = .ok values) ↔ formula.BatchWellFormed)
  refuses : room → ∀ cause,
    result = .error (.error cause) ↔ firstError? formula.batchChecks = some cause
  /-- With room or without, only well-formed formulas have values. -/
  accepted : ∀ values, result = .ok values → formula.BatchWellFormed
  /-- With room or without, an error is that of the first check that fails. -/
  refused : ∀ cause, result = .error (.error cause) →
    firstError? formula.batchChecks = some cause
  stopped : ∀ cause, result = .error (.fault cause) → cause = .outOfStorage ∧ ¬ room
  /-- A body that is too long is reported with the number of its nodes. -/
  tooLong : ∀ length, result = .error (.error (.programTooLong length)) →
    addressLimit < length ∧ ∃ body, formula.body? = some body ∧ length = body.count
  eligible : formula.isBatchEligible = true →
    (∀ name, result ≠ .error (.error (.unsupportedSymbol name))) ∧
      ∀ op, result ≠ .error (.error (.unsupportedBatchOpcode op))
  ineligible : formula.isBatchEligible = false → ∀ values, result ≠ .ok values
  /-- Without functions, an eligible formula has values when it compiles. -/
  compiled : room → formula.functions = [] → formula.isBatchEligible = true →
    ((∃ values, result = .ok values) ↔ ∃ program, formula.compile [] = .ok program)

/-- All of this follows from what the checks say of the result. -/
theorem decidesBatch_of_decided {room : Prop} {result : Except Failure (List Float)}
    (hdecided : DecidedUnlessStopped formula.batchChecks result)
    (hstopped : ∀ cause, result = .error (.fault cause) → cause = .outOfStorage ∧ ¬ room) :
    formula.DecidesBatch room result := by
  have haccepted : ∀ values, result = .ok values → formula.BatchWellFormed := by
    rintro values rfl
    exact firstError?_batchChecks_eq_none_iff.mp hdecided
  have hrefused : ∀ cause, result = .error (.error cause) →
      firstError? formula.batchChecks = some cause := by
    rintro cause rfl
    exact hdecided
  have haccepts : room → ((∃ values, result = .ok values) ↔ formula.BatchWellFormed) := by
    refine fun hroom => ⟨fun ⟨values, hvalues⟩ => haccepted values hvalues, fun hwellFormed => ?_⟩
    have hpassed := firstError?_batchChecks_eq_none_iff.mpr hwellFormed
    cases hresult : result with
    | ok values => exact ⟨values, rfl⟩
    | error failure =>
      cases failure with
      | error cause => cases hpassed.symm.trans (hrefused cause hresult)
      | fault cause => exact absurd hroom (hstopped cause hresult).2
  constructor
  · exact haccepts
  · refine fun hroom cause => ⟨hrefused cause, fun hfailed => ?_⟩
    cases hresult : result with
    | ok values =>
      cases (firstError?_batchChecks_eq_none_iff.mpr (haccepted values hresult)).symm.trans hfailed
    | error failure =>
      cases failure with
      | error found => cases (hrefused found hresult).symm.trans hfailed; rfl
      | fault found => exact absurd hroom (hstopped found hresult).2
  · exact haccepted
  · exact hrefused
  · exact hstopped
  · exact fun length h => length_of_bodyTooLong (hrefused _ h)
  · intro heligible
    constructor
    · exact fun name h => (not_unsupported_of_eligible heligible (hrefused _ h)).1 name rfl
    · exact fun op h => (not_unsupported_of_eligible heligible (hrefused _ h)).2 op rfl
  · intro hineligible values hvalues
    rw [(haccepted values hvalues).eligible] at hineligible
    cases hineligible
  · intro hroom hfunctions heligible
    rw [haccepts hroom, batchWellFormed_iff_wellFormed hfunctions heligible, compile_isOk_iff]

end Formula

/-! ## Interpreters -/

namespace BatchInterpreter

variable {batch : BatchInterpreter} {formula : Formula} {body : Node} {data : Dataset} {rows : Rows}

/-- Storage can hold the rows of a chunk and the values at all rows. -/
structure HasRoom (batch : BatchInterpreter) (rows : Rows) : Prop where
  chunk : batch.batchSize ≤ storageLimit
  rows : rows.size ≤ storageLimit

/-- Once a formula is laid out no check is left. -/
theorem evaluate_decidedUnlessStopped (batch : BatchInterpreter) (formula : Formula)
    (data : Dataset) (rows : Rows) :
    DecidedUnlessStopped formula.batchChecks (batch.evaluate formula data rows).1 := by
  unfold evaluate Formula.batchChecks
  cases hbody : formula.body? with
  | none => exact firstError?_failed rfl _
  | some body =>
    have hdecided := body.layout_decided (batch.cache.refresh data).2 (batch.lanes rows)
    rw [Option.toList_some, List.flatMap_singleton]
    cases hlayout : body.layout (batch.cache.refresh data).2 (batch.lanes rows) with
    | error failure =>
      rw [hlayout] at hdecided
      simp only [hlayout]
      cases failure with
      | error cause => exact (firstError?_passed rfl _).trans hdecided
      | fault cause => exact trivial
    | ok code =>
      rw [hlayout] at hdecided
      simp only [hlayout]
      cases evaluateChunks rows batch.batchSize code with
      | error cause => exact trivial
      | ok values => exact (firstError?_passed rfl _).trans hdecided

/-- An evaluation stops for want of storage only, whatever columns its cache has. -/
theorem evaluate_fault (hsize : 1 ≤ batch.batchSize) {cause : Fault}
    (hstopped : (batch.evaluate formula data rows).1 = .error (.fault cause)) :
    cause = .outOfStorage ∧ ¬ batch.HasRoom rows := by
  unfold evaluate at hstopped
  cases hbody : formula.body? with
  | none => simp [hbody] at hstopped
  | some body =>
    cases hlayout : body.layout (batch.cache.refresh data).2 (batch.lanes rows) with
    | error failure =>
      simp only [hbody, hlayout, Except.error.injEq] at hstopped
      obtain ⟨rfl, hlacks⟩ := body.layout_fault _ _ cause (hstopped ▸ hlayout)
      exact ⟨rfl, fun hroom => absurd (lanes_le hroom.chunk) (Nat.not_le.mpr hlacks)⟩
    | ok code =>
      obtain ⟨hsupported, -, hstorage, hcode⟩ := Node.layout_eq_ok.mp hlayout
      have hbatched : Batched (batch.cache.refresh data).2 (batch.cache.refresh data).2.scope body
          body.breadthOrder :=
        ⟨ColumnCache.numberAt?_scope _, body.breadthOrder_levelOrder, hsupported⟩
      simp only [hbody, hlayout] at hstopped
      rw [hcode, evaluateChunks_eq hbatched hsize (lanes_eq_min hstorage)] at hstopped
      by_cases hmany : rows.size ≤ storageLimit
      · rw [if_pos hmany] at hstopped
        cases hstopped
      · rw [if_neg hmany] at hstopped
        cases hstopped
        exact ⟨rfl, fun hroom => hmany hroom.rows⟩

/-- The checks of a batch decide its evaluation, whatever the cache and the dataset are. -/
theorem evaluate_decided (hsize : 1 ≤ batch.batchSize) (formula : Formula) (data : Dataset)
    (rows : Rows) :
    formula.DecidesBatch (batch.HasRoom rows) (batch.evaluate formula data rows).1 :=
  Formula.decidesBatch_of_decided (batch.evaluate_decidedUnlessStopped formula data rows)
    fun _ hstopped => evaluate_fault hsize hstopped

end BatchInterpreter

/-! ## Defects at different depths -/

namespace Defects

/-- A sum of a product with a defect and of another defect. -/
def formula : Formula :=
  .ofBody ⟨.addition, [⟨.multiplication, [.leaf (.custom "Inner")]⟩, .leaf (.custom "Outer")]⟩

end Defects

namespace BatchInterpreter

/-- A batch meets the outer defect first, compilation the inner one. -/
theorem evaluate_decided_defects :
    1 ≤ defaultBatchSize ∧ HasRoom {} (.range 0 3) ∧
      Defects.formula.DecidesBatch (HasRoom {} (.range 0 3))
        (evaluate {} Defects.formula Recall.data (.range 0 3)).1 ∧
      (evaluate {} Defects.formula Recall.data (.range 0 3)).1 =
        .error (.error (.unsupportedSymbol "Outer")) ∧
      Defects.formula.compile [] = .error (.unsupportedSymbol "Inner") := by
  have hsize : 1 ≤ ({} : BatchInterpreter).batchSize := by decide
  have hroom : ({} : BatchInterpreter).HasRoom (.range 0 3) := ⟨by decide, by decide⟩
  have hdecided := evaluate_decided hsize Defects.formula Recall.data (.range 0 3)
  refine ⟨hsize, hroom, hdecided, (hdecided.refuses hroom _).mpr ?_,
    (Formula.compile_decidedBy _ _).mpr ?_⟩
  · decide
  · decide

end BatchInterpreter

/-! ## More values than can be kept -/

namespace Overfull

def formula : Formula := .ofBody (.leaf (.numericVariable "x" 1.0))

theorem batchWellFormed_formula : formula.BatchWellFormed :=
  Formula.firstError?_batchChecks_eq_none_iff.mp (by decide)

end Overfull

namespace BatchInterpreter

/-- Nothing is wrong with the formula, but neither so many rows nor chunks of so many rows fit. -/
theorem evaluate_overfull :
    Overfull.formula.BatchWellFormed ∧ Overfull.formula.functions = [] ∧
      Overfull.formula.isBatchEligible = true ∧
      (∃ program, Overfull.formula.compile [] = .ok program) ∧
      (evaluate {} Overfull.formula Recall.data (.range 1 18446744073709551615)).1 =
        .error (.fault .outOfStorage) ∧
      (evaluate (.ofBatchSize 18446744073709551615) Overfull.formula Recall.data (.indices [0])).1 =
        .error (.fault .outOfStorage) := by
  have hwellFormed := Overfull.batchWellFormed_formula
  refine ⟨hwellFormed, rfl, hwellFormed.eligible, ?_, ?_, ?_⟩
  · exact Formula.compile_isOk_iff.mpr
      ((Formula.batchWellFormed_iff_wellFormed rfl hwellFormed.eligible).mp hwellFormed)
  · decide +kernel
  · decide +kernel

end BatchInterpreter

end FormulaEngine
