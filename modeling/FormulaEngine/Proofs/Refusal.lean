import FormulaEngine.Proofs.Emission
import Mathlib.Data.List.Basic

/-!
# Refused formulas

Which formulas compilation refuses, and with which error when several things are wrong at once. All
that is looked at is listed as one sequence of checks, read off the tree: the main body, then the
functions one after another, then the nodes of all bodies one after another, then the calls. The
first check that fails decides the error.

- `Check`, `firstError?`: checks in order, and the error of the first that fails;
- `DecidedBy`: a computation that is refused with that error and otherwise succeeds;
- `Formula.emission_decidedBy`, `Emission.link_decidedBy`: the checks of the two passes, under any
  hooks;
- `Formula.checks`: the checks of a formula;
- `Formula.compile_decidedBy`: they decide compilation without hooks;
- `Formula.WellFormed`: what all checks together demand;
- `Formula.compile_decided`: compilation accepts the well-formed formulas and refuses every other one
  with the error of the first failing check.
-/

namespace FormulaEngine

/-! ## Checks in order -/

/-- Something that is looked at, and the error if it is not as it should be. -/
structure Check where
  passed : Bool
  error : EvalError

/-- The error of the first check that fails. -/
def firstError? (checks : List Check) : Option EvalError :=
  (checks.find? (!·.passed)).map (·.error)

@[simp] theorem firstError?_nil : firstError? [] = none := rfl

theorem firstError?_append (front back : List Check) :
    firstError? (front ++ back) = (firstError? front).or (firstError? back) := by
  rw [firstError?, List.find?_append, Option.map_or]
  rfl

theorem firstError?_passed {check : Check} (h : check.passed = true) (rest : List Check) :
    firstError? (check :: rest) = firstError? rest := by
  simp [firstError?, h]

theorem firstError?_failed {check : Check} (h : check.passed = false) (rest : List Check) :
    firstError? (check :: rest) = some check.error := by
  simp [firstError?, h]

/-- The error that is reported belongs to one of the checks, and that check has failed. -/
theorem exists_mem_of_firstError? {checks : List Check} {cause : EvalError}
    (h : firstError? checks = some cause) :
    ∃ check ∈ checks, check.passed = false ∧ check.error = cause := by
  obtain ⟨check, hcheck, herror⟩ := Option.map_eq_some_iff.mp h
  exact ⟨check, List.mem_of_find?_eq_some hcheck, by simpa using List.find?_some hcheck, herror⟩

/-- The computation is refused with the error of the first check that fails, and succeeds if none
fails. -/
def DecidedBy {α : Type} (checks : List Check) (result : Except EvalError α) : Prop :=
  ∀ cause, result = .error cause ↔ firstError? checks = some cause

namespace DecidedBy

variable {α β : Type} {checks later : List Check} {first : Except EvalError α}

theorem ok (value : α) : DecidedBy [] (.ok value) := by
  intro cause
  simp

/-- After success no check has failed. -/
theorem eq_none {value : α} (h : DecidedBy checks (.ok value)) : firstError? checks = none := by
  cases hfirst : firstError? checks with
  | none => rfl
  | some cause => cases (h cause).mpr hfirst

/-- The checks of a computation come before those of what follows it. -/
theorem bind {next : α → Except EvalError β} (hfirst : DecidedBy checks first)
    (hnext : ∀ value, first = .ok value → DecidedBy later (next value)) :
    DecidedBy (checks ++ later) (first >>= next) := by
  intro cause
  rw [firstError?_append]
  cases first with
  | error refusal =>
    rw [(hfirst refusal).mp rfl]
    simp [Bind.bind, Except.bind]
  | ok value =>
    rw [hfirst.eq_none, Option.none_or]
    exact hnext value rfl cause

/-- A computation that only changes the value afterwards is decided by the same checks. -/
theorem map (f : α → β) (h : DecidedBy checks first) : DecidedBy checks (f <$> first) := by
  intro cause
  rw [← h cause]
  cases first <;> simp [Functor.map, Except.map]

end DecidedBy

/-! ## Nodes -/

/-- The checks of a node that is emitted at a position of a program which needs `required`
instructions. -/
def Node.checks (required position : Nat) (node : Node) : List Check :=
  let name := node.symbol.name
  let count := node.children.length
  [⟨node.symbol.opcode?.isSome, .unsupportedSymbol name⟩,
    ⟨count ≤ addressLimit, .tooManyChildren name count⟩,
    ⟨node.symbol.opcode?.all (·.arity.accepts count), .malformedTree (.childCount name count)⟩,
    ⟨position < addressLimit, .programTooLong required⟩]

/-- The checks of nodes that are emitted one after another. -/
def emissionChecks (required start : Nat) (nodes : List Node) : List Check :=
  (nodes.zipIdx start).flatMap fun (node, position) => node.checks required position

theorem emissionChecks_cons (required start : Nat) (node : Node) (rest : List Node) :
    emissionChecks required start (node :: rest) =
      node.checks required start ++ emissionChecks required (start + 1) rest := by
  rw [emissionChecks, List.zipIdx_cons, List.flatMap_cons]
  rfl

theorem emissionChecks_append (required start : Nat) (front back : List Node) :
    emissionChecks required start (front ++ back) =
      emissionChecks required start front ++
        emissionChecks required (start + front.length) back := by
  rw [emissionChecks, List.zipIdx_append, List.flatMap_append]
  rfl

namespace Draft

variable (hooks : List Hook) (required : Nat)

/-- Hooks change the instruction of a node only after its checks. -/
theorem append_decidedBy (draft : Draft) (node : Node) :
    DecidedBy (node.checks required draft.code.size) (append hooks required draft node) := by
  intro cause
  unfold append Node.opcode Node.checkChildren Node.checks firstError?
  cases hop : node.symbol.opcode? with
  | none => simp [bind, Except.bind]
  | some op =>
    by_cases hmany : addressLimit < node.children.length
    · simp [bind, Except.bind, hmany, Nat.not_le.mpr hmany]
    · by_cases haccepts : op.arity.accepts node.children.length = true
      · by_cases hfull : addressLimit ≤ draft.code.size
        · simp [bind, Except.bind, throw, throwThe, MonadExceptOf.throw, hmany,
            Nat.not_lt.mp hmany, haccepts, hfull, Nat.not_lt.mpr hfull]
        · simp [bind, Except.bind, pure, Except.pure, hmany, Nat.not_lt.mp hmany, haccepts, hfull,
            Nat.not_le.mp hfull]
      · simp [bind, Except.bind, hmany, Nat.not_lt.mp hmany, haccepts]

theorem foldlM_append_decidedBy (nodes : List Node) (draft : Draft) :
    DecidedBy (emissionChecks required draft.code.size nodes)
      (nodes.foldlM (append hooks required) draft) := by
  induction nodes generalizing draft with
  | nil => exact .ok draft
  | cons node rest ih =>
    rw [emissionChecks_cons, List.foldlM_cons]
    refine .bind (append_decidedBy hooks required draft node) fun next hnext => ?_
    obtain ⟨-, -, rfl⟩ := append_eq_ok.mp hnext
    have hsize : (draft.extend hooks [node]).code.size = draft.code.size + 1 := size_extend ..
    rw [← hsize]
    exact ih _

/-- The nodes of a body are checked in prefix order. -/
theorem emit_decidedBy (draft : Draft) (root : Node) :
    DecidedBy (emissionChecks required draft.code.size root.preorder)
      (emit hooks required draft root) := by
  rw [emit, Node.prefixOrder_eq]
  exact foldlM_append_decidedBy hooks required _ _

/-- The bodies of functions are checked one after another. -/
theorem foldlM_emitFunction_decidedBy (functions : List (String × Node)) (draft : Draft) :
    DecidedBy
      (emissionChecks required draft.code.size (Node.preorderAll (functions.map (·.2))))
      (functions.foldlM (emitFunction hooks required) draft) := by
  induction functions generalizing draft with
  | nil => exact .ok draft
  | cons function rest ih =>
    rw [List.map_cons, Node.preorderAll_cons, emissionChecks_append, List.foldlM_cons]
    refine .bind (emit_decidedBy hooks required _ _) fun next hnext => ?_
    obtain ⟨-, -, rfl⟩ := emit_eq_ok.mp hnext
    -- what has been emitted by then is as long as the room that the body has taken
    rw [← size_extend { draft with
      entryPoints := draft.entryPoints ++ [(function.1, draft.code.size)] } function.2.preorder]
    exact ih _

end Draft

/-! ## Functions -/

/-- The checks of functions behind some with the names `earlier`. -/
def definitionChecks (earlier : List String) : List (String × Option Node) → List Check
  | [] => []
  | (name, body) :: rest =>
    ⟨body.isSome, .malformedTree (.functionWithoutBody name)⟩ ::
      ⟨name ∉ earlier, .malformedTree (.functionDefinedTwice name)⟩ ::
        definitionChecks (name :: earlier) rest

theorem define_decidedBy (found : List (String × Option Node)) (defined : List (String × Node)) :
    DecidedBy (definitionChecks (defined.map (·.1)) found) (Formula.define defined found) := by
  induction found generalizing defined with
  | nil => exact .ok _
  | cons function rest ih =>
    obtain ⟨name, body⟩ := function
    have hknown : defined.any (·.1 == name) = true ↔ name ∈ defined.map (·.1) := by
      simp
    intro cause
    unfold definitionChecks Formula.define
    cases body with
    | none =>
      rw [firstError?_failed rfl]
      simp
    | some body =>
      rw [firstError?_passed rfl]
      by_cases hmem : name ∈ defined.map (·.1)
      · rw [firstError?_failed (by simpa using hmem)]
        simp only [hknown.mpr hmem, if_true, Except.error.injEq, Option.some.injEq]
      · rw [firstError?_passed (by simpa using hmem)]
        simp only [mt hknown.mp hmem]
        exact ih ((name, body) :: defined) cause

/-- No check of functions is about the length of the program. -/
theorem exists_defect_of_mem_definitionChecks {earlier : List String}
    {found : List (String × Option Node)} {check : Check}
    (h : check ∈ definitionChecks earlier found) :
    ∃ defect, check.error = .malformedTree defect := by
  induction found generalizing earlier with
  | nil => cases h
  | cons function rest ih =>
    rcases List.mem_cons.mp h with rfl | h
    · exact ⟨_, rfl⟩
    · rcases List.mem_cons.mp h with rfl | h
      · exact ⟨_, rfl⟩
      · exact ih h

/-! ## Calls -/

/-- The check of a call, when there are functions with the given names. -/
def Node.callChecks (names : List String) (node : Node) : List Check :=
  match node.symbol with
  | .call function => [⟨function ∈ names, .unresolvedFunction function⟩]
  | _ => []

theorem lookup_isSome_iff_mem_names {α : Type} (entries : List (String × α)) (name : String) :
    (entries.lookup name).isSome = true ↔ name ∈ entries.map (·.1) := by
  rw [List.lookup_isSome_iff, List.mem_map]
  refine exists_congr fun entry => and_congr_right fun _ => ?_
  rw [beq_iff_eq, eq_comm]

namespace Instruction

/-- The check of an instruction, when there are functions with the given names. An instruction that
calls must come from a node that calls one of them. -/
def callChecks (names : List String) (i : Instruction) : List Check :=
  if i.opcode = .call then
    match i.node.symbol with
    | .call function => [⟨function ∈ names, .unresolvedFunction function⟩]
    | symbol => [⟨false, .malformedTree (.callInstruction symbol.name)⟩]
  else []

theorem resolve_decidedBy (entryPoints : List (String × Nat)) (i : Instruction) :
    DecidedBy (i.callChecks (entryPoints.map (·.1))) (i.resolve entryPoints) := by
  intro cause
  unfold resolve callChecks
  by_cases hcall : i.opcode = .call
  · rw [if_pos hcall, if_pos hcall]
    cases i.node.symbol with
    | call function =>
      have hnames := lookup_isSome_iff_mem_names entryPoints function
      cases hlookup : entryPoints.lookup function with
      | none =>
        rw [hlookup] at hnames
        rw [firstError?_failed (by simpa using hnames)]
        simp [hlookup]
      | some address =>
        rw [hlookup] at hnames
        rw [firstError?_passed (by simpa using hnames)]
        simp [hlookup]
    | _ =>
      rw [firstError?_failed rfl]
      simp
  · rw [if_neg hcall, if_neg hcall]
    simp

/-- Instructions that call are checked in the order of the code. -/
theorem mapM_resolve_decidedBy (entryPoints : List (String × Nat)) (code : List Instruction) :
    DecidedBy (code.flatMap (callChecks (entryPoints.map (·.1))))
      (code.mapM (resolve entryPoints)) := by
  induction code with
  | nil => exact .ok []
  | cons i rest ih =>
    rw [List.flatMap_cons, List.mapM_cons]
    exact .bind (resolve_decidedBy entryPoints i) fun linked _ => ih.map (linked :: ·)

end Instruction

/-- Only calls have the opcode of calls, so the check of an instruction is that of its node. -/
theorem Node.callChecks_instruction (names : List String) {node : Node} (hnode : node.Supported) :
    node.instruction.callChecks names = node.callChecks names := by
  obtain ⟨op, hop, -⟩ := hnode.opcode
  have hopcode : node.instruction.opcode = op := by rw [Node.instruction, hop]; rfl
  have hsymbol : node.instruction.node.symbol = node.symbol := rfl
  unfold Instruction.callChecks Node.callChecks
  rw [hopcode, hsymbol]
  by_cases hcall : op = .call
  · obtain ⟨function, hfunction⟩ := Symbol.eq_call (hcall ▸ hop)
    rw [if_pos hcall, hfunction]
  · rw [if_neg hcall]
    split
    · next function hfunction =>
      rw [hfunction] at hop
      exact absurd (Option.some.inj hop).symm hcall
    · rfl

/-! ## Whole formulas -/

/-- The names of functions are kept by their addresses. -/
theorem Draft.names_addresses (start : Nat) (functions : List (String × Node)) :
    (addresses start functions).map (·.1) = functions.map (·.1) := by
  induction functions generalizing start with
  | nil => rfl
  | cons function rest ih => rw [addresses, List.map_cons, ih, List.map_cons]

namespace Emission

/-- The names of the functions. -/
def names (emitted : Emission) : List String := emitted.draft.entryPoints.map (·.1)

/-- What the second pass looks at, in the order of the code. -/
def callChecks (emitted : Emission) : List Check :=
  emitted.draft.code.toList.flatMap (Instruction.callChecks emitted.names)

theorem link_decidedBy (emitted : Emission) : DecidedBy emitted.callChecks emitted.link := by
  rw [link, Array.mapM_eq_mapM_toList]
  exact ((Instruction.mapM_resolve_decidedBy _ _).map List.toArray).map _

end Emission

namespace Formula

/-- The bodies that are there: the main one, then those of the functions. -/
def bodies (formula : Formula) : List Node :=
  formula.body?.toList ++ formula.functions.filterMap (·.2)

/-- Everything that the first pass of compilation looks at, in this order. -/
def firstPassChecks (formula : Formula) : List Check :=
  ⟨formula.body?.isSome, .malformedTree .noBody⟩ ::
    (definitionChecks [] formula.functions ++
      emissionChecks (Node.countAll formula.bodies) 0 (Node.preorderAll formula.bodies))

/-- Everything that compilation looks at, in this order. -/
def checks (formula : Formula) : List Check :=
  ⟨formula.body?.isSome, .malformedTree .noBody⟩ ::
    (definitionChecks [] formula.functions ++
      (emissionChecks (Node.countAll formula.bodies) 0 (Node.preorderAll formula.bodies) ++
        (Node.preorderAll formula.bodies).flatMap
          (Node.callChecks (formula.functions.map (·.1)))))

variable {formula : Formula} {main : Node} {functions : List (String × Node)}

theorem bodies_eq (hbody : formula.body? = some main)
    (hfunctions : formula.functions = functions.map (fun function => (function.1, some function.2))) :
    formula.bodies = main :: functions.map (·.2) := by
  have hsome : (fun function : String × Option Node => function.2) ∘
      (fun function : String × Node => (function.1, some function.2)) =
        fun function => some function.2 := rfl
  rw [bodies, hbody, hfunctions, List.filterMap_map, hsome, List.filterMap_eq_map']
  rfl

theorem names_eq
    (hfunctions : formula.functions = functions.map (fun function => (function.1, some function.2))) :
    formula.functions.map (·.1) = functions.map (·.1) := by
  rw [hfunctions, List.map_map]
  rfl

/-- The checks of the first pass decide it, whatever the hooks do to the instructions. -/
theorem emission_decidedBy (hooks : List Hook) (formula : Formula) :
    DecidedBy formula.firstPassChecks (formula.emission hooks) := by
  intro cause
  unfold emission firstPassChecks
  cases hbody : formula.body? with
  | none =>
    rw [firstError?_failed rfl]
    simp [throw, throwThe, MonadExceptOf.throw]
  | some main =>
    rw [firstError?_passed rfl]
    refine DecidedBy.bind (define_decidedBy formula.functions []) (fun functions hdefined => ?_) cause
    -- from here on there are bodies for all functions
    obtain ⟨hfunctions, -⟩ := definitions_eq_ok.mp hdefined
    have hcount : main.count + Node.countAll (functions.map (·.2)) =
        Node.countAll (main :: functions.map (·.2)) := (Node.countAll_cons _ _).symm
    rw [bodies_eq hbody hfunctions, Node.preorderAll_cons, emissionChecks_append, hcount]
    refine .bind (Draft.emit_decidedBy hooks _ {} main) fun first hfirst => ?_
    have hsize : first.code.size = main.preorder.length := by
      obtain ⟨-, -, rfl⟩ := Draft.emit_eq_ok.mp hfirst
      simp
    rw [Nat.zero_add, ← hsize]
    exact (Draft.foldlM_emitFunction_decidedBy hooks _ functions first).map _

/-- The instructions that the hooks have left are those of the nodes, each after all hooks. -/
theorem callChecks_emissionOf (hooks : List Hook) (main : Node)
    (functions : List (String × Node)) :
    (emissionOf hooks main functions).callChecks =
      (compiledNodes main functions).flatMap fun node =>
        (node.instruction.rewritten hooks).callChecks (functions.map (·.1)) := by
  have hcode : (emissionOf hooks main functions).draft.code.toList =
      (compiledNodes main functions).map fun node => node.instruction.rewritten hooks := by
    simp [emissionOf, Draft.extend]
  have hnames : (emissionOf hooks main functions).names = functions.map (·.1) :=
    Draft.names_addresses main.count functions
  rw [Emission.callChecks, hcode, hnames, List.flatMap_map]

/-- The checks of a formula decide its compilation. -/
theorem compile_decidedBy (formula : Formula) : DecidedBy formula.checks (formula.compile []) := by
  have hchecks : formula.checks = formula.firstPassChecks ++
      (Node.preorderAll formula.bodies).flatMap
        (Node.callChecks (formula.functions.map (·.1))) := by
    rw [checks, firstPassChecks, List.cons_append, List.append_assoc]
  rw [hchecks, compile_eq_bind]
  refine (emission_decidedBy [] formula).bind fun emitted hemitted => ?_
  obtain ⟨main, functions, hemittable, rfl⟩ := emission_eq_ok.mp hemitted
  rw [bodies_eq hemittable.body_eq hemittable.functions_eq, names_eq hemittable.functions_eq]
  have hcalls : (compiledNodes main functions).flatMap (Node.callChecks (functions.map (·.1))) =
      (compiledNodes main functions).flatMap fun node =>
        (node.instruction.rewritten []).callChecks (functions.map (·.1)) :=
    List.flatMap_congr fun node hnode =>
      (Node.callChecks_instruction _ (hemittable.supported node hnode)).symm
  have hlink := Emission.link_decidedBy (emissionOf [] main functions)
  rw [callChecks_emissionOf, ← hcalls] at hlink
  exact hlink

/-- What all checks of a formula demand together. The functions are the `defun` branches behind the
first branch, which holds the main body. -/
structure WellFormed (formula : Formula) : Prop where
  body : ∃ main, formula.body? = some main
  functionBodies : ∀ function ∈ formula.functions, ∃ body, function.2 = some body
  names : (formula.functions.map (·.1)).Nodup
  nodes : ∀ node ∈ Node.preorderAll formula.bodies, node.Supported
  size : Node.countAll formula.bodies ≤ addressLimit
  calls : ∀ node ∈ Node.preorderAll formula.bodies, ∀ function,
    node.symbol = .call function → function ∈ formula.functions.map (·.1)

/-- A call names a function when its name is one of the names of functions. -/
theorem callDefined_iff {node : Node} :
    node.CallDefined (Draft.addresses main.count functions) ↔
      ∀ function, node.symbol = .call function → function ∈ functions.map (·.1) := by
  rw [← Draft.names_addresses main.count functions]
  refine forall_congr' fun function => imp_congr_right fun _ => ?_
  rw [← lookup_isSome_iff_mem_names, Option.isSome_iff_exists]

/-- Functions that all have bodies are functions with bodies. -/
theorem exists_eq_map_some {found : List (String × Option Node)}
    (h : ∀ function ∈ found, ∃ body, function.2 = some body) :
    ∃ functions : List (String × Node),
      found = functions.map (fun function => (function.1, some function.2)) := by
  induction found with
  | nil => exact ⟨[], rfl⟩
  | cons function rest ih =>
    obtain ⟨⟨body, hbody⟩, hrest⟩ := List.forall_mem_cons.mp h
    obtain ⟨functions, rfl⟩ := ih hrest
    refine ⟨(function.1, body) :: functions, ?_⟩
    rw [List.map_cons, ← hbody]

/-- The well-formed formulas are those whose bodies pass every stage of compilation. -/
theorem wellFormed_iff :
    formula.WellFormed ↔ ∃ main functions, formula.Compilable main functions := by
  constructor
  · intro h
    obtain ⟨main, hmain⟩ := h.body
    obtain ⟨functions, hfunctions⟩ := exists_eq_map_some h.functionBodies
    obtain ⟨-, -, hnames, hnodes, hsize, hcalls⟩ := h
    rw [names_eq hfunctions] at hnames hcalls
    rw [bodies_eq hmain hfunctions] at hnodes hsize hcalls
    rw [← Node.length_preorderAll] at hsize
    exact ⟨main, functions, hmain, hfunctions, hnames, hnodes, hsize,
      fun node hnode => callDefined_iff.mpr (hcalls node hnode)⟩
  · rintro ⟨main, functions, h⟩
    have hbodies := bodies_eq h.body_eq h.functions_eq
    have hnames := names_eq h.functions_eq
    have hsize := h.size
    rw [compiledNodes, Node.length_preorderAll, ← hbodies] at hsize
    refine ⟨⟨main, h.body_eq⟩, ?_, hnames ▸ h.names, hbodies ▸ h.supported, hsize, ?_⟩
    · intro function hfunction
      rw [h.functions_eq] at hfunction
      obtain ⟨entry, -, rfl⟩ := List.mem_map.mp hfunction
      exact ⟨entry.2, rfl⟩
    · rw [hbodies, hnames]
      exact fun node hnode => callDefined_iff.mp (h.calls node hnode)

theorem compile_isOk_iff : (∃ program, formula.compile [] = .ok program) ↔ formula.WellFormed := by
  rw [wellFormed_iff]
  constructor
  · rintro ⟨program, h⟩
    obtain ⟨main, functions, hcompilable, -⟩ := compile_eq_ok.mp h
    exact ⟨main, functions, hcompilable⟩
  · rintro ⟨main, functions, hcompilable⟩
    exact ⟨_, compile_eq_ok.mpr ⟨main, functions, hcompilable, rfl⟩⟩

/-- Only a node beyond the limit makes a program too long, and then all nodes are counted. -/
theorem length_of_programTooLong {length : Nat}
    (h : firstError? formula.checks = some (.programTooLong length)) :
    length = Node.countAll formula.bodies ∧ addressLimit < length := by
  obtain ⟨check, hmem, hfailed, herror⟩ := exists_mem_of_firstError? h
  rcases List.mem_cons.mp hmem with rfl | hmem
  · cases herror
  rcases List.mem_append.mp hmem with hmem | hmem
  · obtain ⟨defect, hdefect⟩ := exists_defect_of_mem_definitionChecks hmem
    rw [hdefect] at herror
    cases herror
  rcases List.mem_append.mp hmem with hmem | hmem
  · obtain ⟨⟨node, position⟩, hnode, hmem⟩ := List.mem_flatMap.mp hmem
    have hposition : position < Node.countAll formula.bodies := by
      have hlt := (List.mem_zipIdx hnode).2.1
      rwa [Nat.zero_add, Node.length_preorderAll] at hlt
    simp only [Node.checks, List.mem_cons, List.not_mem_nil, or_false] at hmem
    rcases hmem with rfl | rfl | rfl | rfl
    · cases herror
    · cases herror
    · cases herror
    · cases herror
      have hfull : addressLimit ≤ position := by simpa using hfailed
      exact ⟨rfl, by omega⟩
  · obtain ⟨node, -, hmem⟩ := List.mem_flatMap.mp hmem
    unfold Node.callChecks at hmem
    split at hmem
    · rw [List.mem_singleton] at hmem
      rw [hmem] at herror
      cases herror
    · cases hmem

/-- Compilation accepts the well-formed formulas. It refuses every other one with the error of the
first check that fails, and a program that is too long with the number of nodes of all bodies. -/
theorem compile_decided (formula : Formula) :
    ((∃ program, formula.compile [] = .ok program) ↔ formula.WellFormed) ∧
      (∀ cause, formula.compile [] = .error cause ↔ firstError? formula.checks = some cause) ∧
      ∀ length, formula.compile [] = .error (.programTooLong length) →
        length = Node.countAll formula.bodies ∧ addressLimit < length := by
  refine ⟨compile_isOk_iff, formula.compile_decidedBy, fun length h => ?_⟩
  exact length_of_programTooLong ((formula.compile_decidedBy _).mp h)

/-- A function that is defined twice is found before the symbol of the main body, which no
instruction can stand for, and before the call of a function that there is not. -/
example :
    firstError? (withFunctions (.leaf (.custom "Sigmoid"))
      [("f", .leaf (.argument 0)), ("f", .leaf (.call "g"))]).checks =
        some (.malformedTree (.functionDefinedTwice "f")) := by
  decide

end Formula

end FormulaEngine
