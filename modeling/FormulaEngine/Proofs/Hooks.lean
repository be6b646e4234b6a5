import FormulaEngine.Proofs.ProgramShape
import FormulaEngine.Proofs.Refusal
import Mathlib.Data.List.Forall2

/-!
# Hooks

What hooks can change about compilation, and what they cannot. The first pass checks every node
before a hook sees its instruction, and it counts the stack by the nodes. Hooks then change the
instructions one by one. The second pass looks at what they have left: it demands a function from
every instruction that calls by now, whatever it was before.

- `Emission.rewritten`: the instructions of a first pass without hooks, after the hooks;
- `Formula.emission_hooked`: the first pass under hooks is the one without them, then rewritten;
- `Instruction.Linked`: what the second pass makes of an instruction;
- `Emission.Links`: what it makes of all of them;
- `Instruction.Dangling`: an instruction for which the second pass finds no function;
- `Formula.compile_hooked`: compilation under hooks from the first pass without them.
-/

namespace FormulaEngine

/-! ## The first pass -/

section Rewriting

variable {hooks : List Hook}

/-- Hooks that keep the node of an instruction keep it one after another. -/
theorem Instruction.node_rewritten (hnodes : ∀ hook ∈ hooks, ∀ i, (hook i).node = i.node)
    (i : Instruction) : (i.rewritten hooks).node = i.node := by
  induction hooks generalizing i with
  | nil => rfl
  | cons hook rest ih =>
    obtain ⟨hfirst, hrest⟩ := List.forall_mem_cons.mp hnodes
    exact (ih hrest (hook i)).trans (hfirst i)

/-- Every instruction after the hooks; what was counted on the way stays. -/
def Emission.rewritten (hooks : List Hook) (emitted : Emission) : Emission :=
  { emitted with
    draft := { emitted.draft with code := emitted.draft.code.map (Instruction.rewritten hooks) } }

theorem Formula.rewritten_emissionOf (main : Node) (functions : List (String × Node)) :
    (emissionOf [] main functions).rewritten hooks = emissionOf hooks main functions := by
  simp [Emission.rewritten, emissionOf, Draft.extend]

/-- Hooks act on what the first pass gives without them. -/
theorem Formula.emission_hooked {formula : Formula} {plain : Emission}
    (h : formula.emission [] = .ok plain) :
    formula.emission hooks = .ok (plain.rewritten hooks) := by
  obtain ⟨main, functions, hemittable, rfl⟩ := emission_eq_ok.mp h
  rw [rewritten_emissionOf]
  exact emission_eq_ok.mpr ⟨main, functions, hemittable, rfl⟩

/-- Hooks neither cause an error of the first pass nor prevent one. -/
theorem Formula.emission_eq_error_iff {formula : Formula} {cause : EvalError} :
    formula.emission hooks = .error cause ↔ formula.emission [] = .error cause :=
  (emission_decidedBy hooks formula cause).trans (emission_decidedBy [] formula cause).symm

end Rewriting

/-! ## The second pass -/

/-- What an instruction is when the calls have their addresses. Only calls are changed, and only in
their target. -/
structure Instruction.Linked (entryPoints : List (String × Nat)) (before after : Instruction) :
    Prop where
  call : before.opcode = .call → ∃ function address, before.node.symbol = .call function ∧
    entryPoints.lookup function = some address ∧ after = { before with target := some address }
  other : before.opcode ≠ .call → after = before

theorem Instruction.resolve_eq_ok {entryPoints : List (String × Nat)}
    {before after : Instruction} :
    before.resolve entryPoints = .ok after ↔ before.Linked entryPoints after := by
  unfold resolve
  by_cases hcall : before.opcode = .call
  · rw [if_pos hcall]
    constructor
    · intro h
      refine ⟨fun _ => ?_, absurd hcall⟩
      split at h
      · next function hfunction =>
        cases hlookup : entryPoints.lookup function with
        | none => simp [hlookup] at h
        | some address =>
          rw [hlookup] at h
          exact ⟨function, address, hfunction, hlookup, (Except.ok.inj h).symm⟩
      · cases h
    · intro h
      obtain ⟨function, address, hfunction, hlookup, rfl⟩ := h.call hcall
      simp [hfunction, hlookup]
  · rw [if_neg hcall, Except.ok.injEq]
    exact ⟨fun h => ⟨fun hop => absurd hop hcall, fun _ => h.symm⟩, fun h => (h.other hcall).symm⟩

/-- The second pass works through the code, one instruction after another. -/
theorem Instruction.mapM_resolve_eq_ok {entryPoints : List (String × Nat)}
    {code linked : List Instruction} :
    code.mapM (resolve entryPoints) = .ok linked ↔
      List.Forall₂ (Linked entryPoints) code linked := by
  induction code generalizing linked with
  | nil => simp [pure, Except.pure, eq_comm]
  | cons i rest ih =>
    rw [List.mapM_cons, bind_eq_ok, List.forall₂_cons_left_iff]
    constructor
    · rintro ⟨first, hfirst, h⟩
      obtain ⟨others, hothers, h⟩ := bind_eq_ok.mp h
      exact ⟨first, others, resolve_eq_ok.mp hfirst, ih.mp hothers, (Except.ok.inj h).symm⟩
    · rintro ⟨first, others, hfirst, hothers, rfl⟩
      exact ⟨first, resolve_eq_ok.mpr hfirst, bind_eq_ok.mpr ⟨others, ih.mpr hothers, rfl⟩⟩

/-- The program of the emitted instructions: they are linked one by one, and everything that was
counted stays. -/
structure Emission.Links (emitted : Emission) (program : Program) : Prop where
  code : List.Forall₂ (Instruction.Linked emitted.draft.entryPoints)
    emitted.draft.code.toList program.code.toList
  entryPoints : program.entryPoints = emitted.draft.entryPoints
  bodyLength : program.bodyLength = emitted.bodyLength
  callStackSize : program.callStackSize = emitted.draft.callStackSize

theorem Emission.link_eq_ok {emitted : Emission} {program : Program} :
    emitted.link = .ok program ↔ emitted.Links program := by
  unfold link
  rw [bind_eq_ok, Array.mapM_eq_mapM_toList]
  constructor
  · rintro ⟨code, hcode, h⟩
    cases hlinked : emitted.draft.code.toList.mapM
        (Instruction.resolve emitted.draft.entryPoints) with
    | error cause => simp [hlinked, Functor.map, Except.map] at hcode
    | ok linked =>
      rw [hlinked] at hcode
      cases Except.ok.inj hcode
      cases Except.ok.inj h
      exact ⟨Instruction.mapM_resolve_eq_ok.mp hlinked, rfl, rfl, rfl⟩
  · intro h
    refine ⟨program.code, ?_, ?_⟩
    · rw [Instruction.mapM_resolve_eq_ok.mpr h.code]
      rfl
    · rw [← h.entryPoints, ← h.bodyLength, ← h.callStackSize]
      rfl

/-- The instruction calls by now, but its node does not call one of the functions. -/
def Instruction.Dangling (names : List String) (i : Instruction) : Prop :=
  i.opcode = .call ∧ ∀ function ∈ names, i.node.symbol ≠ .call function

/-- The checks of the second pass let through an instruction unless it is dangling. -/
theorem Instruction.firstError?_callChecks {names : List String} {i : Instruction} :
    firstError? (i.callChecks names) = none ↔ ¬i.Dangling names := by
  unfold callChecks Dangling
  by_cases hcall : i.opcode = .call
  · rw [if_pos hcall]
    split
    · next function hfunction =>
      rw [hfunction]
      simp [firstError?, hcall]
    · next hother =>
      simpa [firstError?, hcall] using fun function _ => hother function
  · simp [hcall]

theorem firstError?_flatMap_eq_none {α : Type} {checks : α → List Check} {items : List α} :
    firstError? (items.flatMap checks) = none ↔
      ∀ item ∈ items, firstError? (checks item) = none := by
  induction items with
  | nil => simp
  | cons item rest ih =>
    rw [List.flatMap_cons, firstError?_append, Option.or_eq_none_iff, ih, List.forall_mem_cons]

/-! ## Compilation -/

/-- The second pass is refused when an instruction is dangling. -/
theorem Emission.link_eq_error_iff {emitted : Emission} :
    (∃ cause, emitted.link = .error cause) ↔
      ∃ i ∈ emitted.draft.code.toList, i.Dangling emitted.names := by
  have hnone : firstError? emitted.callChecks = none ↔
      ∀ i ∈ emitted.draft.code.toList, ¬i.Dangling emitted.names := by
    rw [callChecks, firstError?_flatMap_eq_none]
    exact forall₂_congr fun i _ => Instruction.firstError?_callChecks
  rw [exists_congr emitted.link_decidedBy, ← Option.ne_none_iff_exists']
  simpa using not_congr hnone

namespace Formula

/-- Under hooks a formula compiles when both passes succeed. -/
theorem compile_hooks_eq_ok {formula : Formula} {hooks : List Hook} {program : Program} :
    formula.compile hooks = .ok program ↔
      ∃ main functions, formula.Emittable main functions ∧
        (emissionOf hooks main functions).Links program := by
  rw [compile_eq_bind, bind_eq_ok]
  constructor
  · rintro ⟨emitted, hemitted, h⟩
    obtain ⟨main, functions, hemittable, rfl⟩ := emission_eq_ok.mp hemitted
    exact ⟨main, functions, hemittable, Emission.link_eq_ok.mp h⟩
  · rintro ⟨main, functions, hemittable, h⟩
    exact ⟨_, emission_eq_ok.mpr ⟨main, functions, hemittable, rfl⟩, Emission.link_eq_ok.mpr h⟩

/-- What hooks that keep the nodes change. The errors of the first pass stay. When it succeeds, what
it counts is read off the bodies, and the hooks act on its instructions one after another, none of
which has a target by then. After that an instruction is an error when its opcode is that of calls
and its node does not call a function; the first one in the code decides. In the program every call
has the address of the function that its node names, and every other instruction is what the hooks
have made of it. -/
theorem compile_hooked (formula : Formula) (hooks : List Hook)
    (hnodes : ∀ hook ∈ hooks, ∀ i, (hook i).node = i.node) :
    (∀ cause, formula.emission hooks = .error cause ↔ formula.emission [] = .error cause) ∧
    (∀ cause, formula.emission [] = .error cause →
      formula.compile hooks = .error cause ∧ formula.compile [] = .error cause) ∧
    ∀ plain, formula.emission [] = .ok plain →
      (∃ main functions, formula.Emittable main functions ∧
        plain.draft.code.toList = (compiledNodes main functions).map Node.instruction ∧
        plain.bodyLength = main.count ∧
        plain.draft.entryPoints = Draft.addresses main.count functions ∧
        plain.draft.callStackSize = ((compiledNodes main functions).map Node.callSize).sum) ∧
      (∀ i ∈ plain.draft.code.toList, i.target = none ∧ (i.rewritten hooks).node = i.node) ∧
      formula.emission hooks = .ok (plain.rewritten hooks) ∧
      (∀ cause, formula.compile hooks = .error cause ↔
        firstError? (plain.rewritten hooks).callChecks = some cause) ∧
      ((∃ cause, formula.compile hooks = .error cause) ↔
        ∃ i ∈ plain.draft.code.toList, (i.rewritten hooks).opcode = .call ∧
          ∀ function ∈ plain.names, i.node.symbol ≠ .call function) ∧
      ∀ program, formula.compile hooks = .ok program ↔ (plain.rewritten hooks).Links program := by
  have hnode := Instruction.node_rewritten hnodes
  refine ⟨fun cause => emission_eq_error_iff, fun cause h => ?_, fun plain hplain => ?_⟩
  · rw [compile_eq_bind, compile_eq_bind, emission_eq_error_iff.mpr h, h]
    exact ⟨rfl, rfl⟩
  -- from here on compilation under the hooks is the second pass on the rewritten instructions
  have hcompile : formula.compile hooks = (plain.rewritten hooks).link := by
    rw [compile_eq_bind, emission_hooked hplain]
    rfl
  obtain ⟨main, functions, hemittable, hof⟩ := emission_eq_ok.mp hplain
  have hcode : plain.draft.code.toList = (compiledNodes main functions).map Node.instruction := by
    simp [hof, emissionOf, Draft.extend]
  refine ⟨⟨main, functions, hemittable, hcode, ?_, ?_, ?_⟩, ?_, emission_hooked hplain, ?_, ?_, ?_⟩
  · rw [hof, emissionOf]
  · rw [hof, emissionOf]
  · simp [hof, emissionOf, Draft.extend]
  · intro i hi
    rw [hcode] at hi
    obtain ⟨node, -, rfl⟩ := List.mem_map.mp hi
    exact ⟨rfl, hnode _⟩
  · intro cause
    rw [hcompile]
    exact Emission.link_decidedBy _ cause
  · rw [hcompile, Emission.link_eq_error_iff]
    simp only [Emission.rewritten, Emission.names, Instruction.Dangling, Array.toList_map,
      List.mem_map, exists_exists_and_eq_and, hnode]
  · intro program
    rw [hcompile]
    exact Emission.link_eq_ok

/-- Hooks can take all calls away: the room on the stack stays as counted. A hook that makes a call
of the sum is refused, also when other hooks turn the calls into something else. -/
theorem compile_hooked_twoFunctions :
    let noCalls : Hook := (⟨.call, some .sub, none, some 7⟩ : Replacement).hook
    let sumCalls : Hook := (⟨.add, some .call, none, none⟩ : Replacement).hook
    (∀ hook ∈ [noCalls, sumCalls], ∀ i, (hook i).node = i.node) ∧
      (∃ program, TwoFunctions.formula.compile [noCalls] = .ok program ∧
        program.callStackSize = 5) ∧
      TwoFunctions.formula.compile [noCalls, sumCalls] =
        .error (.malformedTree (.callInstruction "Addition")) := by
  intro noCalls sumCalls
  have hkeeps : ∀ hook ∈ [noCalls, sumCalls], ∀ i, (hook i).node = i.node := by
    simp only [List.forall_mem_cons, List.not_mem_nil, false_implies, implies_true, and_true]
    constructor <;>
    · intro i
      simp only [noCalls, sumCalls, Replacement.hook]
      split <;> rfl
  have hemission : TwoFunctions.formula.emission [] =
      .ok (emissionOf [] TwoFunctions.main TwoFunctions.functions) :=
    emission_eq_ok.mpr ⟨_, _, ⟨rfl, rfl, by decide, by decide, by decide⟩, rfl⟩
  have hone := compile_hooked TwoFunctions.formula [noCalls] (fun hook hmem =>
    hkeeps hook (List.mem_cons.mpr (.inl (List.mem_singleton.mp hmem))))
  have hboth := compile_hooked TwoFunctions.formula [noCalls, sumCalls] hkeeps
  refine ⟨hkeeps, ?_, ?_⟩
  · obtain ⟨-, -, -, herror, -, hprogram⟩ := hone.2.2 _ hemission
    cases hresult : TwoFunctions.formula.compile [noCalls] with
    | error cause =>
      have hcause := (herror cause).mp hresult
      rw [rewritten_emissionOf, callChecks_emissionOf] at hcause
      have hnone : firstError? ((compiledNodes TwoFunctions.main TwoFunctions.functions).flatMap
          fun node => (node.instruction.rewritten [noCalls]).callChecks ["square", "second"]) =
        none := by decide
      exact absurd hcause (hnone ▸ nofun)
    | ok program => exact ⟨program, rfl, ((hprogram program).mp hresult).callStackSize⟩
  · obtain ⟨-, -, -, herror, -, -⟩ := hboth.2.2 _ hemission
    rw [herror, rewritten_emissionOf, callChecks_emissionOf]
    decide

end Formula

end FormulaEngine
