import FormulaEngine.Proofs.CallGraph
import Mathlib.Data.List.Chain

/-!
# The limit of nested calls

The limit makes itself felt only where it cuts a call off. A run that is never cut off goes on in
the same way under any higher limit. What counts is how many functions are running at once:
arguments are run before the function that they are for, so calls in arguments do not add up.

- `Machine.NeverCutOff`: from a state on, no call is kept from its function by the limit;
- `Machine.runObserved_raise`: with a higher limit a run that is not cut off ends as before;
- `Formula.Chain`: functions of which each calls the next, the first one being called in a subtree;
- `Formula.ChainsWithin`: the chains that begin in the main body have no more than a number of
  members;
- `Machine.neverCutOff_of_chainsWithin`: then this number is limit enough;
- `Evaluation.evaluateRow_limit`: in both cases a higher limit makes no difference.
-/

namespace FormulaEngine

/-! ## Higher limits -/

namespace Machine

/-- Everything is allowed but the limit of nested calls. -/
abbrev uncut : Moment → State → Prop := fun moment _ => moment ≠ .cutOff

/-- From `s` on no call is kept from its function by the limit of nested calls. -/
def NeverCutOff (m : Machine) (s : State) : Prop := m.Throughout uncut s

variable {m : Machine} {limit : Nat} {self : Action Float} {i : BoundInstruction}

theorem callObserved_raise (hle : m.maxCallDepth ≤ limit) (s : State) :
    EndsAs s (m.callObserved uncut self i)
      (callObserved uncut { m with maxCallDepth := limit } self i) := by
  refine endsAs_after (pushObserved uncut self i.argCount) fun _ s' _ => ?_
  intro outcome hrun
  rw [get_bind] at hrun ⊢
  cases hdata : i.data with
  | jump target =>
    rw [hdata] at hrun
    change (if s'.callDepth < m.maxCallDepth then enterObserved uncut self _ target else _) _ = _
      at hrun
    show (if s'.callDepth < limit then enterObserved uncut self _ target else _) _ = _
    by_cases hroom : s'.callDepth < m.maxCallDepth
    · rw [if_pos hroom] at hrun
      rw [if_pos (Nat.lt_of_lt_of_le hroom hle)]
      exact hrun
    · -- the run would have been cut off here
      rw [if_neg hroom] at hrun
      cases hrun
  | none | missing | numeric _ | categorical _ =>
    rw [hdata] at hrun
    exact hrun

/-- Only calls know the limit. -/
theorem performObserved_raise (hle : m.maxCallDepth ≤ limit) (s : State) :
    EndsAs s (m.performObserved uncut self i)
      (performObserved uncut { m with maxCallDepth := limit } self i) := by
  unfold performObserved
  split
  · exact callObserved_raise hle s
  · next hcall =>
    intro outcome hrun
    have hskip : m.skip = skip { m with maxCallDepth := limit } := skip_of_argCounts rfl
    have hreads : ReadsAlike m { m with maxCallDepth := limit } i i.data s :=
      ⟨rfl, fun _ => rfl, fun _ _ _ _ => rfl, fun _ => rfl⟩
    have hsame : m.perform self i s = perform { m with maxCallDepth := limit } self i s :=
      perform_of_reads hskip hreads fun hoperation => absurd hoperation hcall
    exact hsame ▸ hrun

theorem runObserved_raise (hle : m.maxCallDepth ≤ limit) (steps : Nat) (s : State) :
    EndsAs s (m.runObserved uncut steps)
      (runObserved uncut { m with maxCallDepth := limit } steps) := by
  induction steps generalizing s with
  | zero => exact EndsAs.refl s _
  | succ steps ih =>
    refine look_endsAs id (endsAs_after m.fetch fun i s' _ => ?_)
    exact (performObserved_endsAs (balances_runObserved steps) (fun t _ => ih t)
      fun _ _ _ h => h).trans (performObserved_raise hle s')

/-- A run that is not cut off ends in the same way under a higher limit. -/
theorem evaluate_raise {s : State} (h : m.NeverCutOff s) (hle : m.maxCallDepth ≤ limit) :
    evaluate { m with maxCallDepth := limit } s = m.evaluate s := by
  have hobserved : m.runObserved uncut (m.stepBound s.pc s.callDepth) s = some (m.evaluate s) :=
    h.trans (m.run_stepBound s)
  -- the bound of steps rises with the limit, but the run ends within the lower one
  have hraised := runObserved_endsAs_run _ s _ (runObserved_raise hle _ s _ hobserved)
  exact evaluate_eq_of_run hraised

end Machine

/-! ## Chains of functions -/

namespace Formula

variable {formula : Formula}

/-- The first function is called in the subtree, and every other one by the one before it. -/
structure Chain (formula : Formula) (node : Node) (functions : List String) : Prop where
  calls : functions.IsChain formula.Calls
  first : ∀ function ∈ functions.head?, function ∈ node.callees

/-- Chains of functions that begin in the main body have at most `limit` members. So no function that
the main body reaches can reach itself, since it could occur in a chain as often as one likes. -/
def ChainsWithin (formula : Formula) (limit : Nat) : Prop :=
  ∀ main, formula.body? = some main → ∀ functions, formula.Chain main functions →
    functions.length ≤ limit

/-- A chain of functions whose ranks fall is no longer than the rank of the first one allows. -/
theorem Ranked.length_le {rank : String → Nat} (h : formula.Ranked rank) {first : String}
    {rest : List String} (hchain : (first :: rest).IsChain formula.Calls) :
    rest.length ≤ rank first := by
  induction rest generalizing first with
  | nil => exact Nat.zero_le _
  | cons second rest ih =>
    rw [List.isChain_cons_cons] at hchain
    have hfalls := h.lt hchain.1
    have hrest := ih hchain.2
    rw [List.length_cons]
    omega

theorem Ranked.chainsWithin {rank : String → Nat} (h : formula.Ranked rank) {limit : Nat}
    (hmain : ∀ main ∈ formula.body?, ∀ function ∈ main.callees, rank function < limit) :
    formula.ChainsWithin limit := by
  intro main hbody functions hchain
  cases functions with
  | nil => exact Nat.zero_le _
  | cons first rest =>
    have hfirst := hmain main hbody first (hchain.first first rfl)
    have hrest := h.length_le hchain.calls
    rw [List.length_cons]
    omega

/-- Every chain that begins in the subtree fits on top of the functions that are running. -/
def ChainsFit (formula : Formula) (limit : Nat) (node : Node) (_occupied depth : Nat) : Prop :=
  ∀ functions, formula.Chain node functions → depth + functions.length ≤ limit

theorem chainsFit_handsOn (formula : Formula) (limit : Nat) :
    formula.HandsOn (formula.ChainsFit limit) where
  child := by
    intro node child occupied depth count hnode hchild _ functions hchain
    exact hnode functions
      ⟨hchain.calls, fun function hfirst => Node.callees_subset hchild (hchain.first function hfirst)⟩
  body := by
    intro node functionBody occupied depth function hnode hsymbol hbody functions hchain
    -- the function that is entered goes in front of the chain
    have hlonger : formula.Chain node (function :: functions) := by
      constructor
      · exact List.isChain_cons.mpr
          ⟨fun next hnext => ⟨functionBody, hbody, hchain.first next hnext⟩, hchain.calls⟩
      · rintro _ ⟨⟩
        exact Node.mem_callees_of_call hsymbol
    have hle := hnode _ hlonger
    rw [List.length_cons] at hle
    omega

end Formula

namespace Machine

/-- Under a limit that no chain of functions goes beyond, no call is cut off. -/
theorem neverCutOff_of_chainsWithin {m : Machine} {formula : Formula} {data : Dataset}
    {entryPoints : List (String × Nat)} {main : Node}
    (hcarries : m.Carries formula data entryPoints main)
    (hchains : formula.ChainsWithin m.maxCallDepth) (row : Int) :
    m.NeverCutOff { cursor := row } := by
  refine throughout_of_handsOn (formula.chainsFit_handsOn m.maxCallDepth) hcarries ?_ ?_ row ?_
  · intro node s _ h
    cases h
  · intro node s moment t hnode hfit hoccurs
    cases hoccurs with
    | cutOff called full all =>
      obtain ⟨function, hsymbol⟩ := Node.call_of_bound hnode called
      have hchain : formula.Chain node [function] :=
        ⟨List.isChain_singleton _, by rintro _ ⟨⟩; exact Node.mem_callees_of_call hsymbol⟩
      have hle := hfit _ hchain
      rw [List.length_singleton] at hle
      omega
    | _ => exact fun h => nomatch h
  · intro functions hchain
    rw [Nat.zero_add]
    exact hchains main hcarries.body_eq functions hchain

/-- A run that comes through observation is in allowed states throughout. -/
theorem throughout_of_isSome {m : Machine} {allowed : Moment → State → Prop}
    [∀ moment, DecidablePred (allowed moment)] {s : State}
    (h : (m.runObserved allowed (m.stepBound s.pc s.callDepth) s).isSome) :
    m.Throughout allowed s :=
  ((runObserved_endsAs_run _ s).eq_of_isSome h).symm

end Machine

/-! ## Compiled formulas -/

namespace Evaluation

/-- A higher limit of nested calls makes no difference at a row where the lower one cuts no call off:
value, program counter, stack and number of instructions run are the same. In particular it makes
none if no chain of functions has more members than the lower limit allows. -/
theorem evaluateRow_limit {formula : Formula} {program : Program}
    (hcompile : formula.compile [] = .ok program) (data : Dataset) {limit higher : Nat}
    (hle : limit ≤ higher) (rows : Rows) (state : Machine.State) (row : Nat) :
    ((row < data.rows →
        (machine ⟨program.bind data, limit, rows, state⟩).NeverCutOff { cursor := row }) →
      AgreeAt row ⟨program.bind data, limit, rows, state⟩
        ⟨program.bind data, higher, rows, state⟩) ∧
    (formula.ChainsWithin limit →
      AgreeAt row ⟨program.bind data, limit, rows, state⟩
        ⟨program.bind data, higher, rows, state⟩) := by
  have hraise : (row < data.rows →
        (machine ⟨program.bind data, limit, rows, state⟩).NeverCutOff { cursor := row }) →
      AgreeAt row ⟨program.bind data, limit, rows, state⟩
        ⟨program.bind data, higher, rows, state⟩ := by
    intro huncut
    refine agreeAt_of_outcomeAt (outcomeAt_congr rfl fun hrange => ?_)
    obtain ⟨-, hlt⟩ := (inRange_of_bind rfl).mp hrange
    exact (Machine.evaluate_raise (huncut hlt) hle).symm
  refine ⟨hraise, fun hchains => hraise fun _ => ?_⟩
  obtain ⟨main, functions, hcompilable, rfl⟩ := Formula.compile_eq_ok.mp hcompile
  exact Machine.neverCutOff_of_chainsWithin (hcompilable.carries rfl) hchains row

/-- Three functions of the one formula are running at once, and a run of it is not cut off; in the
other one no chain has more than two members. -/
theorem evaluateRow_limit_recall_nested :
    (Recall.formula.compile [] = .ok Recall.program ∧ 3 ≤ 64 ∧
      (machine ⟨Recall.program.bind Recall.data, 3, .indices [], {}⟩).NeverCutOff { cursor := 2 } ∧
      AgreeAt 2 ⟨Recall.program.bind Recall.data, 3, .indices [], {}⟩
        ⟨Recall.program.bind Recall.data, 64, .indices [], {}⟩) ∧
    Nested.formula.compile [] = .ok (Formula.programOf Nested.main Nested.functions) ∧ 2 ≤ 64 ∧
      Nested.formula.ChainsWithin 2 ∧
      AgreeAt 2
        ⟨(Formula.programOf Nested.main Nested.functions).bind Recall.data, 2, .indices [], {}⟩
        ⟨(Formula.programOf Nested.main Nested.functions).bind Recall.data, 64, .indices [], {}⟩ := by
  have huncut :
      (machine ⟨Recall.program.bind Recall.data, 3, .indices [], {}⟩).NeverCutOff
        { cursor := 2 } := Machine.throughout_of_isSome (by decide +kernel)
  have hchains : Nested.formula.ChainsWithin 2 :=
    Nested.ranked_formula.chainsWithin (by decide)
  obtain ⟨hrecall, -⟩ := evaluateRow_limit Recall.compile_formula Recall.data
    (show 3 ≤ 64 by decide) (.indices []) {} 2
  obtain ⟨-, hnested⟩ := evaluateRow_limit Nested.compile_formula Recall.data
    (show 2 ≤ 64 by decide) (.indices []) {} 2
  exact ⟨⟨Recall.compile_formula, by decide, huncut, hrecall fun _ => huncut⟩,
    Nested.compile_formula, by decide, hchains, hnested hchains⟩

end Evaluation

end FormulaEngine
