import FormulaEngine.Proofs.StackRoom

/-!
# How far the cursor goes

Every instruction moves the cursor by the longest lag at most, and what it starts begins there. The
instructions that are under way at one time form a chain, each started by the one before it: down
the tree of a body, and down the tree of one more body for every function that is running. Code is
addressed, so a body has at most `addressLimit` nodes. This bounds the chain, and with it how far
from the row the cursor can be.

- `Machine.chainBound`: how many instructions more can be under way at one time;
- `Machine.Leads.chainBound_lt`, `Machine.Leads.within`: what a node starts leaves a shorter chain
  and begins near it;
- `Machine.run_endsAs_runIn`: a register that holds all positions within the reach of the chain makes
  no difference to a run;
- `Evaluation.outcomeIn_eq`: the range in which the cursor stays at every row of a dataset.
-/

namespace FormulaEngine

namespace Node

theorem count_le_countAll {child : Node} {nodes : List Node} (h : child ∈ nodes) :
    child.count ≤ countAll nodes := by
  induction h with
  | head rest =>
    rw [countAll_cons]
    omega
  | tail first _ ih =>
    rw [countAll_cons]
    omega

theorem count_lt_of_mem_children {node child : Node} (h : child ∈ node.children) :
    child.count < node.count := by
  have hchild := count_le_countAll h
  rw [node.count_eq]
  omega

end Node

namespace Formula

/-- No function has more nodes than there are addresses. -/
def BodiesFit (formula : Formula) : Prop :=
  ∀ name body, formula.functionBody? name = some body → body.count ≤ addressLimit

variable {formula : Formula} {main : Node} {functions : List (String × Node)}

/-- No body that is compiled has more nodes than there are addresses. -/
theorem Compilable.count_le (h : formula.Compilable main functions) {root : Node}
    (hroot : root ∈ main :: functions.map (·.2)) : root.count ≤ addressLimit := by
  have hsize := h.size
  rw [compiledNodes, Node.length_preorderAll] at hsize
  exact Nat.le_trans (Node.count_le_countAll hroot) hsize

theorem Compilable.bodiesFit (h : formula.Compilable main functions) : formula.BodiesFit := by
  intro name body hbody
  have hmem : body ∈ functions.map (·.2) := List.mem_map_of_mem (h.mem_functions hbody)
  exact h.count_le (List.mem_cons_of_mem _ hmem)

end Formula

namespace Machine

variable {m : Machine} {formula : Formula} {entryPoints : List (String × Nat)} {data : Dataset}
  {main node next : Node} {s t : State}

/-- How many instructions can be under way at one time from that of a node on: those of its own tree
and, for every function that can still be entered, those of one body. -/
def chainBound (m : Machine) (node : Node) (depth : Nat) : Nat :=
  node.count + (m.maxCallDepth - depth) * addressLimit

/-- What a node starts leaves a shorter chain. -/
theorem Leads.chainBound_lt (hbodies : formula.BodiesFit) (h : m.Leads formula node s t next) :
    m.chainBound next t.callDepth < m.chainBound node s.callDepth := by
  unfold chainBound
  cases h with
  | child mem room depth near =>
    have hchild := Node.count_lt_of_mem_children mem
    rw [depth]
    omega
  | @body function functionBody called found room depth here =>
    obtain ⟨hdepth, hroom⟩ := depth
    have hbody := hbodies function next found
    have hnode := node.count_eq
    obtain ⟨left, hleft⟩ : ∃ left, m.maxCallDepth - s.callDepth = left + 1 :=
      ⟨m.maxCallDepth - s.callDepth - 1, by omega⟩
    have hnext : m.maxCallDepth - t.callDepth = left := by omega
    rw [hleft, hnext, Nat.succ_mul]
    omega

/-- What a node starts begins within one lag. -/
theorem Leads.within (h : m.Leads formula node s t next) :
    s.cursor - lagReach ≤ t.cursor ∧ t.cursor ≤ s.cursor + lagReach := by
  cases h with
  | child mem room depth near => exact near
  | body called found room depth here =>
    rw [here]
    unfold lagReach
    omega

/-- Everywhere within the reach of the chain of instructions that begins at a node, the register
holds every position as it is. -/
def Covers (m : Machine) (register : CursorRegister) (node : Node) (s : State) : Prop :=
  register.Faithful (s.cursor - m.chainBound node s.callDepth * lagReach)
    (s.cursor + m.chainBound node s.callDepth * lagReach)

section Register

variable {register : CursorRegister}

/-- The register still does so for what the node starts. -/
theorem Covers.leads (hbodies : formula.BodiesFit) (h : m.Covers register node s)
    (hleads : m.Leads formula node s t next) : m.Covers register next t := by
  have hchain := hleads.chainBound_lt hbodies
  obtain ⟨hlow, hhigh⟩ := hleads.within
  unfold lagReach at hlow hhigh
  unfold Covers lagReach at h ⊢
  exact h.mono (by omega) (by omega)

/-- One lag is within reach. -/
theorem Covers.near (h : m.Covers register node s) :
    register.Faithful (s.cursor - lagReach) (s.cursor + lagReach) := by
  have hchain : 1 ≤ m.chainBound node s.callDepth := by
    unfold chainBound
    rw [node.count_eq]
    omega
  unfold Covers lagReach at h
  unfold lagReach
  exact h.mono (by omega) (by omega)

/-- The instruction of a node ends the same with the cursor in a register that covers the node. A call
moves the cursor nowhere, so it is performed as without a register. -/
theorem performIn_endsAs_of_covers {self self' : Action Float} {i : BoundInstruction}
    (hself : m.Balances .exact 1 self) (hcovers : m.Covers register node s)
    (hstarts : ∀ t, m.Starts i (s.advance 1 1) t → EndsAs t self self') :
    EndsAs (s.advance 1 1) (m.perform self i) (m.performIn register self' i) := by
  by_cases hcall : i.opcode.operation = .call
  · have hperform : m.performIn register self' i = m.perform self' i := by
      unfold performIn
      rw [hcall]
    rw [hperform]
    exact perform_endsAs_of_starts hself hstarts
  · exact performIn_endsAs hself hcall hcovers.near hstarts

/-- So does a run of the node. -/
theorem run_endsAs_runIn (hcarries : m.Carries formula data entryPoints main)
    (hbodies : formula.BodiesFit) (steps : Nat) (hholds : m.Holds entryPoints data s.pc [node])
    (hcovers : m.Covers register node s) : EndsAs s (m.run steps) (m.runIn register steps) := by
  refine run_endsAs_of_leads (m.Covers register) hcarries (Covers.leads hbodies)
    (fun steps hcode _ hcovers hstarts => endsAs_after m.fetch fun i s' hrun => ?_)
    steps hholds hcovers
  rw [fetch_eq hcode] at hrun
  cases hrun
  exact performIn_endsAs_of_covers (balances_run m steps) hcovers hstarts

end Register

end Machine

/-! ## Evaluations -/

namespace Evaluation

/-- How far from the row the cursor can be under a limit of nested calls. -/
def cursorReach (maxCallDepth : Nat) : Int := (maxCallDepth + 1) * addressLimit * lagReach

variable {formula : Formula} {program : Program} {data : Dataset}

/-- A register makes no difference if it holds all positions within reach of the dataset. -/
theorem outcomeIn_of_faithful (hcompile : formula.compile [] = .ok program)
    {evaluation : Evaluation} (hprogram : evaluation.program = program.bind data)
    {register : CursorRegister}
    (hregister : register.Faithful (-cursorReach evaluation.maxCallDepth)
      (data.rows + cursorReach evaluation.maxCallDepth)) (row : Nat) :
    evaluation.outcomeIn register row = some (evaluation.outcomeAt row) := by
  obtain ⟨main, functions, hcompilable, rfl⟩ := Formula.compile_eq_ok.mp hcompile
  have hcode : evaluation.machine.code =
      ((Formula.programOf main functions).bind data).code := by
    rw [← hprogram]
    rfl
  have hcarries := hcompilable.carries hcode
  have hmain := hcompilable.count_le List.mem_cons_self
  unfold outcomeIn outcomeAt
  split
  · next hrange =>
    obtain ⟨-, hrow⟩ := (inRange_of_bind hprogram).mp hrange
    unfold cursorReach addressLimit lagReach at hregister
    rw [hregister row (by omega) (by omega)]
    have hcovers : evaluation.machine.Covers register main { cursor := row } := by
      have hchain : evaluation.machine.chainBound main 0 ≤
          addressLimit + evaluation.maxCallDepth * addressLimit :=
        Nat.add_le_add_right hmain _
      unfold addressLimit at hchain
      unfold Machine.Covers lagReach
      exact hregister.mono (by dsimp only; omega) (by dsimp only; omega)
    exact Machine.run_endsAs_runIn hcarries hcompilable.bodiesFit _ hcarries.body_holds hcovers _
      (evaluation.machine.run_stepBound _)
  · rfl

/-- Every position that the cursor takes at a row, and every one that a lagged variable reads at, is
within reach of the dataset: a register that refuses all others makes no difference. If the range
fits into 64 bits then no position overflows, and a register of 64 bits makes no difference,
whether it refuses what does not fit or wraps it around. Under the default limit of nested calls the
range of a dataset of up to `2 ^ 62` rows fits. -/
theorem outcomeIn_eq (hcompile : formula.compile [] = .ok program)
    (evaluation : Evaluation) (hprogram : evaluation.program = program.bind data) (row : Nat) :
    evaluation.outcomeIn (.within (-cursorReach evaluation.maxCallDepth)
        (data.rows + cursorReach evaluation.maxCallDepth)) row = some (evaluation.outcomeAt row) ∧
      (data.rows + cursorReach evaluation.maxCallDepth < 2 ^ 63 →
        evaluation.outcomeIn (.within Int64.minValue.toInt Int64.maxValue.toInt) row =
            some (evaluation.outcomeAt row) ∧
          evaluation.outcomeIn .wrapped row = some (evaluation.outcomeAt row)) ∧
      (evaluation.maxCallDepth ≤ defaultMaxCallDepth → data.rows ≤ 2 ^ 62 →
        data.rows + cursorReach evaluation.maxCallDepth < 2 ^ 63) := by
  refine ⟨outcomeIn_of_faithful hcompile hprogram (CursorRegister.faithful_within _ _) row,
    fun hfits => ?_, fun hlimit hrows => ?_⟩
  · have hlow : Int64.minValue.toInt ≤ -cursorReach evaluation.maxCallDepth := by
      rw [Int64.toInt_minValue]
      omega
    have hhigh : data.rows + cursorReach evaluation.maxCallDepth ≤ Int64.maxValue.toInt := by
      rw [Int64.toInt_maxValue]
      omega
    exact ⟨outcomeIn_of_faithful hcompile hprogram
        ((CursorRegister.faithful_within _ _).mono hlow hhigh) row,
      outcomeIn_of_faithful hcompile hprogram (CursorRegister.faithful_wrapped hlow hhigh) row⟩
  · unfold defaultMaxCallDepth at hlimit
    unfold cursorReach addressLimit lagReach
    omega

/-- At the second row the function goes back two rows, to before the first one. -/
theorem outcomeIn_eq_recall :
    Recall.formula.compile [] = .ok Recall.program ∧
      Recall.data.rows + cursorReach defaultMaxCallDepth < 2 ^ 63 ∧
      outcomeIn .wrapped
          ⟨Recall.program.bind Recall.data, defaultMaxCallDepth, .indices [], {}⟩ 1 =
        some (outcomeAt ⟨Recall.program.bind Recall.data, defaultMaxCallDepth, .indices [], {}⟩ 1) := by
  obtain ⟨-, hwraps, hfits⟩ := outcomeIn_eq Recall.compile_formula
    ⟨Recall.program.bind Recall.data, defaultMaxCallDepth, .indices [], {}⟩ rfl 1
  have hroom := hfits (Nat.le_refl _) (by decide)
  exact ⟨Recall.compile_formula, hroom, (hwraps hroom).2⟩

/-- A register that has no room before the first row stops a lag there. -/
example : (outcomeIn (.within 0 2)
    ⟨(Formula.programOf ⟨.timeLag (-1), [.leaf (.numericVariable "x" 1.0)]⟩ []).bind Recall.data, 0,
      .indices [], {}⟩ 0).map Machine.Outcome.isDone = some false := by
  decide +kernel

end Evaluation

end FormulaEngine
