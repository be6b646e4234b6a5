import FormulaEngine.Proofs.Batch.Refusal

/-!
# Workers side by side

A population may be divided among workers in any way, and they may come to their formulas in any
order: every formula gets the entry that it would get alone. A worker carries a cache and a counter
from one formula to the next, whether the evaluation succeeds or fails. Neither shows in an entry,
because every evaluation makes the cache current before it reads a column. There is one thing that
formulas do to each other: if one of them stops, none gets an entry.

- `ColumnCache.Current`: refreshed, the cache has the columns of the dataset;
- `Crew.Steady`: what every task leaves of a crew;
- `Formula.result`, `Formula.entry`: what a formula gives alone;
- `Crew.perform_ok`, `Crew.perform_error`: one task, whatever was done before;
- `Crew.foldlM_perform`, `Crew.foldlM_perform_stops`: tasks one after another;
- `Task.Cover`, `Crew.evaluatePopulation_covers`: tasks that come to every formula of a population
  once, and the entries that they leave;
- `Crew.evaluatePopulation_isolated`: the entries of a population and the counter.
-/

namespace FormulaEngine

/-! ## Caches -/

namespace ColumnCache

variable {cache : ColumnCache} {data : Dataset}

/-- Once it is refreshed, the cache has the columns of the dataset. -/
def Current (data : Dataset) (cache : ColumnCache) : Prop :=
  ∀ name, (cache.refresh data).2.get? name = data.numeric? name

/-- A cache that names no dataset is loaded. -/
theorem current_of_identity (h : cache.identity = none) : cache.Current data := by
  intro name
  have hknows : cache.knows data = false := by simp [knows, h]
  rw [refresh, hknows]
  exact data.lookup_numericColumns name

theorem Current.refresh (h : cache.Current data) : (cache.refresh data).2.Current data := by
  intro name
  by_cases hknows : (cache.refresh data).2.knows data
  · -- nothing is loaded again
    have hsame : ((cache.refresh data).2.refresh data).2 = (cache.refresh data).2 := by
      rw [ColumnCache.refresh, if_pos hknows]
    rw [hsame]
    exact h name
  · have hload : ((cache.refresh data).2.refresh data).2 = (cache.refresh data).2.load data := by
      rw [ColumnCache.refresh, if_neg hknows]
    rw [hload]
    exact data.lookup_numericColumns name

end ColumnCache

section

/-! ## One evaluation -/

variable {data : Dataset} {rows : Rows} {size : Nat}

namespace BatchInterpreter

/-- An interpreter with chunks of the given size whose cache will be current. -/
structure Steady (data : Dataset) (size : Nat) (batch : BatchInterpreter) : Prop where
  batchSize : batch.batchSize = size
  cache : batch.cache.Current data

variable {batch other : BatchInterpreter}

/-- An evaluation leaves the interpreter steady, also when it fails. -/
theorem Steady.evaluate (h : batch.Steady data size) (formula : Formula) (rows : Rows) :
    (batch.evaluate formula data rows).2.Steady data size := by
  constructor
  · rw [batchSize_evaluate]
    exact h.batchSize
  · rw [cache_evaluate]
    split
    · exact h.cache.refresh
    · exact h.cache

/-- Steady interpreters give the same result. -/
theorem Steady.evaluate_eq (h : batch.Steady data size) (hother : other.Steady data size)
    (formula : Formula) (rows : Rows) :
    (batch.evaluate formula data rows).1 = (other.evaluate formula data rows).1 := by
  refine evaluate_eq_of_get? (h.batchSize.trans hother.batchSize.symm) fun name => ?_
  rw [h.cache, hother.cache]

end BatchInterpreter

/-- The scalar interpreter counts an evaluation when the formula compiles. -/
theorem ScalarInterpreter.evaluate_counted (interpreter : ScalarInterpreter) (formula : Formula)
    (data : Dataset) (rows : Rows) :
    (interpreter.evaluate formula data rows).2 =
      { interpreter with
        evaluated :=
          interpreter.evaluated + if (formula.compile interpreter.hooks).isOk then 1 else 0 } := by
  unfold evaluate open?
  cases formula.compile interpreter.hooks with
  | error cause => rfl
  | ok program => rfl

/-- The counter does not show in a result. -/
theorem ScalarInterpreter.evaluate_congr (interpreter : ScalarInterpreter) (evaluated : Nat)
    (formula : Formula) (data : Dataset) (rows : Rows) :
    (ScalarInterpreter.evaluate { interpreter with evaluated } formula data rows).1 =
      (interpreter.evaluate formula data rows).1 := by
  unfold evaluate open?
  cases formula.compile interpreter.hooks with
  | error cause => rfl
  | ok program => rfl

/-- What a formula gives alone, with a batch interpreter or with the scalar one. -/
def Formula.result (scalar : ScalarInterpreter) (batch : BatchInterpreter) (data : Dataset)
    (rows : Rows) (formula : Formula) : Except Failure (List Float) :=
  if formula.isBatchEligible then (batch.evaluate formula data rows).1
  else (scalar.evaluate formula data rows).1

/-- The entry that a formula gets alone, or the fault with which it stops. -/
def Formula.entry (scalar : ScalarInterpreter) (batch : BatchInterpreter) (data : Dataset)
    (rows : Rows) (formula : Formula) : Except Fault Entry :=
  Entry.ofResult (formula.result scalar batch data rows)

theorem Entry.ofResult_eq_error {result : Except Failure (List Float)} {cause : Fault} :
    ofResult result = .error cause ↔ result = .error (.fault cause) := by
  match result with
  | .ok values => simp [ofResult]
  | .error (.error refusal) => simp [ofResult]
  | .error (.fault stopped) => simp [ofResult]

/-- Where the columns have the length of the dataset and all values can be kept, no formula stops. -/
theorem Formula.result_ne_fault {scalar : ScalarInterpreter} {batch : BatchInterpreter}
    (hhooks : scalar.hooks = []) (hdata : data.Rectangular) (hsize : 1 ≤ batch.batchSize)
    (hroom : batch.HasRoom rows) (formula : Formula) (cause : Fault) :
    formula.result scalar batch data rows ≠ .error (.fault cause) := by
  intro hstopped
  unfold result at hstopped
  split at hstopped
  · exact (BatchInterpreter.evaluate_fault hsize hstopped).2 hroom
  · cases hcompile : formula.compile [] with
    | error refusal =>
      rw [ScalarInterpreter.evaluate_eq_error hhooks hcompile] at hstopped
      cases hstopped
    | ok program =>
      rw [ScalarInterpreter.evaluate_eq_map hhooks hcompile hdata, if_pos hroom.rows] at hstopped
      cases hstopped

/-- The formula goes to the scalar interpreter and compiles there. -/
def Formula.isCounted (hooks : List Hook) (formula : Formula) : Bool :=
  !formula.isBatchEligible && (formula.compile hooks).isOk

theorem Formula.isCounted_of_eligible {formula : Formula} (h : formula.isBatchEligible = true)
    (hooks : List Hook) : formula.isCounted hooks = false := by
  rw [isCounted, h]
  rfl

theorem Formula.isCounted_of_not_eligible {formula : Formula} (h : ¬formula.isBatchEligible = true)
    (hooks : List Hook) : formula.isCounted hooks = (formula.compile hooks).isOk := by
  rw [isCounted, Bool.eq_false_iff.mpr h]
  rfl

/-! ## Tasks -/

namespace Crew

variable {scalar : ScalarInterpreter} {batch : BatchInterpreter} {population : List Formula}

/-- The scalar interpreter is the given one but for its counter, and all batch interpreters are
steady. -/
structure Steady (scalar : ScalarInterpreter) (data : Dataset) (size : Nat) (crew : Crew) : Prop where
  scalar : crew.scalar = { scalar with evaluated := crew.scalar.evaluated }
  batches : ∀ index, (crew.batches index).Steady data size

/-- A worker of a steady crew gives a formula the result that it has alone, counts it in the scalar
interpreter or not, and leaves the crew steady. -/
theorem Steady.evaluate {crew : Crew} (h : crew.Steady scalar data size)
    (hbatch : batch.Steady data size) (index : Nat) (rows : Rows) (formula : Formula) :
    ((crew.worker index).evaluate data rows formula).1 = formula.result scalar batch data rows ∧
      let after := crew.putBack index ((crew.worker index).evaluate data rows formula).2
      after.scalar.evaluated =
          crew.scalar.evaluated + (if formula.isCounted scalar.hooks then 1 else 0) ∧
        after.Steady scalar data size := by
  have hscalar := h.scalar
  unfold Worker.evaluate Formula.result
  by_cases heligible : formula.isBatchEligible = true
  · rw [if_pos heligible, if_pos heligible, Formula.isCounted_of_eligible heligible]
    refine ⟨(h.batches index).evaluate_eq hbatch formula rows, rfl, hscalar, fun other => ?_⟩
    show (if other = index then _ else crew.batches other).Steady data size
    split
    · exact (h.batches index).evaluate formula rows
    · exact h.batches other
  · rw [if_neg heligible, if_neg heligible, Formula.isCounted_of_not_eligible heligible]
    have hhooks : crew.scalar.hooks = scalar.hooks := by rw [hscalar]
    have hcounted := crew.scalar.evaluate_counted formula data rows
    refine ⟨?_, ?_, ?_, fun other => ?_⟩
    · show (crew.scalar.evaluate formula data rows).1 = _
      rw [hscalar]
      exact scalar.evaluate_congr _ formula data rows
    · show (crew.scalar.evaluate formula data rows).2.evaluated = _
      rw [hcounted, hhooks]
    · show (crew.scalar.evaluate formula data rows).2 =
        { scalar with evaluated := (crew.scalar.evaluate formula data rows).2.evaluated }
      rw [hcounted, hscalar]
    · show (if other = index then crew.batches index else crew.batches other).Steady data size
      split
      · exact h.batches index
      · exact h.batches other

/-- A task puts the entry that the formula gets alone where the formula stands, and leaves the crew
steady. -/
theorem perform_ok (hbatch : batch.Steady data size) (rows : Rows) {progress : Progress}
    (hcrew : progress.crew.Steady scalar data size) {task : Task} {formula : Formula}
    (hformula : population[task.position]? = some formula) {entry : Entry}
    (hentry : formula.entry scalar batch data rows = .ok entry) :
    ∃ next, perform data rows population progress task = .ok next ∧
      next.entries = progress.entries.set task.position (some entry) ∧
      next.crew.scalar.evaluated =
        progress.crew.scalar.evaluated + (if formula.isCounted scalar.hooks then 1 else 0) ∧
      next.crew.Steady scalar data size := by
  obtain ⟨hresult, hcounted, hsteady⟩ := hcrew.evaluate hbatch task.worker rows formula
  rw [Formula.entry, ← hresult] at hentry
  refine ⟨⟨_, progress.entries.set task.position (some entry)⟩, ?_, rfl, hcounted, hsteady⟩
  unfold perform
  rw [hformula]
  dsimp only
  rw [hentry]
  rfl

/-- A formula that stops alone stops its task. -/
theorem perform_error (hbatch : batch.Steady data size) (rows : Rows) {progress : Progress}
    (hcrew : progress.crew.Steady scalar data size) {task : Task} {formula : Formula}
    (hformula : population[task.position]? = some formula) {cause : Fault}
    (hstops : formula.entry scalar batch data rows = .error cause) :
    perform data rows population progress task = .error cause := by
  obtain ⟨hresult, -⟩ := hcrew.evaluate hbatch task.worker rows formula
  rw [Formula.entry, ← hresult] at hstops
  unfold perform
  rw [hformula]
  dsimp only
  rw [hstops]
  rfl

/-- A task beyond the population does nothing. -/
theorem perform_of_none {progress : Progress} {task : Task}
    (h : population[task.position]? = none) :
    perform data rows population progress task = .ok progress := by
  unfold perform
  rw [h]
  rfl

theorem foldlM_of_ok {task : Task} {rest : List Task} {progress next : Progress}
    (h : perform data rows population progress task = .ok next) :
    (task :: rest).foldlM (perform data rows population) progress =
      rest.foldlM (perform data rows population) next := by
  rw [List.foldlM_cons, h]
  rfl

/-- Tasks one after another, none of which stops: they fill in the entries of the formulas that they
come to, leave the other ones, and count the formulas that go to the scalar interpreter and compile.
By induction on the tasks; between two of them the crew is steady. -/
theorem foldlM_perform (hbatch : batch.Steady data size) (rows : Rows) (tasks : List Task)
    (progress : Progress) (hcrew : progress.crew.Steady scalar data size)
    (hlength : progress.entries.length = population.length)
    (hentries : ∀ formula ∈ population, ∃ entry, formula.entry scalar batch data rows = .ok entry) :
    ∃ after, tasks.foldlM (perform data rows population) progress = .ok after ∧
      after.crew.Steady scalar data size ∧
      after.crew.scalar.evaluated = progress.crew.scalar.evaluated +
        tasks.countP (fun task => population[task.position]?.any (Formula.isCounted scalar.hooks)) ∧
      after.entries.length = population.length ∧
      ∀ position formula entry, population[position]? = some formula →
        formula.entry scalar batch data rows = .ok entry →
          after.entries[position]? =
            if position ∈ tasks.map Task.position then some (some entry)
            else progress.entries[position]? := by
  induction tasks generalizing progress with
  | nil => exact ⟨progress, rfl, hcrew, rfl, hlength, fun _ _ _ _ _ => rfl⟩
  | cons task rest ih =>
    cases htask : population[task.position]? with
    | none =>
      obtain ⟨after, hrun, hsteady, hcount, hafter, hfilled⟩ := ih progress hcrew hlength
      refine ⟨after, (foldlM_of_ok (perform_of_none htask)).trans hrun, hsteady, ?_, hafter,
        fun position formula entry hformula hentry => ?_⟩
      · rw [hcount, List.countP_cons, htask]
        rfl
      · have hne : position ≠ task.position := by
          rintro rfl
          rw [htask] at hformula
          cases hformula
        rw [hfilled position formula entry hformula hentry]
        simp [hne]
    | some first =>
      obtain ⟨found, hfound⟩ := hentries first (List.mem_of_getElem? htask)
      obtain ⟨next, hnext, hset, hcounted, hsteady⟩ := perform_ok hbatch rows hcrew htask hfound
      have hlength' : next.entries.length = population.length := by
        rw [hset, List.length_set, hlength]
      obtain ⟨after, hrun, hsteady, hcount, hafter, hfilled⟩ := ih next hsteady hlength'
      refine ⟨after, (foldlM_of_ok hnext).trans hrun, hsteady, ?_, hafter,
        fun position formula entry hformula hentry => ?_⟩
      · rw [hcount, hcounted, List.countP_cons, htask]
        simp only [Option.any_some]
        omega
      · rw [hfilled position formula entry hformula hentry, List.map_cons]
        by_cases hlater : position ∈ rest.map Task.position
        · rw [if_pos hlater, if_pos (List.mem_cons_of_mem _ hlater)]
        · rw [if_neg hlater, hset]
          by_cases hposition : position = task.position
          · -- the first task has put the entry there, and no later one comes back
            subst hposition
            obtain rfl := Option.some.inj (htask.symm.trans hformula)
            obtain rfl := Except.ok.inj (hfound.symm.trans hentry)
            have hlt : task.position < progress.entries.length := by
              rw [hlength]
              exact (List.getElem?_eq_some_iff.mp htask).1
            rw [if_pos List.mem_cons_self, List.getElem?_set_self hlt]
          · rw [List.getElem?_set_ne (Ne.symm hposition), if_neg]
            simp [hposition, hlater]

/-- If a formula that stops is among those that the tasks come to, they stop with its fault or with
that of another formula of the population: the first one that they come to. -/
theorem foldlM_perform_stops (hbatch : batch.Steady data size) (rows : Rows) (tasks : List Task)
    (progress : Progress) (hcrew : progress.crew.Steady scalar data size) {task : Task}
    {formula : Formula} {cause : Fault} (htask : task ∈ tasks)
    (hformula : population[task.position]? = some formula)
    (hstops : formula.entry scalar batch data rows = .error cause) :
    ∃ stopped ∈ population, ∃ cause, stopped.entry scalar batch data rows = .error cause ∧
      tasks.foldlM (perform data rows population) progress = .error cause := by
  induction tasks generalizing progress with
  | nil => cases htask
  | cons first rest ih =>
    have hlater : ∀ {next : Progress}, next.crew.Steady scalar data size →
        perform data rows population progress first = .ok next → task ≠ first →
        ∃ stopped ∈ population, ∃ cause, stopped.entry scalar batch data rows = .error cause ∧
          (first :: rest).foldlM (perform data rows population) progress = .error cause := by
      intro next hsteady hnext hne
      rw [foldlM_of_ok hnext]
      exact ih next hsteady ((List.mem_cons.mp htask).resolve_left hne)
    cases hfirst : population[first.position]? with
    | none =>
      refine hlater hcrew (perform_of_none hfirst) ?_
      rintro rfl
      rw [hfirst] at hformula
      cases hformula
    | some other =>
      cases hentry : other.entry scalar batch data rows with
      | error found =>
        refine ⟨other, List.mem_of_getElem? hfirst, found, hentry, ?_⟩
        rw [List.foldlM_cons, perform_error hbatch rows hcrew hfirst hentry]
        rfl
      | ok entry =>
        obtain ⟨next, hnext, -, -, hsteady⟩ := perform_ok hbatch rows hcrew hfirst hentry
        refine hlater hsteady hnext ?_
        rintro rfl
        obtain rfl := Option.some.inj (hfirst.symm.trans hformula)
        rw [hstops] at hentry
        cases hentry

end Crew

/-! ## Populations -/

/-- Every formula of a population falls to exactly one of the tasks. The tasks of one worker among
them are the formulas that it evaluates, one after another; how the tasks of different workers are
mixed is the order in which things happen. -/
def Task.Cover (tasks : List Task) (count : Nat) : Prop :=
  (tasks.map Task.position).Perm (List.range count)

instance (tasks : List Task) (count : Nat) : Decidable (Task.Cover tasks count) :=
  inferInstanceAs (Decidable (List.Perm _ _))

theorem Task.Cover.mem_iff {tasks : List Task} {count position : Nat}
    (h : Task.Cover tasks count) : position ∈ tasks.map Task.position ↔ position < count := by
  rw [List.Perm.mem_iff h, List.mem_range]

/-- What is counted over the tasks is counted over the population. -/
theorem Task.Cover.countP_eq {tasks : List Task} {population : List Formula}
    (h : Task.Cover tasks population.length) (counted : Formula → Bool) :
    tasks.countP (fun task => population[task.position]?.any counted) =
      population.countP counted := by
  have hpositions : (List.range population.length).map (population[·]?) = population.map some := by
    refine List.ext_getElem (by simp) fun position hposition _ => ?_
    have hlt : position < population.length := by simpa using hposition
    simp [List.getElem?_eq_getElem hlt]
  calc tasks.countP (fun task => population[task.position]?.any counted)
    _ = (tasks.map Task.position).countP (fun position => population[position]?.any counted) := by
      rw [List.countP_map]
      rfl
    _ = (List.range population.length).countP (fun position => population[position]?.any counted) :=
      List.Perm.countP_eq _ h
    _ = (population.map some).countP (Option.any counted) := by
      rw [← hpositions, List.countP_map]
      rfl
    _ = population.countP counted := by
      rw [List.countP_map]
      rfl

/-- One worker that evaluates all formulas in their order gives each what it gets alone. -/
theorem Worker.evaluatePopulation_eq {scalar : ScalarInterpreter} {batch : BatchInterpreter}
    (hbatch : batch.Steady data size) (rows : Rows) {population : List Formula} {entries : List Entry}
    (hentries : List.Forall₂ (fun formula entry => formula.entry scalar batch data rows = .ok entry)
      population entries) (worker : Worker)
    (hscalar : worker.scalar = { scalar with evaluated := worker.scalar.evaluated })
    (hworker : worker.batch.Steady data size) :
    ∃ after, worker.evaluatePopulation data rows population = .ok (entries, after) := by
  induction hentries generalizing worker with
  | nil => exact ⟨worker, rfl⟩
  | @cons formula entry rest entries hentry _ ih =>
    -- the worker is a crew of one
    have hcrew : (Crew.mk worker.scalar fun _ => worker.batch).Steady scalar data size :=
      ⟨hscalar, fun _ => hworker⟩
    obtain ⟨hresult, -, hsteady⟩ := hcrew.evaluate hbatch 0 rows formula
    obtain ⟨after, hrest⟩ := ih _ hsteady.scalar (hsteady.batches 0)
    rw [Formula.entry, ← hresult] at hentry
    exact ⟨after, (evaluatePopulation_cons hentry rest).trans (congrArg (Except.map _) hrest)⟩

namespace Crew

/-- Where no formula stops, each of them has an entry. -/
theorem exists_entries {scalar : ScalarInterpreter} {batch : BatchInterpreter} {rows : Rows}
    {population : List Formula}
    (h : ∀ formula ∈ population, ∃ entry, formula.entry scalar batch data rows = .ok entry) :
    ∃ entries : List Entry, List.Forall₂
      (fun formula entry => formula.entry scalar batch data rows = .ok entry) population entries := by
  induction population with
  | nil => exact ⟨[], .nil⟩
  | cons first rest ih =>
    obtain ⟨⟨entry, hentry⟩, hrest⟩ := List.forall_mem_cons.mp h
    obtain ⟨entries, hentries⟩ := ih hrest
    exact ⟨entry :: entries, .cons hentry hentries⟩

/-- Tasks that come to every formula once, where none stops, leave an entry for each formula at its
place, and the scalar interpreter has counted the formulas that came to it and compile. -/
theorem evaluatePopulation_covers {scalar : ScalarInterpreter} {batch : BatchInterpreter}
    (hbatch : batch.Steady data size) (rows : Rows) {crew : Crew}
    (hcrew : crew.Steady scalar data size) {population : List Formula} {tasks : List Task}
    (htasks : Task.Cover tasks population.length)
    (hall : ∀ formula ∈ population, ∃ entry, formula.entry scalar batch data rows = .ok entry) :
    ∃ after entries, crew.evaluatePopulation data rows population tasks = .ok after ∧
      after.entries = entries.map some ∧
      List.Forall₂ (fun formula entry => formula.entry scalar batch data rows = .ok entry)
        population entries ∧
      after.crew.scalar = { scalar with
        evaluated := crew.scalar.evaluated +
          population.countP (Formula.isCounted scalar.hooks) } := by
  obtain ⟨entries, hentries⟩ := exists_entries hall
  obtain ⟨after, hrun, hsteady, hcount, hlength, hfilled⟩ :=
    foldlM_perform hbatch rows tasks ⟨crew, List.replicate population.length none⟩ hcrew
      List.length_replicate hall
  refine ⟨after, entries, hrun, List.ext_getElem? fun position => ?_, hentries, ?_⟩
  · by_cases hposition : position < population.length
    · have hposition' : position < entries.length := hentries.length_eq ▸ hposition
      have hentry := (List.forall₂_iff_get.mp hentries).2 position hposition hposition'
      rw [List.getElem?_map, List.getElem?_eq_getElem hposition']
      exact (hfilled position _ _ (List.getElem?_eq_getElem hposition) hentry).trans
        (if_pos (htasks.mem_iff.mpr hposition))
    · have hbeyond := Nat.le_of_not_lt hposition
      have hbeyond' : entries.length ≤ position := by rwa [← hentries.length_eq]
      rw [List.getElem?_map, List.getElem?_eq_none hbeyond']
      exact List.getElem?_eq_none (Nat.le_trans (Nat.le_of_eq hlength) hbeyond)
  · rw [htasks.countP_eq] at hcount
    exact hsteady.scalar.trans (congrArg (fun evaluated => { scalar with evaluated }) hcount)

/-- The formulas of a population do not touch each other, unless one of them stops. The crew begins
with batch interpreters fresh from a factory: chunks of one size, and no dataset in the cache. However
its workers divide the population and in whatever order they come to their formulas, every formula
gets, at its place, the entry of what it gives alone: with a fresh batch interpreter if a batch can run
it, else with the scalar interpreter. So the entries are also those of a single worker. The scalar
interpreter has counted the formulas that came to it and compile, and is otherwise as before.

A formula that stops alone stops the whole call, and then no formula has an entry. None stops where
there are no hooks, the columns have the length of the dataset, and all values can be kept. -/
theorem evaluatePopulation_isolated (crew : Crew) (data : Dataset) (rows : Rows)
    (population : List Formula) (tasks : List Task) (size : Nat)
    (hfresh : ∀ index,
      (crew.batches index).batchSize = size ∧ (crew.batches index).cache.identity = none)
    (htasks : Task.Cover tasks population.length) (index : Nat) :
    let alone : Formula → Except Failure (List Float) := fun formula =>
      if formula.isBatchEligible then ((crew.batches index).evaluate formula data rows).1
      else (crew.scalar.evaluate formula data rows).1
    ((∀ formula ∈ population, ∀ cause, alone formula ≠ .error (.fault cause)) →
      ∃ after entries, crew.evaluatePopulation data rows population tasks = .ok after ∧
        after.entries = entries.map some ∧
        List.Forall₂ (fun formula entry => Entry.ofResult (alone formula) = .ok entry) population
          entries ∧
        (∃ worker,
          (crew.worker index).evaluatePopulation data rows population = .ok (entries, worker)) ∧
        after.crew.scalar = { crew.scalar with
          evaluated := crew.scalar.evaluated + population.countP fun formula =>
            !formula.isBatchEligible && (formula.compile crew.scalar.hooks).isOk }) ∧
    (∀ formula ∈ population, ∀ cause, alone formula = .error (.fault cause) →
      ∃ stopped ∈ population, ∃ cause, alone stopped = .error (.fault cause) ∧
        crew.evaluatePopulation data rows population tasks = .error cause) ∧
    (crew.scalar.hooks = [] → data.Rectangular → 1 ≤ size → size ≤ storageLimit →
      rows.size ≤ storageLimit → ∀ formula cause, alone formula ≠ .error (.fault cause)) := by
  intro alone
  have hbatches : ∀ index, (crew.batches index).Steady data size := fun index =>
    ⟨(hfresh index).1, ColumnCache.current_of_identity (hfresh index).2⟩
  have hcrew : crew.Steady crew.scalar data size := ⟨rfl, hbatches⟩
  have hsize := (hfresh index).1
  refine ⟨fun hgoes => ?_, fun formula hmem cause hstops => ?_,
    fun hhooks hdata hone hchunk hroom formula cause => ?_⟩
  · have hall : ∀ formula ∈ population, ∃ entry,
        formula.entry crew.scalar (crew.batches index) data rows = .ok entry := by
      intro formula hmem
      cases hentry : formula.entry crew.scalar (crew.batches index) data rows with
      | ok entry => exact ⟨entry, rfl⟩
      | error cause => exact absurd (Entry.ofResult_eq_error.mp hentry) (hgoes formula hmem cause)
    obtain ⟨after, entries, hrun, hset, hentries, hscalar⟩ :=
      evaluatePopulation_covers (hbatches index) rows hcrew htasks hall
    exact ⟨after, entries, hrun, hset, hentries,
      Worker.evaluatePopulation_eq (hbatches index) rows hentries (crew.worker index) rfl
        (hbatches index), hscalar⟩
  · obtain ⟨position, hposition, rfl⟩ := List.mem_iff_getElem.mp hmem
    obtain ⟨task, htask, rfl⟩ := List.mem_map.mp (htasks.mem_iff.mpr hposition)
    obtain ⟨stopped, hstopped, found, hfound, hrun⟩ := foldlM_perform_stops (hbatches index) rows
      tasks ⟨crew, List.replicate population.length none⟩ hcrew htask
      (List.getElem?_eq_getElem hposition) (Entry.ofResult_eq_error.mpr hstops)
    exact ⟨stopped, hstopped, found, Entry.ofResult_eq_error.mp hfound, hrun⟩
  · exact Formula.result_ne_fault hhooks hdata (hsize ▸ hone) ⟨hsize ▸ hchunk, hroom⟩ formula cause

end Crew

end

/-! ## Two workers -/

namespace TwoWorkers

/-- A dataset that may change. -/
def data : Dataset := { IdleFunction.data with modifiable := true }

theorem rectangular_data : data.Rectangular := IdleFunction.rectangular_data

/-- One formula for the scalar interpreter, one that does not compile, and one for a batch. -/
def population : List Formula :=
  [Recall.formula, .ofBody (.leaf (.call "missing")), .ofBody (.leaf (.numericVariable "x" 3.0))]

/-- The last formula comes first, and its worker goes on with the first one when the other worker has
failed. -/
def tasks : List Task := [⟨1, 2⟩, ⟨0, 1⟩, ⟨1, 0⟩]

def crew : Crew where
  scalar := {}
  batches _ := .ofBatchSize 1

theorem fresh_crew (index : Nat) :
    (crew.batches index).batchSize = 1 ∧ (crew.batches index).cache.identity = none :=
  ⟨rfl, rfl⟩

end TwoWorkers

open TwoWorkers in
/-- The error stays with its formula. -/
theorem Crew.evaluatePopulation_isolated_twoWorkers :
    (∀ index, (crew.batches index).batchSize = 1 ∧ (crew.batches index).cache.identity = none) ∧
      Task.Cover tasks population.length ∧ data.Rectangular ∧
      ∃ after, crew.evaluatePopulation data (.range 0 2) population tasks = .ok after ∧
        after.entries = [some (.ok [nan, nan]), some (.error (.unresolvedFunction "missing")),
          some (.ok [3.0, 6.0])] ∧
        after.crew.scalar.evaluated = 1 := by
  have htasks : Task.Cover tasks population.length := by decide
  obtain ⟨hisolated, -, hgoes⟩ :=
    evaluatePopulation_isolated crew data (.range 0 2) population tasks 1 fresh_crew htasks 0
  obtain ⟨after, entries, hrun, hentries, -, ⟨worker, hworker⟩, hscalar⟩ :=
    hisolated fun formula _ =>
      hgoes rfl rectangular_data (Nat.le_refl 1) (by decide) (by decide) formula
  have hsingle : ((crew.worker 0).evaluatePopulation data (.range 0 2) population).map (·.1) =
      .ok [.ok [nan, nan], .error (.unresolvedFunction "missing"), .ok [3.0, 6.0]] := by
    decide +kernel
  rw [hworker] at hsingle
  cases hsingle
  have hmissing : (Formula.ofBody (.leaf (.call "missing"))).compile [] =
      .error (.unresolvedFunction "missing") := (Formula.compile_decidedBy _ _).mpr (by decide)
  have hcounted : population.countP
      (fun formula => !formula.isBatchEligible && (formula.compile []).isOk) = 1 := by
    have hscalar : Recall.formula.isBatchEligible = false := by decide
    have hother : (Formula.ofBody (.leaf (.call "missing"))).isBatchEligible = false := by decide
    have hbatch : (Formula.ofBody (.leaf (.numericVariable "x" 3.0))).isBatchEligible = true := by
      decide
    simp [population, Recall.compile_formula, hmissing, hscalar, hother, hbatch, Except.isOk,
      Except.toBool]
  refine ⟨fresh_crew, htasks, rectangular_data, after, hrun, hentries, ?_⟩
  rw [hscalar]
  exact (Nat.zero_add _).trans hcounted

open TwoWorkers in
/-- Asked for more values than can be kept, the formula for a batch stops, and then the one that does
not compile has no entry either, although alone it has its error. -/
theorem Crew.evaluatePopulation_stopped :
    (∀ index, (crew.batches index).batchSize = 1 ∧ (crew.batches index).cache.identity = none) ∧
      Task.Cover tasks population.length ∧
      (crew.scalar.evaluate (.ofBody (.leaf (.call "missing"))) data
        (.range 1 18446744073709551615)).1 = .error (.error (.unresolvedFunction "missing")) ∧
      (crew.evaluatePopulation data (.range 1 18446744073709551615) population tasks).map
        Progress.entries = .error .outOfStorage := by
  refine ⟨fresh_crew, by decide, ?_, ?_⟩
  · exact ScalarInterpreter.evaluate_eq_error rfl ((Formula.compile_decidedBy _ _).mpr (by decide))
  · decide +kernel

end FormulaEngine
