import FormulaEngine.Proofs.Batch.Cache
import FormulaEngine.Session

/-!
# Datasets in a session

What a session knows of its datasets, whatever steps have led to it. Every new dataset gets an
identity of its own; clones share one, and only modifiable datasets change under theirs. So the cache
can trust the identity of a fixed dataset.

- `Session.Sound`: the datasets of a session, past and present, and the cache that they led to;
- `Session.Sound.perform`: one step keeps this, with more datasets known after it;
- `Session.Reachable.sound`: so do all steps from a session without datasets;
- `Session.perform_frame`: the parts of a session that a step leaves alone;
- `Session.history_induction`: what every step carries on from the history before it;
- `Session.refresh_current`: a refreshed cache has the columns of the dataset as it is now, and a
  batch gives what a new interpreter gives.
-/

namespace FormulaEngine

/-! ## Identities -/

namespace Dataset

/-- A built dataset is fixed, under the identity that it was given. -/
theorem build_eq_ok {identity : Nat} {columns : List (String × Column)} {data : Dataset}
    (h : build identity columns = .ok data) :
    data.identity = identity ∧ data.modifiable = false := by
  obtain ⟨checked, -, h⟩ := bind_eq_ok.mp h
  cases h
  exact ⟨rfl, rfl⟩

/-- Other values leave the dataset what it is, with its identity. -/
theorem replace_eq_ok {name : String} {values : Array Float} {data after : Dataset}
    (h : data.replace name values = .ok after) :
    after.identity = data.identity ∧ after.modifiable = data.modifiable := by
  unfold replace at h
  cases hcolumn : data.column? name with
  | none => simp [hcolumn] at h
  | some column =>
    cases column with
    | categorical _ => simp [hcolumn] at h
    | numeric _ =>
      by_cases hsize : values.size = data.rows
      · simp only [hcolumn, hsize, ne_eq, not_true, if_false, Except.ok.injEq] at h
        subst h
        exact ⟨rfl, rfl⟩
      · simp [hcolumn, hsize] at h

end Dataset

/-- A dataset may become known if it is modifiable or its identity is new. -/
theorem Identified.insert {known : Dataset → Prop} (hknown : Identified known) {data : Dataset}
    (hdata : data.modifiable = true ∨ ∀ other, known other → other.identity ≠ data.identity) :
    Identified fun other => known other ∨ other = data := by
  have happart : ∀ other, known other → data.modifiable = false →
      other.identity ≠ data.identity := by
    intro other hother hfixed
    rcases hdata with hmodifiable | hnew
    · rw [hfixed] at hmodifiable
      cases hmodifiable
    · exact hnew other hother
  rintro first second (hfirst | rfl) (hsecond | rfl) hfirstFixed hsecondFixed hidentity name
  · exact hknown first second hfirst hsecond hfirstFixed hsecondFixed hidentity name
  · exact absurd hidentity (happart first hfirst hsecondFixed)
  · exact absurd hidentity.symm (happart second hsecond hfirstFixed)
  · rfl

namespace Session

variable {known : Dataset → Prop} {session : Session} {data : Dataset}

/-- What is true of the datasets that a session has made so far, in all their versions, and of the
cache. -/
structure Sound (session : Session) (known : Dataset → Prop) : Prop where
  identified : Identified known
  old : ∀ data, known data → data.identity < session.nextIdentity
  member : ∀ data ∈ session.datasets, known data
  reached : session.batch.cache.Reached known
  batchSize : 1 ≤ session.batch.batchSize

/-- The session is sound, with what was known before and maybe more. -/
def SoundBeyond (session : Session) (known : Dataset → Prop) : Prop :=
  ∃ more, (∀ data, known data → more data) ∧ session.Sound more

/-! ## One step -/

namespace Sound

theorem beyond (h : session.Sound known) : session.SoundBeyond known :=
  ⟨known, fun _ hdata => hdata, h⟩

/-- A session with the same datasets is sound if its cache is one that they lead to. -/
theorem withBatch (h : session.Sound known) {after : Session}
    (hdatasets : after.datasets = session.datasets)
    (hnext : after.nextIdentity = session.nextIdentity)
    (hreached : after.batch.cache.Reached known) (hsize : 1 ≤ after.batch.batchSize) :
    after.SoundBeyond known := by
  refine beyond ⟨h.identified, ?_, ?_, hreached, hsize⟩
  · rw [hnext]
    exact h.old
  · rw [hdatasets]
    exact h.member

/-- Interpreters and evaluations that a step leaves behind do not matter, except for the cache. -/
theorem frame (h : session.Sound known) {after : Session}
    (hdatasets : after.datasets = session.datasets)
    (hnext : after.nextIdentity = session.nextIdentity) (hbatch : after.batch = session.batch) :
    after.SoundBeyond known := by
  refine h.withBatch hdatasets hnext ?_ ?_
  · rw [hbatch]
    exact h.reached
  · rw [hbatch]
    exact h.batchSize

/-- A step with an object that may not exist. -/
theorem withObject (h : session.Sound known) {α : Type} (object : Option α) (next : α → Result)
    (hnext : ∀ found, object = some found → (next found).2.SoundBeyond known) :
    (session.withObject object next).2.SoundBeyond known := by
  cases object with
  | none => exact h.beyond
  | some found => exact hnext found rfl

/-- A dataset of the session is known. -/
theorem known_of_getElem? (h : session.Sound known) {number : Nat}
    (hdata : session.datasets[number]? = some data) : known data :=
  h.member data (Array.mem_of_getElem? hdata)

/-- A known dataset may be added again, as a clone is. -/
theorem addDataset (h : session.Sound known) (hdata : known data) :
    (session.addDataset data).2.Sound known where
  identified := h.identified
  old := h.old
  member := by
    intro other hother
    rcases Array.mem_push.mp hother with hother | rfl
    · exact h.member other hother
    · exact hdata
  reached := h.reached
  batchSize := h.batchSize

/-- A dataset under the next identity may be added. -/
theorem addFresh (h : session.Sound known) (hidentity : data.identity = session.nextIdentity) :
    (session.addFresh data).2.SoundBeyond known := by
  refine ⟨fun other => known other ∨ other = data, fun _ => Or.inl, ?_⟩
  -- all identities so far are smaller than the next one
  have hnew : ∀ other, known other → other.identity ≠ data.identity := by
    intro other hother
    have hold := h.old other hother
    omega
  constructor
  · exact h.identified.insert (Or.inr hnew)
  · show ∀ other, known other ∨ other = data → other.identity < session.nextIdentity + 1
    rintro other (hother | rfl)
    · exact Nat.lt_succ_of_lt (h.old other hother)
    · omega
  · intro other hother
    rcases Array.mem_push.mp hother with hother | rfl
    · exact Or.inl (h.member other hother)
    · exact Or.inr rfl
  · exact h.reached.mono fun _ => Or.inl
  · exact h.batchSize

/-- A modifiable dataset may get other values in its place. -/
theorem replace (h : session.Sound known) {number : Nat} {name : String} {values : Array Float}
    {after : Dataset} (hdata : session.datasets[number]? = some data)
    (hmodifiable : data.modifiable = true) (hafter : data.replace name values = .ok after) :
    Session.SoundBeyond { session with datasets := session.datasets.setIfInBounds number after }
      known := by
  obtain ⟨hidentity, hkind⟩ := Dataset.replace_eq_ok hafter
  refine ⟨fun other => known other ∨ other = after, fun _ => Or.inl, ?_⟩
  constructor
  · exact h.identified.insert (Or.inl (hkind.trans hmodifiable))
  · rintro other (hother | rfl)
    · exact h.old other hother
    · rw [hidentity]
      exact h.old data (h.known_of_getElem? hdata)
  · intro other hother
    rcases Array.mem_or_eq_of_mem_setIfInBounds hother with hother | rfl
    · exact Or.inl (h.member other hother)
    · exact Or.inr rfl
  · exact h.reached.mono fun _ => Or.inl
  · exact h.batchSize

/-- A batch may evaluate a formula for a dataset of the session. -/
theorem evaluate (h : session.Sound known) {number : Nat} {formula : Formula} {rows : Rows}
    (hdata : session.datasets[number]? = some data) :
    Session.SoundBeyond { session with batch := (session.batch.evaluate formula data rows).2 }
      known := by
  refine h.withBatch rfl rfl ?_ ?_
  · exact BatchInterpreter.reached_evaluate h.reached (h.known_of_getElem? hdata)
  · show 1 ≤ (session.batch.evaluate formula data rows).2.batchSize
    rw [BatchInterpreter.batchSize_evaluate]
    exact h.batchSize

/-- What was drawn from an evaluation does not matter. -/
theorem putBack (h : session.Sound known) (number : Nat) (value : Option (Except Fault Float))
    (evaluation : Evaluation) :
    (session.putBack number value evaluation).2.SoundBeyond known := by
  unfold Session.putBack
  cases value with
  | none => exact h.frame rfl rfl rfl
  | some value =>
    cases value with
    | error cause => exact h.frame rfl rfl rfl
    | ok value => exact h.frame rfl rfl rfl

/-- A step leaves a sound session, whether it succeeds or fails. -/
theorem perform (h : session.Sound known) (step : Step) :
    (session.perform step).2.SoundBeyond known := by
  cases step with
  | build columns =>
    cases hbuild : Dataset.build session.nextIdentity columns with
    | error cause =>
      have hperform : session.perform (.build columns) =
          session.refuse (.failure (.error cause)) := by
        simp only [Session.perform, hbuild]
      rw [hperform]
      exact h.beyond
    | ok data =>
      have hperform : session.perform (.build columns) = session.addFresh data := by
        simp only [Session.perform, hbuild]
      rw [hperform]
      exact h.addFresh (Dataset.build_eq_ok hbuild).1
  | toModifiable number =>
    refine h.withObject _ _ fun data hdata => ?_
    by_cases hmodifiable : data.modifiable
    · rw [if_pos hmodifiable]
      exact h.beyond
    · rw [if_neg hmodifiable]
      exact h.addFresh rfl
  | clone number =>
    exact h.withObject _ _ fun data hdata => (h.addDataset (h.known_of_getElem? hdata)).beyond
  | replace number name values =>
    refine h.withObject _ _ fun data hdata => ?_
    by_cases hmodifiable : data.modifiable
    · rw [if_pos hmodifiable]
      cases hafter : data.replace name values with
      | error cause => exact h.beyond
      | ok after => exact h.replace hdata hmodifiable hafter
    · rw [if_neg hmodifiable]
      exact h.beyond
  | describe number => exact h.withObject _ _ fun _ _ => h.beyond
  | column number name => exact h.withObject _ _ fun _ _ => h.beyond
  | sameIdentity first second =>
    exact h.withObject _ _ fun _ _ => h.withObject _ _ fun _ _ => h.beyond
  | scalar formula number rows =>
    exact h.withObject _ _ fun _ _ => h.frame rfl rfl rfl
  | batch formula number rows => exact h.withObject _ _ fun _ hdata => h.evaluate hdata
  | through kind formula number rows count =>
    cases kind with
    | scalar => exact h.withObject _ _ fun _ _ => h.frame rfl rfl rfl
    | batch => exact h.withObject _ _ fun _ hdata => h.evaluate hdata
  | counters => exact h.beyond
  | resetCounters => exact h.withBatch rfl rfl h.reached h.batchSize
  | resetCounter kind =>
    cases kind with
    | scalar => exact h.frame rfl rfl rfl
    | batch => exact h.withBatch rfl rfl h.reached h.batchSize
  | refreshCache number =>
    refine h.withObject _ _ fun data hdata => h.withBatch rfl rfl ?_ h.batchSize
    exact .refresh h.reached (h.known_of_getElem? hdata)
  | clearCache => exact h.withBatch rfl rfl (.clear h.reached) h.batchSize
  | handOver batchSize =>
    exact h.withBatch rfl rfl h.reached (Nat.le_max_right batchSize 1)
  | cachedColumn name => exact h.beyond
  | compile formula =>
    cases hcompile : formula.compile session.scalar.hooks with
    | error cause =>
      have hperform : session.perform (.compile formula) =
          session.refuse (.failure (.error cause)) := by
        simp only [Session.perform, hcompile]
      rw [hperform]
      exact h.beyond
    | ok program =>
      have hperform : session.perform (.compile formula) =
          (.ok (.program session.programs.size),
            { session with programs := session.programs.push program }) := by
        simp only [Session.perform, hcompile]
      rw [hperform]
      exact h.frame rfl rfl rfl
  | evaluate formula number rows =>
    refine h.withObject _ _ fun data _ => ?_
    cases session.scalar.open? formula data rows with
    | error cause => exact h.beyond
    | ok started => exact h.frame rfl rfl rfl
  | evaluateProgram program number rows =>
    exact h.withObject _ _ fun _ _ => h.withObject _ _ fun _ _ => h.frame rfl rfl rfl
  | next number => exact h.withObject _ _ fun _ _ => h.putBack _ _ _
  | evaluateRow number row => exact h.withObject _ _ fun _ _ => h.putBack _ _ _

end Sound

/-! ## What a step leaves alone -/

namespace Step

/-- Steps that make datasets or change one. -/
def changesData : Step → Bool
  | build _ | toModifiable _ | clone _ | replace _ _ _ => true
  | _ => false

/-- Steps that count for the scalar interpreter or set its counter back. -/
def changesScalar : Step → Bool
  | scalar _ _ _ | through .scalar _ _ _ _ | evaluate _ _ _ | evaluateProgram _ _ _
  | resetCounters | resetCounter .scalar => true
  | _ => false

/-- Steps that ask the batch interpreter, change its cache or set its counter back. -/
def changesBatch : Step → Bool
  | batch _ _ _ | through .batch _ _ _ _ | resetCounters | resetCounter .batch
  | refreshCache _ | clearCache | handOver _ => true
  | _ => false

end Step

/-- What the session after a step has in common with the one before it. -/
structure Frame (step : Step) (before after : Session) : Prop where
  data : step.changesData = false → after.datasets = before.datasets
  scalar : step.changesScalar = false → after.scalar = before.scalar
  batch : step.changesBatch = false → after.batch = before.batch

namespace Frame

theorem refl (step : Step) (session : Session) : Frame step session session :=
  ⟨fun _ => rfl, fun _ => rfl, fun _ => rfl⟩

theorem withObject {step : Step} {α : Type} (object : Option α) (next : α → Result)
    (hnext : ∀ found, Frame step session (next found).2) :
    Frame step session (session.withObject object next).2 := by
  cases object with
  | none => exact .refl step session
  | some found => exact hnext found

theorem putBack (step : Step) (number : Nat) (value : Option (Except Fault Float))
    (evaluation : Evaluation) : Frame step session (session.putBack number value evaluation).2 := by
  unfold Session.putBack
  cases value with
  | none => exact ⟨fun _ => rfl, fun _ => rfl, fun _ => rfl⟩
  | some value => cases value <;> exact ⟨fun _ => rfl, fun _ => rfl, fun _ => rfl⟩

end Frame

theorem perform_frame (session : Session) (step : Step) :
    Frame step session (session.perform step).2 := by
  cases step with
  | build columns =>
    cases hbuild : Dataset.build session.nextIdentity columns with
    | error cause =>
      simp only [perform, hbuild]
      exact .refl _ _
    | ok data =>
      simp only [perform, hbuild]
      exact ⟨nofun, fun _ => rfl, fun _ => rfl⟩
  | toModifiable number =>
    refine .withObject _ _ fun data => ?_
    cases data.modifiable with
    | true => exact .refl _ _
    | false => exact ⟨nofun, fun _ => rfl, fun _ => rfl⟩
  | clone number =>
    exact .withObject _ _ fun data => ⟨nofun, fun _ => rfl, fun _ => rfl⟩
  | replace number name values =>
    refine .withObject _ _ fun data => ?_
    cases data.modifiable with
    | false => exact .refl _ _
    | true =>
      rw [if_pos rfl]
      cases data.replace name values with
      | error cause => exact .refl _ _
      | ok after => exact ⟨nofun, fun _ => rfl, fun _ => rfl⟩
  | describe number => exact .withObject _ _ fun _ => .refl _ _
  | column number name => exact .withObject _ _ fun _ => .refl _ _
  | sameIdentity first second => exact .withObject _ _ fun _ => .withObject _ _ fun _ => .refl _ _
  | scalar formula number rows =>
    exact .withObject _ _ fun _ => ⟨fun _ => rfl, nofun, fun _ => rfl⟩
  | batch formula number rows =>
    exact .withObject _ _ fun _ => ⟨fun _ => rfl, fun _ => rfl, nofun⟩
  | through kind formula number rows count =>
    cases kind with
    | scalar => exact .withObject _ _ fun _ => ⟨fun _ => rfl, nofun, fun _ => rfl⟩
    | batch => exact .withObject _ _ fun _ => ⟨fun _ => rfl, fun _ => rfl, nofun⟩
  | counters => exact .refl _ _
  | resetCounters => exact ⟨fun _ => rfl, nofun, nofun⟩
  | resetCounter kind =>
    cases kind with
    | scalar => exact ⟨fun _ => rfl, nofun, fun _ => rfl⟩
    | batch => exact ⟨fun _ => rfl, fun _ => rfl, nofun⟩
  | refreshCache number =>
    exact .withObject _ _ fun _ => ⟨fun _ => rfl, fun _ => rfl, nofun⟩
  | clearCache => exact ⟨fun _ => rfl, fun _ => rfl, nofun⟩
  | handOver batchSize => exact ⟨fun _ => rfl, fun _ => rfl, nofun⟩
  | cachedColumn name => exact .refl _ _
  | compile formula =>
    cases hcompile : formula.compile session.scalar.hooks with
    | error cause =>
      simp only [perform, hcompile]
      exact .refl _ _
    | ok program =>
      simp only [perform, hcompile]
      exact ⟨fun _ => rfl, fun _ => rfl, fun _ => rfl⟩
  | evaluate formula number rows =>
    refine .withObject _ _ fun data => ?_
    cases session.scalar.open? formula data rows with
    | error cause => exact .refl _ _
    | ok started => exact ⟨fun _ => rfl, nofun, fun _ => rfl⟩
  | evaluateProgram program number rows =>
    exact .withObject _ _ fun _ => .withObject _ _ fun _ =>
      ⟨fun _ => rfl, nofun, fun _ => rfl⟩
  | next number => exact .withObject _ _ fun _ => .putBack _ _ _ _
  | evaluateRow number row => exact .withObject _ _ fun _ => .putBack _ _ _ _

/-! ## All steps -/

/-- Steps leave a sound session, one after another. -/
theorem SoundBeyond.performAll (steps : List Step) (h : session.SoundBeyond known) :
    (session.performAll steps).2.SoundBeyond known := by
  induction steps generalizing session known with
  | nil => exact h
  | cons step rest ih =>
    obtain ⟨more, hmore, hsound⟩ := h
    obtain ⟨most, hmost, hafter⟩ := ih (hsound.perform step)
    exact ⟨most, fun data hdata => hmost data (hmore data hdata), hafter⟩

/-- A session in which nothing has been asked for. -/
def start (hooks : List Hook) (maxCallDepth batchSize : Nat) : Session where
  scalar := { hooks, maxCallDepth }
  batch := .ofBatchSize batchSize

/-- A step with what it was answered, and the session that it found. -/
structure Event where
  before : Session
  step : Step
  reply : Except Refusal Reply

/-- The step as the session answers it. -/
def event (session : Session) (step : Step) : Event := ⟨session, step, (session.perform step).1⟩

/-- The events of steps one after another. -/
def history (session : Session) : List Step → List Event
  | [] => []
  | step :: rest => session.event step :: history (session.perform step).2 rest

/-- What one step carries from the history before it to the history with it, all steps do. -/
theorem history_induction {motive : List Event → Session → Prop} {session : Session}
    (hstart : motive [] session)
    (hstep : ∀ past session step, motive past session →
      motive (past ++ [event session step]) (session.perform step).2)
    (steps : List Step) :
    motive (session.history steps) (session.performAll steps).2 := by
  -- more general: some events have been there before
  suffices h : ∀ past (session : Session), motive past session →
      motive (past ++ session.history steps) (session.performAll steps).2 from
    h [] session hstart
  induction steps with
  | nil =>
    intro past session hpast
    rwa [history, List.append_nil]
  | cons step rest ih =>
    intro past session hpast
    have hrest := ih _ _ (hstep past session step hpast)
    rwa [List.append_assoc] at hrest

/-- The sessions that steps lead to, from interpreters that have not evaluated anything. -/
def Reachable (session : Session) : Prop :=
  ∃ (scalar : ScalarInterpreter) (batchSize : Nat) (steps : List Step),
    (performAll { scalar, batch := .ofBatchSize batchSize } steps).2 = session

theorem Reachable.sound (h : session.Reachable) : ∃ known, session.Sound known := by
  obtain ⟨scalar, batchSize, steps, rfl⟩ := h
  have hstart : Session.Sound { scalar, batch := .ofBatchSize batchSize } fun _ => False := by
    constructor
    · rintro first second ⟨⟩
    · rintro data ⟨⟩
    · intro data hdata
      cases Array.not_mem_empty data hdata
    · exact .empty
    · exact Nat.le_max_right batchSize 1
  obtain ⟨known, -, hsound⟩ := SoundBeyond.performAll steps hstart.beyond
  exact ⟨known, hsound⟩

/-- Whatever the steps were, a refreshed cache has the columns of a dataset as they are now. It loads
them, and counts that, unless the dataset is fixed and the cache names it; afterwards it names the
dataset if that is fixed. Hence a batch gives what a new interpreter with chunks of the same size
gives. -/
theorem refresh_current (hsession : session.Reachable) (hdata : data ∈ session.datasets) :
    (∀ name, (session.batch.cache.refresh data).2.get? name = data.numeric? name) ∧
      ((session.batch.cache.refresh data).1 = true ↔
        data.modifiable = true ∨ session.batch.cache.identity ≠ some data.identity) ∧
      (session.batch.cache.refresh data).2.reloads =
        session.batch.cache.reloads + (if (session.batch.cache.refresh data).1 then 1 else 0) ∧
      ((session.batch.cache.refresh data).2.identity = some data.identity ↔
        data.modifiable = false) ∧
      ∀ formula rows, (session.batch.evaluate formula data rows).1 =
        ((BatchInterpreter.ofBatchSize session.batch.batchSize).evaluate formula data rows).1 := by
  obtain ⟨known, hsound⟩ := hsession.sound
  have hmember := hsound.member data hdata
  have hcolumns := ColumnCache.get?_refresh hsound.identified hsound.reached hmember
  refine ⟨hcolumns, ColumnCache.refresh_reloaded, ColumnCache.reloads_refresh, ?_, ?_⟩
  · rw [ColumnCache.identity_refresh]
    cases data.modifiable with
    | false => simp
    | true => simp
  · intro formula rows
    refine BatchInterpreter.evaluate_eq_of_get? (Nat.max_eq_left hsound.batchSize).symm ?_
    intro name
    exact (hcolumns name).trans
      (ColumnCache.get?_refresh hsound.identified .empty hmember name).symm

/-- A table, a modifiable copy that a batch has evaluated, and other values in the copy. The cache has
gone on to a new interpreter. -/
def whatIf : Session :=
  (performAll { batch := .ofBatchSize 2 }
    [.build [("x", .numeric #[1.0, 2.0])], .toModifiable 0,
      .batch (.ofBody (.leaf (.numericVariable "x" 1.0))) 1 (.range 0 2),
      .clone 1, .replace 1 "x" #[4.0, 8.0], .handOver 3]).2

/-- The cache has the old columns, and neither the copy nor its clone gets them from it. -/
theorem refresh_current_whatIf :
    whatIf.Reachable ∧ whatIf.batch.cache.get? "x" = some #[1.0, 2.0] ∧
      ∃ replaced copy, replaced ∈ whatIf.datasets ∧ copy ∈ whatIf.datasets ∧
        replaced.identity = copy.identity ∧
        (whatIf.batch.cache.refresh replaced).2.get? "x" = some #[4.0, 8.0] ∧
        (whatIf.batch.cache.refresh copy).2.get? "x" = some #[1.0, 2.0] := by
  have hreachable : whatIf.Reachable := ⟨_, _, _, rfl⟩
  have hreplaced : (⟨1, true, 2, [("x", .numeric #[4.0, 8.0])]⟩ : Dataset) ∈ whatIf.datasets :=
    Array.mem_of_getElem? (i := 1) rfl
  have hcopy : (⟨1, true, 2, [("x", .numeric #[1.0, 2.0])]⟩ : Dataset) ∈ whatIf.datasets :=
    Array.mem_of_getElem? (i := 2) rfl
  exact ⟨hreachable, rfl, _, _, hreplaced, hcopy, rfl,
    (refresh_current hreachable hreplaced).1 "x", (refresh_current hreachable hcopy).1 "x"⟩

end Session

end FormulaEngine
