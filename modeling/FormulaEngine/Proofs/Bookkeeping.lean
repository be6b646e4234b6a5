import FormulaEngine.Proofs.Batch.Refusal
import FormulaEngine.Proofs.Isolation
import FormulaEngine.Proofs.Session

/-!
# Counters, the cache and failures

What the interpreters of a session keep account of, told from its history. Each has a counter of the
evaluations that it started, and the batch interpreter has its cache. An evaluation that is refused
is not counted, and one that is stopped is. Neither shows in what is evaluated later.

- `countSince`: the events that count since the last one that sets a counter back;
- `Session.Event.countedByScalar`, `Session.Event.countedByBatch`: the events that count;
- `Session.Tallies`: what a step does to a counter, and from this what a history says of it;
- `Session.Alike`: sessions that differ in their counters and caches alone;
- `Session.Alike.perform`, `Session.Alike.performAll`: they answer alike, one step or many;
- `Session.KeepsAccounts`, `Session.start_keepsAccounts`: counters, cache and failures after any
  steps.
-/

namespace FormulaEngine

/-! ## Evaluations that count -/

/-- The evaluation was not refused: it has ended with values, or it was stopped. -/
def ran {α : Type} : Except Failure α → Bool
  | .ok _ | .error (.fault _) => true
  | .error (.error _) => false

theorem ran_mapError {α : Type} (result : Except Fault α) :
    ran (result.mapError Failure.fault) = true := by
  cases result <;> rfl

namespace ScalarInterpreter

variable (scalar : ScalarInterpreter) (formula : Formula) (data : Dataset) (rows : Rows)

/-- The evaluation of a formula is counted unless the formula is refused. -/
theorem evaluated_evaluate :
    (scalar.evaluate formula data rows).2.evaluated =
      scalar.evaluated + if ran (scalar.evaluate formula data rows).1 then 1 else 0 := by
  unfold evaluate open?
  cases formula.compile scalar.hooks with
  | error cause => rfl
  | ok program =>
    simp only [Except.map, ran_mapError]
    rfl

/-- So it is when its values are drawn from outside, however many. -/
theorem evaluated_draw (count : Option Nat) :
    (Interpreter.draw scalar formula data rows count).2.evaluated =
      scalar.evaluated +
        if ran (Interpreter.draw scalar formula data rows count).1 then 1 else 0 := by
  rw [Interpreter.draw, Interpreter.values_scalar]
  unfold rowValues open?
  cases formula.compile scalar.hooks with
  | error cause => rfl
  | ok program =>
    simp only [Except.map, Except.bind, ran_mapError]
    rfl

theorem reset_evaluate : (scalar.evaluate formula data rows).2.reset = scalar.reset := by
  rw [evaluate_counted]
  rfl

theorem reset_draw (count : Option Nat) :
    (Interpreter.draw scalar formula data rows count).2.reset = scalar.reset := by
  rw [Interpreter.draw, Interpreter.values_scalar]
  unfold rowValues open?
  cases formula.compile scalar.hooks <;> rfl

theorem reset_eq_iff {scalar other : ScalarInterpreter} :
    scalar.reset = other.reset ↔
      scalar.hooks = other.hooks ∧ scalar.maxCallDepth = other.maxCallDepth := by
  simp [reset]

/-- Interpreters that differ in their counters alone give the same values. -/
theorem evaluate_of_reset {scalar other : ScalarInterpreter} (h : scalar.reset = other.reset) :
    (scalar.evaluate formula data rows).1 = (other.evaluate formula data rows).1 :=
  calc (scalar.evaluate formula data rows).1
    _ = (scalar.reset.evaluate formula data rows).1 :=
      (scalar.evaluate_congr 0 formula data rows).symm
    _ = (other.reset.evaluate formula data rows).1 := by rw [h]
    _ = (other.evaluate formula data rows).1 := other.evaluate_congr 0 formula data rows

theorem draw_of_reset {scalar other : ScalarInterpreter} (h : scalar.reset = other.reset)
    (count : Option Nat) :
    (Interpreter.draw scalar formula data rows count).1 =
      (Interpreter.draw other formula data rows count).1 := by
  obtain ⟨hhooks, hdepth⟩ := reset_eq_iff.mp h
  rw [Interpreter.draw, Interpreter.draw, Interpreter.values_scalar, Interpreter.values_scalar]
  unfold rowValues open?
  rw [hhooks]
  cases formula.compile other.hooks with
  | error cause => rfl
  | ok program =>
    simp only [Except.map, start, hdepth]

end ScalarInterpreter

namespace BatchInterpreter

/-- The evaluation came beyond its layout. If storage can hold a chunk, it is not the layout that
was stopped. -/
def counts {α : Type} (batch : BatchInterpreter) : Except Failure α → Bool
  | .ok _ => true
  | .error (.fault _) => batch.batchSize ≤ storageLimit
  | .error (.error _) => false

variable (batch : BatchInterpreter) (formula : Formula) (data : Dataset) (rows : Rows)

theorem counts_map {α β : Type} (result : Except Failure α) (f : α → β) :
    batch.counts (result.map f) = batch.counts result := by
  cases result with
  | ok value => rfl
  | error failure => cases failure <;> rfl

/-- Storage can hold the lanes of a buffer only if it can hold a chunk. -/
theorem batchSize_le_of_lanes_le {batch : BatchInterpreter} {rows : Rows}
    (h : batch.lanes rows ≤ storageLimit) : batch.batchSize ≤ storageLimit := by
  unfold lanes at h
  split at h
  · assumption
  · exact h

/-- The evaluation of a formula is counted once the formula is laid out. -/
theorem evaluated_evaluate :
    (batch.evaluate formula data rows).2.evaluated =
      batch.evaluated + if batch.counts (batch.evaluate formula data rows).1 then 1 else 0 := by
  unfold evaluate
  cases formula.body? with
  | none => rfl
  | some body =>
    cases hlayout : body.layout (batch.cache.refresh data).2 (batch.lanes rows) with
    | error failure =>
      simp only [hlayout]
      cases failure with
      | error cause => rfl
      | fault cause =>
        -- the layout is stopped only by lanes that storage cannot hold
        have hlanes := (body.layout_fault _ _ cause hlayout).2
        have hsize : ¬ batch.batchSize ≤ storageLimit :=
          fun hsize => absurd (lanes_le hsize) (Nat.not_le.mpr hlanes)
        simp [counts, hsize]
    | ok code =>
      obtain ⟨-, -, hlanes, -⟩ := Node.layout_eq_ok.mp hlayout
      have hsize := batchSize_le_of_lanes_le hlanes
      simp only [hlayout]
      cases evaluateChunks rows batch.batchSize code with
      | error cause => simp [counts, hsize, Except.map, Except.mapError]
      | ok values => rfl

end BatchInterpreter

/-! ## Events that count -/

/-- The number of events that count since the last one that sets the counter back. -/
def countSince {α : Type} (renews counts : α → Bool) (events : List α) : Nat :=
  (events.reverse.takeWhile fun event => !renews event).countP counts

/-- The last event sets the counter back, or it counts or not. -/
theorem countSince_append {α : Type} (renews counts : α → Bool) (past : List α) (event : α) :
    countSince renews counts (past ++ [event]) =
      if renews event then 0
      else countSince renews counts past + if counts event then 1 else 0 := by
  unfold countSince
  rw [List.reverse_append, List.reverse_singleton, List.singleton_append, List.takeWhile_cons]
  by_cases hrenews : renews event
  · simp [hrenews]
  · simp [hrenews, List.countP_cons]

namespace Session

namespace Step

/-- Steps that evaluate with the scalar interpreter, or start to. -/
def asksScalar : Step → Bool
  | scalar _ _ _ | through .scalar _ _ _ _ | evaluate _ _ _ | evaluateProgram _ _ _ => true
  | _ => false

/-- Steps that evaluate with the batch interpreter. -/
def asksBatch : Step → Bool
  | batch _ _ _ | through .batch _ _ _ _ => true
  | _ => false

end Step

/-- The step was not refused: it was answered, or it was stopped. -/
def started : Except Refusal Reply → Bool
  | .ok _ | .error (.failure (.fault _)) => true
  | .error _ => false

theorem started_valuesReply (values : Except Failure (List Float)) :
    started (valuesReply values) = ran values := by
  cases values with
  | ok values => rfl
  | error failure => cases failure <;> rfl

namespace Event

/-- The counter of the scalar interpreter is set back. -/
def renewsScalar (event : Event) : Bool :=
  match event.step with
  | .resetCounters | .resetCounter .scalar => true
  | _ => false

/-- The scalar interpreter has started an evaluation: it was not refused. -/
def countedByScalar (event : Event) : Bool := event.step.asksScalar && started event.reply

/-- The counter of the batch interpreter is set back, or a new one takes over its cache. -/
def renewsBatch (event : Event) : Bool :=
  match event.step with
  | .resetCounters | .resetCounter .batch | .clearCache | .handOver _ => true
  | .refreshCache _ => event.reply.isOk
  | _ => false

/-- The batch interpreter has answered with values. -/
def hasBatchValues (event : Event) : Bool := event.step.asksBatch && event.reply.isOk

/-- The batch interpreter was stopped, although storage can hold a chunk. -/
def stoppedInBatch (event : Event) : Bool :=
  event.step.asksBatch && started event.reply && !event.reply.isOk &&
    decide (event.before.batch.batchSize ≤ storageLimit)

/-- The batch interpreter has answered with values, or it was stopped once it had laid the formula
out. -/
def countedByBatch (event : Event) : Bool := event.hasBatchValues || event.stoppedInBatch

end Event

/-! ## Counters over steps -/

/-- A step that ends with a result sets a counter back, or counts or not. -/
def Tallies (counter : Session → Nat) (renews counts : Event → Bool) (session : Session)
    (step : Step) (result : Result) : Prop :=
  counter result.2 =
    if renews ⟨session, step, result.1⟩ then 0
    else counter session + if counts ⟨session, step, result.1⟩ then 1 else 0

namespace Tallies

variable {counter : Session → Nat} {renews counts : Event → Bool} {session : Session} {step : Step}

/-- A step that leaves the counter alone must not count. -/
theorem of_eq {result : Result} (hcounter : counter result.2 = counter session)
    (hrenews : renews ⟨session, step, result.1⟩ = false)
    (hcounts : counts ⟨session, step, result.1⟩ = false) :
    Tallies counter renews counts session step result := by
  rw [Tallies, hcounter, hrenews, hcounts]
  rfl

/-- A step with an object that may not exist. -/
theorem withObject {α : Type} (object : Option α) (next : α → Result)
    (hrenews : renews ⟨session, step, .error .noSuchObject⟩ = false)
    (hcounts : counts ⟨session, step, .error .noSuchObject⟩ = false)
    (hnext : ∀ found, Tallies counter renews counts session step (next found)) :
    Tallies counter renews counts session step (session.withObject object next) := by
  cases object with
  | none => exact of_eq rfl hrenews hcounts
  | some found => exact hnext found

/-- If it is so at every step, the counter is told by the history. -/
theorem performAll
    (hstep : ∀ session step, Tallies counter renews counts session step (session.perform step))
    (hstart : counter session = 0) (steps : List Step) :
    counter (session.performAll steps).2 = countSince renews counts (session.history steps) := by
  refine history_induction (motive := fun past session => counter session =
    countSince renews counts past) hstart ?_ steps
  intro past session step hpast
  rw [countSince_append, ← hpast]
  exact hstep session step

end Tallies

/-- What does not concern the scalar interpreter is not counted for it. -/
theorem Event.not_counted_of_changesScalar (event : Event)
    (h : event.step.changesScalar = false) :
    event.renewsScalar = false ∧ event.countedByScalar = false := by
  obtain ⟨before, step, reply⟩ := event
  cases step with
  | scalar | evaluate | evaluateProgram | resetCounters => cases h
  | through kind =>
    cases kind with
    | scalar => cases h
    | batch => exact ⟨rfl, rfl⟩
  | resetCounter kind =>
    cases kind with
    | scalar => cases h
    | batch => exact ⟨rfl, rfl⟩
  | _ => exact ⟨rfl, rfl⟩

/-- Evaluations are counted for the scalar interpreter unless they are refused. -/
theorem tallies_scalar (session : Session) (step : Step) :
    Tallies (·.scalar.evaluated) Event.renewsScalar Event.countedByScalar session step
      (session.perform step) := by
  by_cases hchanges : step.changesScalar = false
  · obtain ⟨hrenews, hcounts⟩ :=
      (session.event step).not_counted_of_changesScalar hchanges
    refine .of_eq ?_ hrenews hcounts
    rw [(perform_frame session step).scalar hchanges]
  cases step with
  | scalar formula number rows =>
    refine .withObject _ _ rfl rfl fun data => ?_
    unfold Tallies Event.countedByScalar
    rw [started_valuesReply]
    exact session.scalar.evaluated_evaluate formula data rows
  | through kind formula number rows count =>
    cases kind with
    | batch => exact absurd rfl hchanges
    | scalar =>
      refine .withObject _ _ rfl rfl fun data => ?_
      unfold Tallies Event.countedByScalar
      rw [started_valuesReply]
      exact session.scalar.evaluated_draw formula data rows count
  | resetCounters => rfl
  | resetCounter kind =>
    cases kind with
    | scalar => rfl
    | batch => exact absurd rfl hchanges
  | evaluate formula number rows =>
    refine .withObject _ _ rfl rfl fun data => ?_
    unfold ScalarInterpreter.open?
    cases formula.compile session.scalar.hooks with
    | error cause => exact .of_eq rfl rfl rfl
    | ok program => rfl
  | evaluateProgram program number rows =>
    exact .withObject _ _ rfl rfl fun program => .withObject _ _ rfl rfl fun data => rfl
  | _ => exact absurd rfl hchanges

/-- What does not concern the batch interpreter is not counted for it. -/
theorem Event.not_counted_of_changesBatch (event : Event)
    (h : event.step.changesBatch = false) :
    event.renewsBatch = false ∧ event.countedByBatch = false := by
  obtain ⟨before, step, reply⟩ := event
  cases step with
  | batch | resetCounters | refreshCache | clearCache | handOver => cases h
  | through kind =>
    cases kind with
    | scalar => exact ⟨rfl, rfl⟩
    | batch => cases h
  | resetCounter kind =>
    cases kind with
    | scalar => exact ⟨rfl, rfl⟩
    | batch => cases h
  | _ => exact ⟨rfl, rfl⟩

/-- Values that are drawn from a batch count as the batch does. -/
theorem countedByBatch_valuesReply (session : Session) (step : Step)
    (hasks : step.asksBatch = true) (values : Except Failure (List Float)) :
    Event.countedByBatch ⟨session, step, valuesReply values⟩ = session.batch.counts values := by
  unfold Event.countedByBatch Event.hasBatchValues Event.stoppedInBatch
  rw [hasks, started_valuesReply]
  cases values with
  | ok values => rfl
  | error failure => cases failure <;> rfl

/-- Evaluations are counted for the batch interpreter once they are laid out. -/
theorem tallies_batch (session : Session) (step : Step) :
    Tallies (·.batch.evaluated) Event.renewsBatch Event.countedByBatch session step
      (session.perform step) := by
  by_cases hchanges : step.changesBatch = false
  · obtain ⟨hrenews, hcounts⟩ :=
      (session.event step).not_counted_of_changesBatch hchanges
    refine .of_eq ?_ hrenews hcounts
    rw [(perform_frame session step).batch hchanges]
  cases step with
  | batch formula number rows =>
    refine .withObject _ _ rfl rfl fun data => ?_
    unfold Tallies
    rw [countedByBatch_valuesReply session _ rfl]
    exact session.batch.evaluated_evaluate formula data rows
  | through kind formula number rows count =>
    cases kind with
    | scalar => exact absurd rfl hchanges
    | batch =>
      refine .withObject _ _ rfl rfl fun data => ?_
      unfold Tallies
      rw [countedByBatch_valuesReply session _ rfl, Interpreter.draw_batch,
        BatchInterpreter.counts_map]
      exact session.batch.evaluated_evaluate formula data rows
  | resetCounters => rfl
  | resetCounter kind =>
    cases kind with
    | scalar => exact absurd rfl hchanges
    | batch => rfl
  | refreshCache number => exact .withObject _ _ rfl rfl fun data => rfl
  | clearCache => rfl
  | handOver batchSize => rfl
  | _ => exact absurd rfl hchanges

/-! ## Sessions that differ in their accounts -/

/-- The sessions are the same but for the counters and for what the caches hold. -/
structure Alike (first second : Session) : Prop where
  scalar : first.scalar.reset = second.scalar.reset
  batchSize : first.batch.batchSize = second.batch.batchSize
  datasets : first.datasets = second.datasets
  programs : first.programs = second.programs
  evaluations : first.evaluations = second.evaluations
  nextIdentity : first.nextIdentity = second.nextIdentity

/-- Steps whose answers show a counter or what the cache holds. -/
def Step.showsAccounts : Step → Bool
  | counters | refreshCache _ | clearCache | cachedColumn _ => true
  | _ => false

/-- The answers are the same unless they show a counter or a cache. -/
structure AnswersAlike (step : Step) (first second : Result) : Prop where
  reply : step.showsAccounts = false → first.1 = second.1
  after : Alike first.2 second.2

variable {session first second : Session}

theorem Alike.refl (session : Session) : Alike session session := ⟨rfl, rfl, rfl, rfl, rfl, rfl⟩

namespace AnswersAlike

variable {step : Step}

theorem refuse (h : Alike first second) (refusal : Refusal) :
    AnswersAlike step (first.refuse refusal) (second.refuse refusal) :=
  ⟨fun _ => rfl, h⟩

/-- Answers that show a counter or a cache may be any. -/
theorem shown {answer answer' : Result} (hshows : step.showsAccounts = true)
    (hafter : Alike answer.2 answer'.2) : AnswersAlike step answer answer' := by
  refine ⟨fun hnot => ?_, hafter⟩
  rw [hshows] at hnot
  cases hnot

theorem withObject (h : Alike first second) {α : Type} {object object' : Option α}
    (hobject : object = object') {next next' : α → Result}
    (hnext : ∀ found, object' = some found → AnswersAlike step (next found) (next' found)) :
    AnswersAlike step (first.withObject object next) (second.withObject object' next') := by
  subst hobject
  cases object with
  | none => exact .refuse h _
  | some found => exact hnext found rfl

theorem addDataset (h : Alike first second) (data : Dataset) :
    AnswersAlike step (first.addDataset data) (second.addDataset data) := by
  constructor
  · intro _
    simp only [Session.addDataset, h.datasets]
  · exact { h with datasets := congrArg (·.push data) h.datasets }

theorem addFresh (h : Alike first second) (data : Dataset) :
    AnswersAlike step (first.addFresh data) (second.addFresh data) := by
  have hnext : Alike { first with nextIdentity := first.nextIdentity + 1 }
      { second with nextIdentity := second.nextIdentity + 1 } :=
    { h with nextIdentity := congrArg (· + 1) h.nextIdentity }
  exact .addDataset hnext data

theorem addEvaluation (h : Alike first second)
    {started started' : Evaluation × ScalarInterpreter} (hevaluation : started.1 = started'.1)
    (hscalar : started.2.reset = started'.2.reset) :
    AnswersAlike step (first.addEvaluation started) (second.addEvaluation started') := by
  constructor
  · intro _
    simp only [Session.addEvaluation, h.evaluations]
  · refine { h with scalar := hscalar, evaluations := ?_ }
    simp only [Session.addEvaluation, h.evaluations, hevaluation]

theorem putBack (h : Alike first second) (number : Nat) (value : Option (Except Fault Float))
    (evaluation : Evaluation) :
    AnswersAlike step (first.putBack number value evaluation)
      (second.putBack number value evaluation) := by
  have hafter : Alike
      { first with evaluations := first.evaluations.setIfInBounds number evaluation }
      { second with evaluations := second.evaluations.setIfInBounds number evaluation } :=
    { h with evaluations := congrArg (·.setIfInBounds number evaluation) h.evaluations }
  unfold Session.putBack
  cases value with
  | none => exact ⟨fun _ => rfl, hafter⟩
  | some value =>
    cases value with
    | error cause => exact .refuse hafter _
    | ok value => exact ⟨fun _ => rfl, hafter⟩

end AnswersAlike

/-- A batch gives the same values in sessions that are alike, whatever the caches hold: both have
the columns of the dataset once they are refreshed. -/
theorem Alike.evaluate_batch (h : Alike first second) {known known' : Dataset → Prop}
    (hfirst : first.Sound known) (hsecond : second.Sound known') {number : Nat} {data : Dataset}
    (hdata : second.datasets[number]? = some data) (formula : Formula) (rows : Rows) :
    (first.batch.evaluate formula data rows).1 = (second.batch.evaluate formula data rows).1 := by
  refine BatchInterpreter.evaluate_eq_of_get? h.batchSize fun name => ?_
  calc (first.batch.cache.refresh data).2.get? name
    _ = data.numeric? name :=
      ColumnCache.get?_refresh hfirst.identified hfirst.reached
        (hfirst.known_of_getElem? (h.datasets ▸ hdata)) name
    _ = (second.batch.cache.refresh data).2.get? name :=
      (ColumnCache.get?_refresh hsecond.identified hsecond.reached
        (hsecond.known_of_getElem? hdata) name).symm

/-- Sessions that are alike answer a step alike, and stay alike. -/
theorem Alike.perform (h : Alike first second) {known known' : Dataset → Prop}
    (hfirst : first.Sound known) (hsecond : second.Sound known') (step : Step) :
    AnswersAlike step (first.perform step) (second.perform step) := by
  have hdataset : ∀ number : Nat, first.datasets[number]? = second.datasets[number]? :=
    fun number => by rw [h.datasets]
  have hevaluation : ∀ number : Nat, first.evaluations[number]? = second.evaluations[number]? :=
    fun number => by rw [h.evaluations]
  obtain ⟨hhooks, hdepth⟩ := ScalarInterpreter.reset_eq_iff.mp h.scalar
  cases step with
  | build columns =>
    simp only [Session.perform, h.nextIdentity]
    cases Dataset.build second.nextIdentity columns with
    | error cause => exact .refuse h _
    | ok data => exact .addFresh h data
  | toModifiable number =>
    refine .withObject h (hdataset number) fun data _ => ?_
    rw [h.nextIdentity]
    cases data.modifiable with
    | true => exact .refuse h _
    | false => exact .addFresh h _
  | clone number => exact .withObject h (hdataset number) fun data _ => .addDataset h data
  | replace number name values =>
    refine .withObject h (hdataset number) fun data _ => ?_
    cases data.modifiable with
    | false => exact .refuse h _
    | true =>
      rw [if_pos rfl, if_pos rfl]
      cases data.replace name values with
      | error cause => exact .refuse h _
      | ok after =>
        exact ⟨fun _ => rfl,
          { h with datasets := congrArg (·.setIfInBounds number after) h.datasets }⟩
  | describe number => exact .withObject h (hdataset number) fun _ _ => ⟨fun _ => rfl, h⟩
  | column number name => exact .withObject h (hdataset number) fun _ _ => ⟨fun _ => rfl, h⟩
  | sameIdentity a b =>
    exact .withObject h (hdataset a) fun _ _ => .withObject h (hdataset b) fun _ _ =>
      ⟨fun _ => rfl, h⟩
  | scalar formula number rows =>
    refine .withObject h (hdataset number) fun data _ => ⟨fun _ => ?_, { h with scalar := ?_ }⟩
    · exact congrArg valuesReply (ScalarInterpreter.evaluate_of_reset formula data rows h.scalar)
    · simp only [ScalarInterpreter.reset_evaluate, h.scalar]
  | batch formula number rows =>
    refine .withObject h (hdataset number) fun data hdata =>
      ⟨fun _ => ?_, { h with batchSize := ?_ }⟩
    · exact congrArg valuesReply (h.evaluate_batch hfirst hsecond hdata formula rows)
    · simp only [BatchInterpreter.batchSize_evaluate, h.batchSize]
  | through kind formula number rows count =>
    cases kind with
    | scalar =>
      refine .withObject h (hdataset number) fun data _ => ⟨fun _ => ?_, { h with scalar := ?_ }⟩
      · exact congrArg valuesReply
          (ScalarInterpreter.draw_of_reset formula data rows h.scalar count)
      · simp only [ScalarInterpreter.reset_draw, h.scalar]
    | batch =>
      refine .withObject h (hdataset number) fun data hdata =>
        ⟨fun _ => ?_, { h with batchSize := ?_ }⟩
      · simp only [Interpreter.draw_batch, h.evaluate_batch hfirst hsecond hdata formula rows]
      · simp only [Interpreter.draw_batch, BatchInterpreter.batchSize_evaluate, h.batchSize]
  | counters => exact .shown rfl h
  | resetCounters => exact ⟨fun _ => rfl, { h with }⟩
  | resetCounter kind =>
    cases kind with
    | scalar => exact ⟨fun _ => rfl, { h with }⟩
    | batch => exact ⟨fun _ => rfl, { h with }⟩
  | refreshCache number =>
    exact .withObject h (hdataset number) fun data _ => .shown rfl { h with }
  | clearCache => exact .shown rfl { h with }
  | handOver batchSize => exact ⟨fun _ => rfl, { h with batchSize := rfl }⟩
  | cachedColumn name => exact .shown rfl h
  | compile formula =>
    simp only [Session.perform, hhooks]
    cases formula.compile second.scalar.hooks with
    | error cause => exact .refuse h _
    | ok program =>
      refine ⟨fun _ => ?_, { h with programs := congrArg (·.push program) h.programs }⟩
      simp only [h.programs]
  | evaluate formula number rows =>
    refine .withObject h (hdataset number) fun data _ => ?_
    simp only [ScalarInterpreter.open?, hhooks]
    cases formula.compile second.scalar.hooks with
    | error cause => exact .refuse h _
    | ok program =>
      refine .addEvaluation h ?_ h.scalar
      simp only [ScalarInterpreter.start, hdepth]
  | evaluateProgram program number rows =>
    refine .withObject h (by rw [h.programs]) fun program _ =>
      .withObject h (hdataset number) fun data _ => .addEvaluation h ?_ h.scalar
    simp only [ScalarInterpreter.start, hdepth]
  | next number => exact .withObject h (hevaluation number) fun _ _ => .putBack h _ _ _
  | evaluateRow number row => exact .withObject h (hevaluation number) fun _ _ => .putBack h _ _ _

/-- Sessions that are alike answer all steps alike, but for those that show a counter or a cache. -/
theorem Alike.performAll (h : Alike first second) {known known' : Dataset → Prop}
    (hfirst : first.Sound known) (hsecond : second.Sound known') (steps : List Step)
    {position : Nat} {step : Step} (hstep : steps[position]? = some step)
    (hshows : step.showsAccounts = false) :
    (first.performAll steps).1[position]? = (second.performAll steps).1[position]? := by
  induction steps generalizing first second known known' position with
  | nil => cases hstep
  | cons head rest ih =>
    have hhead := h.perform hfirst hsecond head
    cases position with
    | zero =>
      cases hstep
      exact congrArg some (hhead.reply hshows)
    | succ position =>
      obtain ⟨more, -, hmore⟩ := hfirst.perform head
      obtain ⟨more', -, hmore'⟩ := hsecond.perform head
      exact ih hhead.after hmore hmore' hstep

/-! ## Calls -/

/-- Calls of the interpreters: evaluations and compilations. -/
def Step.isCall : Step → Bool
  | scalar _ _ _ | batch _ _ _ | through _ _ _ _ _ | compile _ | evaluate _ _ _
  | evaluateProgram _ _ _ => true
  | _ => false

/-- A call for an object that may not exist. -/
theorem alike_withObject {α : Type} {object : Option α} {next : α → Result} {refusal : Refusal}
    (hfailed : (session.withObject object next).1 = .error refusal)
    (hnext : ∀ found, (next found).1 = .error refusal → Alike (next found).2 session) :
    Alike (session.withObject object next).2 session := by
  cases object with
  | none => exact Alike.refl session
  | some found => exact hnext found hfailed

/-- What a failed call leaves is like what it found. -/
theorem alike_of_failed {step : Step} (hcall : step.isCall = true) {refusal : Refusal}
    (hfailed : (session.perform step).1 = .error refusal) :
    Alike (session.perform step).2 session := by
  have hrefl := Alike.refl session
  cases step with
  | scalar formula number rows =>
    refine alike_withObject hfailed fun data _ => { hrefl with scalar := ?_ }
    exact session.scalar.reset_evaluate formula data rows
  | batch formula number rows =>
    refine alike_withObject hfailed fun data _ => { hrefl with batchSize := ?_ }
    exact session.batch.batchSize_evaluate formula data rows
  | through kind formula number rows count =>
    cases kind with
    | scalar =>
      refine alike_withObject hfailed fun data _ => { hrefl with scalar := ?_ }
      exact session.scalar.reset_draw formula data rows count
    | batch =>
      refine alike_withObject hfailed fun data _ => { hrefl with batchSize := ?_ }
      rw [Interpreter.draw_batch]
      exact session.batch.batchSize_evaluate formula data rows
  | compile formula =>
    cases hprogram : formula.compile session.scalar.hooks with
    | error cause =>
      simp only [perform, hprogram]
      exact hrefl
    | ok program => simp [perform, hprogram] at hfailed
  | evaluate formula number rows =>
    refine alike_withObject hfailed fun data hrefused => ?_
    cases hopen : session.scalar.open? formula data rows with
    | error cause => exact hrefl
    | ok started => simp [hopen, addEvaluation] at hrefused
  | evaluateProgram program number rows =>
    refine alike_withObject hfailed fun program hrefused =>
      alike_withObject hrefused fun data hrefused => ?_
    simp [addEvaluation] at hrefused
  | _ => cases hcall

/-- Calls of the batch interpreter. -/
inductive BatchCall (formula : Formula) (number : Nat) (rows : Rows) : Step → Prop where
  | direct : BatchCall formula number rows (.batch formula number rows)
  | through (count : Option Nat) :
      BatchCall formula number rows (.through .batch formula number rows count)

variable {formula : Formula} {number : Nat} {rows : Rows} {call : Step}

/-- However it is called, a batch answers with the values that it has evaluated or with the first of
them, and the session keeps what the evaluation leaves. -/
theorem BatchCall.perform_eq (hcall : BatchCall formula number rows call) (session : Session) :
    ∃ take : List Float → List Float, session.perform call =
      session.withObject session.datasets[number]? fun data =>
        (valuesReply ((session.batch.evaluate formula data rows).1.map take),
          { session with batch := (session.batch.evaluate formula data rows).2 }) := by
  cases hcall with
  | direct =>
    refine ⟨id, ?_⟩
    have hmap : ∀ values : Except Failure (List Float), values.map id = values := by
      intro values
      cases values <;> rfl
    simp only [hmap]
    rfl
  | through count =>
    refine ⟨fun values => count.elim values values.take, ?_⟩
    simp only [perform, Interpreter.draw_batch]

/-- Without a body nothing is touched. -/
theorem BatchCall.bodyless (hcall : BatchCall formula number rows call)
    (hbody : formula.body? = none) (session : Session) :
    (session.perform call).2.batch = session.batch := by
  obtain ⟨take, hperform⟩ := hcall.perform_eq session
  rw [hperform]
  cases session.datasets[number]? with
  | none => rfl
  | some data =>
    simp only [withObject, BatchInterpreter.evaluate, hbody]

/-- With a body the cache is refreshed, whatever the call comes to. -/
theorem BatchCall.cache (hcall : BatchCall formula number rows call)
    (hbody : formula.body?.isSome = true) (session : Session) :
    (session.perform call).2.batch.cache =
      (session.datasets[number]?).elim session.batch.cache
        fun data => (session.batch.cache.refresh data).2 := by
  obtain ⟨take, hperform⟩ := hcall.perform_eq session
  rw [hperform]
  cases session.datasets[number]? with
  | none => rfl
  | some data =>
    simp only [withObject, BatchInterpreter.cache_evaluate, hbody, if_true, Option.elim_some]

/-- Only want of storage stops a batch. -/
theorem BatchCall.stopped (hcall : BatchCall formula number rows call) {known : Dataset → Prop}
    (hsession : session.Sound known) {cause : Fault}
    (hstopped : (session.perform call).1 = .error (.failure (.fault cause))) :
    cause = .outOfStorage ∧ ¬ session.batch.HasRoom rows := by
  obtain ⟨take, hperform⟩ := hcall.perform_eq session
  rw [hperform] at hstopped
  cases hdata : session.datasets[number]? with
  | none => simp [hdata, withObject, refuse] at hstopped
  | some data =>
    simp only [hdata, withObject] at hstopped
    have hresult : (session.batch.evaluate formula data rows).1 = .error (.fault cause) := by
      cases hvalues : (session.batch.evaluate formula data rows).1 with
      | ok values => simp [hvalues, Except.map, valuesReply] at hstopped
      | error failure =>
        simp only [hvalues, Except.map, valuesReply] at hstopped
        cases hstopped
        rfl
    exact BatchInterpreter.evaluate_fault hsession.batchSize hresult

/-! ## All steps -/

/-- The accounts of a session after the events of its history, and what further calls would do to
them. -/
structure KeepsAccounts (session : Session) (history : List Event) : Prop where
  /-- Evaluations count for the scalar interpreter unless they are refused, however many rows are
  drawn from them. -/
  scalar : Interpreter.evaluated session.scalar =
    countSince Event.renewsScalar Event.countedByScalar history
  /-- Evaluations count for the batch interpreter if they give values, or if they are stopped once
  they are laid out. -/
  batch : Interpreter.evaluated session.batch =
    countSince Event.renewsBatch Event.countedByBatch history
  /-- What stops an evaluation is a chunk or a number of rows beyond what storage can hold. -/
  stopped : ∀ formula number rows call, BatchCall formula number rows call → ∀ cause,
    (session.perform call).1 = .error (.failure (.fault cause)) →
      cause = .outOfStorage ∧ ¬ session.batch.HasRoom rows
  /-- A formula without a body leaves the cache alone. -/
  bodyless : ∀ formula number rows call, BatchCall formula number rows call →
    formula.body? = none → (session.perform call).2.batch = session.batch
  /-- Any other formula, refused or not, leaves the cache as every other one does. -/
  cache : ∀ formula formula' number rows rows' call call',
    BatchCall formula number rows call → BatchCall formula' number rows' call' →
      formula.body?.isSome = true → formula'.body?.isSome = true →
        (session.perform call).2.batch.cache = (session.perform call').2.batch.cache
  /-- After a failed call everything is answered as without it, but for counters and caches. -/
  harmless : ∀ call : Step, call.isCall = true → ∀ refusal,
    (session.perform call).1 = .error refusal →
      ∀ (later : List Step) (position : Nat) (step : Step), later[position]? = some step →
        step.showsAccounts = false →
          ((session.perform call).2.performAll later).1[position]? =
            (session.performAll later).1[position]?

/-- Accounts are kept over any steps of a session. -/
theorem start_keepsAccounts (hooks : List Hook) (maxCallDepth batchSize : Nat)
    (steps : List Step) :
    KeepsAccounts ((start hooks maxCallDepth batchSize).performAll steps).2
      ((start hooks maxCallDepth batchSize).history steps) := by
  have hreachable : Reachable ((start hooks maxCallDepth batchSize).performAll steps).2 :=
    ⟨_, _, steps, rfl⟩
  obtain ⟨known, hsound⟩ := hreachable.sound
  constructor
  · exact Tallies.performAll tallies_scalar rfl steps
  · exact Tallies.performAll tallies_batch rfl steps
  · exact fun formula number rows call hcall cause hstopped => hcall.stopped hsound hstopped
  · exact fun formula number rows call hcall hbody => hcall.bodyless hbody _
  · intro formula formula' number rows rows' call call' hcall hcall' hbody hbody'
    rw [hcall.cache hbody, hcall'.cache hbody']
  · intro call hcall refusal hfailed later position step hstep hshows
    obtain ⟨known', -, hsound'⟩ := hsound.perform call
    exact (alike_of_failed hcall hfailed).performAll hsound' hsound later hstep hshows

/-- A batch over more rows than storage can hold values for. -/
def overfull : List Step :=
  [.build [("x", .numeric #[1.0, 2.0])],
    .batch (.ofBody (.leaf (.numericVariable "x" 1.0))) 0 (.range 1 18446744073709551615)]

/-- It is counted although it has not answered with values. -/
theorem evaluated_of_stopped :
    ((start [] 64 3).performAll overfull).2.batch.evaluated ≠
      countSince Event.renewsBatch Event.hasBatchValues ((start [] 64 3).history overfull) := by
  have hcounter : ((start [] 64 3).performAll overfull).2.batch.evaluated = 1 := rfl
  have hvalues :
      countSince Event.renewsBatch Event.hasBatchValues ((start [] 64 3).history overfull) = 0 :=
    rfl
  rw [hcounter, hvalues]
  decide

end Session

end FormulaEngine
