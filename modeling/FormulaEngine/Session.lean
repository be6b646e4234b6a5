import FormulaEngine.Interpreter

/-!
# Sessions

One scalar and one batch interpreter that live through a sequence of steps, with the datasets,
programs and evaluations that the steps have made. A step that fails makes nothing, and the session
goes on.

- `Session.Step`, `Session.Reply`: what can be asked and what is answered;
- `Session.perform`: runs one step; `Session.performAll`: runs steps one after another.
-/

namespace FormulaEngine

/-- The interpreters and all that has been made so far, in the order of making. -/
structure Session where
  scalar : ScalarInterpreter := {}
  batch : BatchInterpreter := {}
  datasets : Array Dataset := #[]
  programs : Array Program := #[]
  evaluations : Array Evaluation := #[]
  /-- The identity of the next dataset that is not a clone. -/
  nextIdentity : Nat := 0

namespace Session

/-- One of the two interpreters. -/
inductive Kind where
  | scalar
  | batch

/-- What can be asked of a session. Datasets, programs and evaluations go by their numbers.
`handOver` leaves the cache to a new batch interpreter with chunks of its own size. `through` asks
either interpreter for the first `count` values or for all of them. -/
inductive Step where
  | build (columns : List (String × Column))
  | toModifiable (dataset : Nat)
  | clone (dataset : Nat)
  | replace (dataset : Nat) (name : String) (values : Array Float)
  | describe (dataset : Nat)
  | column (dataset : Nat) (name : String)
  | sameIdentity (first second : Nat)
  | scalar (formula : Formula) (dataset : Nat) (rows : Rows)
  | batch (formula : Formula) (dataset : Nat) (rows : Rows)
  | through (kind : Kind) (formula : Formula) (dataset : Nat) (rows : Rows) (count : Option Nat)
  | counters
  | resetCounters
  | resetCounter (kind : Kind)
  | refreshCache (dataset : Nat)
  | clearCache
  | handOver (batchSize : Nat)
  | cachedColumn (name : String)
  | compile (formula : Formula)
  | evaluate (formula : Formula) (dataset : Nat) (rows : Rows)
  | evaluateProgram (program dataset : Nat) (rows : Rows)
  | next (evaluation : Nat)
  | evaluateRow (evaluation row : Nat)

/-- What can be seen of a column cache. -/
structure CacheView where
  /-- Whether the cache names a dataset. -/
  cached : Bool
  /-- The first dataset with the identity that the cache names. -/
  dataset : Option Nat
  reloads : Nat

/-- What a step answers. -/
inductive Reply where
  | done
  | dataset (number : Nat)
  | program (number : Nat)
  | evaluation (number : Nat)
  | description (data : Dataset)
  | column (found : Option Column)
  | same (holds : Bool)
  | values (values : List Float)
  | counters (scalar batch : Nat) (cache : CacheView)
  | refreshed (reloaded : Bool) (cache : CacheView)
  | cache (cache : CacheView)
  | cachedColumn (values : Option (Array Float))
  | value (value : Option Float) (left : Nat) (state : Machine.State)

/-- Why a step makes nothing. -/
inductive Refusal where
  /-- There is nothing of that number, or the dataset is of the wrong kind. -/
  | noSuchObject
  | failure (cause : Failure)

/-- A reply, or a refusal, and the session after it. -/
abbrev Result : Type := Except Refusal Reply × Session

/-- The session goes on as it was. -/
def refuse (session : Session) (refusal : Refusal) : Result := (.error refusal, session)

/-- Goes on with an object that exists, or refuses the step. -/
def withObject {α : Type} (session : Session) (object : Option α) (next : α → Result) : Result :=
  match object with
  | some object => next object
  | none => session.refuse .noSuchObject

/-- Adds a dataset. -/
def addDataset (session : Session) (data : Dataset) : Result :=
  (.ok (.dataset session.datasets.size), { session with datasets := session.datasets.push data })

/-- Adds a dataset under an identity that no other one has. -/
def addFresh (session : Session) (data : Dataset) : Result :=
  { session with nextIdentity := session.nextIdentity + 1 }.addDataset data

/-- Adds an evaluation. -/
def addEvaluation (session : Session) (started : Evaluation × ScalarInterpreter) : Result :=
  (.ok (.evaluation session.evaluations.size),
    { session with
      evaluations := session.evaluations.push started.1
      scalar := started.2 })

/-- What can be seen of the cache. -/
def cacheView (session : Session) : CacheView :=
  let cache := session.batch.cache
  { cached := cache.identity.isSome
    dataset := cache.identity.bind fun identity =>
      session.datasets.findIdx? (·.identity == identity)
    reloads := cache.reloads }

/-- The reply to values that were computed or not. -/
def valuesReply : Except Failure (List Float) → Except Refusal Reply
  | .ok values => .ok (.values values)
  | .error cause => .error (.failure cause)

/-- Puts an evaluation back in its place and answers with the value that was drawn from it. -/
def putBack (session : Session) (number : Nat) (value : Option (Except Fault Float))
    (evaluation : Evaluation) : Result :=
  let session :=
    { session with evaluations := session.evaluations.setIfInBounds number evaluation }
  match value with
  | some (.error cause) => session.refuse (.failure (.fault cause))
  | some (.ok value) =>
    (.ok (.value (some value) evaluation.rows.size evaluation.state), session)
  | none => (.ok (.value none evaluation.rows.size evaluation.state), session)

/-- Runs one step. -/
def perform (session : Session) : Step → Result
  | .build columns =>
    match Dataset.build session.nextIdentity columns with
    | .ok data => session.addFresh data
    | .error cause => session.refuse (.failure (.error cause))
  | .toModifiable number =>
    session.withObject session.datasets[number]? fun data =>
      if data.modifiable then session.refuse .noSuchObject
      else session.addFresh (data.toModifiable session.nextIdentity)
  | .clone number => session.withObject session.datasets[number]? session.addDataset
  | .replace number name values =>
    session.withObject session.datasets[number]? fun data =>
      if data.modifiable then
        match data.replace name values with
        | .ok data =>
          (.ok .done, { session with datasets := session.datasets.setIfInBounds number data })
        | .error cause => session.refuse (.failure (.error cause))
      else session.refuse .noSuchObject
  | .describe number =>
    session.withObject session.datasets[number]? fun data => (.ok (.description data), session)
  | .column number name =>
    session.withObject session.datasets[number]? fun data =>
      (.ok (.column (data.column? name)), session)
  | .sameIdentity first second =>
    session.withObject session.datasets[first]? fun a =>
      session.withObject session.datasets[second]? fun b =>
        (.ok (.same (a.identity == b.identity)), session)
  | .scalar formula number rows =>
    session.withObject session.datasets[number]? fun data =>
      let (values, scalar) := session.scalar.evaluate formula data rows
      (valuesReply values, { session with scalar })
  | .batch formula number rows =>
    session.withObject session.datasets[number]? fun data =>
      let (values, batch) := session.batch.evaluate formula data rows
      (valuesReply values, { session with batch })
  | .through .scalar formula number rows count =>
    session.withObject session.datasets[number]? fun data =>
      let (values, scalar) := Interpreter.draw session.scalar formula data rows count
      (valuesReply values, { session with scalar })
  | .through .batch formula number rows count =>
    session.withObject session.datasets[number]? fun data =>
      let (values, batch) := Interpreter.draw session.batch formula data rows count
      (valuesReply values, { session with batch })
  | .counters =>
    (.ok (.counters session.scalar.evaluated session.batch.evaluated session.cacheView), session)
  | .resetCounters =>
    (.ok .done, { session with scalar := session.scalar.reset, batch := session.batch.reset })
  | .resetCounter .scalar => (.ok .done, { session with scalar := session.scalar.reset })
  | .resetCounter .batch => (.ok .done, { session with batch := session.batch.reset })
  | .refreshCache number =>
    session.withObject session.datasets[number]? fun data =>
      let (reloaded, cache) := session.batch.cache.refresh data
      let session := { session with batch := session.batch.withCache cache }
      (.ok (.refreshed reloaded session.cacheView), session)
  | .clearCache =>
    let session :=
      { session with batch := session.batch.withCache session.batch.cache.clear }
    (.ok (.cache session.cacheView), session)
  | .handOver batchSize =>
    let batch := (BatchInterpreter.ofBatchSize batchSize).withCache session.batch.cache
    (.ok .done, { session with batch })
  | .cachedColumn name => (.ok (.cachedColumn (session.batch.cache.get? name)), session)
  | .compile formula =>
    match formula.compile session.scalar.hooks with
    | .ok program =>
      (.ok (.program session.programs.size),
        { session with programs := session.programs.push program })
    | .error cause => session.refuse (.failure (.error cause))
  | .evaluate formula number rows =>
    session.withObject session.datasets[number]? fun data =>
      match session.scalar.open? formula data rows with
      | .ok started => session.addEvaluation started
      | .error cause => session.refuse (.failure (.error cause))
  | .evaluateProgram program number rows =>
    session.withObject session.programs[program]? fun program =>
      session.withObject session.datasets[number]? fun data =>
        session.addEvaluation (session.scalar.start program data rows)
  | .next number =>
    session.withObject session.evaluations[number]? fun evaluation =>
      let (value, evaluation) := evaluation.next
      session.putBack number value evaluation
  | .evaluateRow number row =>
    session.withObject session.evaluations[number]? fun evaluation =>
      let (value, evaluation) := evaluation.evaluateRow row
      session.putBack number (some value) evaluation

/-- Runs steps one after another. -/
def performAll (session : Session) : List Step → List (Except Refusal Reply) × Session
  | [] => ([], session)
  | step :: rest =>
    let (reply, session) := session.perform step
    let (replies, session) := performAll session rest
    (reply :: replies, session)

end Session

end FormulaEngine
