import FormulaEngine.Batch.Chunk

/-!
# Batch interpreter

Evaluates the main body of a formula for many rows at once. It runs arithmetic only, and it keeps a
cache of columns from one evaluation to the next.

- `chunks`: how positions are divided into full chunks and a rest;
- `BatchInterpreter.evaluate`: the values of a formula at all rows.
-/

namespace FormulaEngine

/-- The number of rows in a chunk unless another is set. -/
def defaultBatchSize : Nat := 64

/-- An interpreter for formulas that a batch can run. -/
structure BatchInterpreter where
  cache : ColumnCache := {}
  batchSize : Nat := defaultBatchSize
  /-- The evaluations started since the last reset. -/
  evaluated : Nat := 0

/-- Divides `total` positions into chunks of `size` and a shorter one for the rest, each with the
position where it starts. -/
def chunks (total size : Nat) : List (Nat × Nat) :=
  let full := total / size
  let rest := total - full * size
  (List.range full).map (fun k => (k * size, size))
    ++ if 0 < rest then [(full * size, rest)] else []

/-- Evaluates one chunk and puts the lanes of the first instruction in front of those found
before. -/
def evaluateNextChunk (rows : Rows) (progress : Array BatchInstruction × List (List Float))
    (chunk : Nat × Nat) : Except Fault (Array BatchInstruction × List (List Float)) := do
  let code ← evaluateChunk rows chunk.1 chunk.2 progress.1
  match code[0]? with
  | none => throw .outOfBounds
  | some i => return (code, (← i.front chunk.2) :: progress.2)

/-- The values of the first instruction at all positions, if so many values can be kept. -/
def evaluateChunks (rows : Rows) (batchSize : Nat) (code : Array BatchInstruction) :
    Except Fault (List Float) := do
  if storageLimit < rows.size then
    throw .outOfStorage
  let (_, found) ← (chunks rows.size batchSize).foldlM (evaluateNextChunk rows) (code, [])
  return found.reverse.flatten

/-- Replaces the values at rows outside the dataset by NaN. -/
def maskOutside (dataRows : Nat) (rows : Rows) (values : List Float) : List Float :=
  List.zipWith (fun value row => if row < dataRows then value else nan) values rows.toList

namespace BatchInterpreter

/-- An interpreter with chunks of `batchSize` rows, at least one. -/
def ofBatchSize (batchSize : Nat) : BatchInterpreter := { batchSize := max batchSize 1 }

/-- The lanes of a buffer: as many as a chunk has rows, but no more than there are rows at all. A
chunk that no buffer can hold is left to the layout to refuse. -/
def lanes (interpreter : BatchInterpreter) (rows : Rows) : Nat :=
  if interpreter.batchSize ≤ storageLimit then min interpreter.batchSize rows.size
  else interpreter.batchSize

/-- The values of a formula at all rows. The cache holds the columns of the dataset afterwards,
except when the formula has no body; the evaluation is counted once the formula is laid out. -/
def evaluate (interpreter : BatchInterpreter) (formula : Formula) (data : Dataset) (rows : Rows) :
    Except Failure (List Float) × BatchInterpreter :=
  match formula.body? with
  | none => (.error (.error (.malformedTree .noBody)), interpreter)
  | some body =>
    let cache := (interpreter.cache.refresh data).2
    match body.layout cache (interpreter.lanes rows) with
    | .error cause => (.error cause, { interpreter with cache })
    | .ok code =>
      let values := (evaluateChunks rows interpreter.batchSize code).map
        (maskOutside data.rows rows)
      (values.mapError .fault, { interpreter with cache, evaluated := interpreter.evaluated + 1 })

/-- Sets the counter back. -/
def reset (interpreter : BatchInterpreter) : BatchInterpreter := { interpreter with evaluated := 0 }

/-- A new interpreter with the same chunks that takes over a cache. -/
def withCache (interpreter : BatchInterpreter) (cache : ColumnCache) : BatchInterpreter :=
  { interpreter with cache, evaluated := 0 }

end BatchInterpreter

end FormulaEngine
