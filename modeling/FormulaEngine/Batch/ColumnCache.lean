import FormulaEngine.Dataset

/-!
# Column cache

The numeric columns of a dataset, kept from one evaluation to the next. The cache remembers the
identity of a fixed dataset and loads its columns once; it never remembers a modifiable dataset,
whose columns may have changed at the next evaluation.

- `ColumnCache.refresh`: makes the cache hold the columns of a dataset;
- `ColumnCache.clear`: forgets all columns, but not how often columns were loaded.
-/

namespace FormulaEngine

/-- Numeric columns by name. -/
structure ColumnCache where
  /-- The fixed dataset whose columns these are, if it is known. -/
  identity : Option Nat := none
  columns : List (String × Array Float) := []
  /-- How often columns have been loaded. -/
  reloads : Nat := 0

/-- The numeric columns of a dataset with their names. -/
def Dataset.numericColumns (data : Dataset) : List (String × Array Float) :=
  data.numericNames.filterMap fun name => (data.numeric? name).map (name, ·)

namespace ColumnCache

/-- The column called `name`. -/
def get? (cache : ColumnCache) (name : String) : Option (Array Float) := cache.columns.lookup name

/-- Whether the cache can answer for the dataset as it is. -/
def knows (cache : ColumnCache) (data : Dataset) : Bool :=
  !data.modifiable && cache.identity == some data.identity

/-- Loads the columns of a dataset. -/
def load (cache : ColumnCache) (data : Dataset) : ColumnCache where
  identity := if data.modifiable then none else some data.identity
  columns := data.numericColumns
  reloads := cache.reloads + 1

/-- The cache with the columns of a dataset, and whether they had to be loaded. -/
def refresh (cache : ColumnCache) (data : Dataset) : Bool × ColumnCache :=
  if cache.knows data then (false, cache) else (true, cache.load data)

/-- The cache without columns. -/
def clear (cache : ColumnCache) : ColumnCache := { cache with identity := none, columns := [] }

end ColumnCache

end FormulaEngine
