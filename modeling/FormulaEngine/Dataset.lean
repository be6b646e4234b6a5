import FormulaEngine.Error

/-!
# Datasets

Named columns of numbers or categories. A dataset has an identity, by which caches know it again: a
fixed dataset never changes under its identity, a modifiable one may.

- `Dataset.build`: a fixed dataset from columns, if they have one length and different names;
- `Dataset.toModifiable`: a modifiable copy under an identity of its own;
- `Dataset.replace`: the dataset with other values for one numeric variable;
- `Dataset.column?`, `Dataset.numeric?`, `Dataset.categorical?`: the columns by name.
-/

namespace FormulaEngine

/-- The values of one variable. -/
inductive Column where
  | numeric (values : Array Float)
  | categorical (values : Array String)

namespace Column

/-- The number of rows. -/
def size : Column → Nat
  | numeric values => values.size
  | categorical values => values.size

/-- The values of a numeric column. -/
def numeric? : Column → Option (Array Float)
  | numeric values => some values
  | categorical _ => none

/-- The values of a categorical column. -/
def categorical? : Column → Option (Array String)
  | numeric _ => none
  | categorical values => some values

end Column

/-- Columns in the order of their declaration. -/
structure Dataset where
  /-- Two datasets with the same identity are clones of one. -/
  identity : Nat
  /-- Whether values can be replaced under the same identity. -/
  modifiable : Bool
  rows : Nat
  columns : List (String × Column)

namespace Dataset

/-- Adds columns to those `checked` so far. The first that is at fault decides the error; its length
is looked at before its name. -/
def check (rows : Nat) (checked : List (String × Column)) :
    List (String × Column) → Except EvalError (List (String × Column))
  | [] => .ok checked
  | (name, column) :: rest =>
    if column.size ≠ rows then .error (.columnLengthMismatch name rows column.size)
    else if checked.any (·.1 == name) then .error (.duplicateVariable name)
    else check rows (checked ++ [(name, column)]) rest

/-- A fixed dataset. The first column says how many rows there are. -/
def build (identity : Nat) (columns : List (String × Column)) : Except EvalError Dataset := do
  let rows := match columns with
    | [] => 0
    | (_, column) :: _ => column.size
  let columns ← check rows [] columns
  return { identity, modifiable := false, rows, columns }

/-- A modifiable copy under another identity. -/
def toModifiable (identity : Nat) (data : Dataset) : Dataset :=
  { data with identity, modifiable := true }

/-- The column called `name`. -/
def column? (data : Dataset) (name : String) : Option Column := data.columns.lookup name

/-- The numbers of the variable called `name`. -/
def numeric? (data : Dataset) (name : String) : Option (Array Float) := do
  (← data.column? name).numeric?

/-- The categories of the variable called `name`. -/
def categorical? (data : Dataset) (name : String) : Option (Array String) := do
  (← data.column? name).categorical?

/-- The names of all variables. -/
def names (data : Dataset) : List String := data.columns.map (·.1)

/-- The names of the numeric variables. -/
def numericNames (data : Dataset) : List String :=
  data.names.filter fun name => (data.numeric? name).isSome

/-- Puts `column` in the place of the one called `name`. -/
def setColumn (name : String) (column : Column) (columns : List (String × Column)) :
    List (String × Column) :=
  columns.map fun entry => if entry.1 == name then (name, column) else entry

/-- The dataset with other values for a numeric variable. The variable must exist, be numeric and
keep its number of rows, and the first of these that fails decides the error. -/
def replace (name : String) (values : Array Float) (data : Dataset) : Except EvalError Dataset :=
  match data.column? name with
  | none => .error (.unknownVariable name)
  | some (.categorical _) => .error (.variableNotMutable name)
  | some (.numeric _) =>
    if values.size ≠ data.rows then .error (.columnLengthMismatch name data.rows values.size)
    else .ok { data with columns := setColumn name (.numeric values) data.columns }

end Dataset

end FormulaEngine
