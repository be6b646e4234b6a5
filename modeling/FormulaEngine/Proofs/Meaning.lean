import FormulaEngine.Arithmetic
import FormulaEngine.Dataset
import FormulaEngine.Formula
import FormulaEngine.Special.Airy
import FormulaEngine.Special.Bessel
import FormulaEngine.Special.ErrorFunction
import FormulaEngine.Special.ExponentialIntegral
import FormulaEngine.Special.Gamma
import FormulaEngine.Special.SineIntegral
import Mathlib.Algebra.Ring.Nat

/-!
# The meaning of formulas

What a formula is worth at a row, by recursion on the tree. There are no addresses, no stack and no
cursor to move: a node gets its operands as functions of the row, and a call gets the function that
it names as a function of the arguments. This is what compiled code is measured by.

- `Symbol.combine?`: the symbols that evaluate all operands at the present row, and what they make
  of the values;
- `Symbol.value`: the value of a node, by its symbol;
- `Symbol.cost`: the nodes that are evaluated for the operands which the symbol selects;
- `Node.value`, `Node.cost`: the value of a subtree, and the number of nodes evaluated for it;
- `Formula.value`: the value of a formula at a row of a dataset, with a limit of nested calls.

A row is a whole number here, since lags lead out of the dataset on both sides.
-/

namespace FormulaEngine

open Arithmetic

/-! ## Cells -/

namespace Dataset

/-- The number of a variable at a row; nothing outside the dataset, and nothing if there is no such
variable or if it is not numeric. -/
def numberAt? (data : Dataset) (name : String) (row : Int) : Option Float :=
  if 0 ≤ row ∧ row < data.rows then (data.numeric? name).bind (·[row.toNat]?) else none

/-- The category of a variable at a row, nothing where `numberAt?` would find no number. -/
def categoryAt? (data : Dataset) (name : String) (row : Int) : Option String :=
  if 0 ≤ row ∧ row < data.rows then (data.categorical? name).bind (·[row.toNat]?) else none

/-- Every column has a cell for every row. -/
def Rectangular (data : Dataset) : Prop := ∀ column ∈ data.columns, column.2.size = data.rows

variable {data : Dataset} {name : String}

/-- A column that is found by name is one of the columns. -/
theorem exists_mem_of_column? {column : Column} (h : data.column? name = some column) :
    ∃ name, (name, column) ∈ data.columns := by
  obtain ⟨front, back, hcolumns, -⟩ := List.lookup_eq_some_iff.mp h
  refine ⟨name, ?_⟩
  rw [hcolumns]
  simp

theorem Rectangular.size_numeric (hdata : data.Rectangular) {column : Array Float}
    (h : data.numeric? name = some column) : column.size = data.rows := by
  unfold numeric? at h
  cases hcolumn : data.column? name with
  | none => simp [hcolumn] at h
  | some found =>
    obtain ⟨name, hmem⟩ := exists_mem_of_column? hcolumn
    have hsize := hdata _ hmem
    cases found with
    | numeric values =>
      simp only [hcolumn, Option.bind_eq_bind, Option.bind_some, Column.numeric?,
        Option.some.injEq] at h
      exact h ▸ hsize
    | categorical values => simp [hcolumn, Column.numeric?] at h

theorem Rectangular.size_categorical (hdata : data.Rectangular) {column : Array String}
    (h : data.categorical? name = some column) : column.size = data.rows := by
  unfold categorical? at h
  cases hcolumn : data.column? name with
  | none => simp [hcolumn] at h
  | some found =>
    obtain ⟨name, hmem⟩ := exists_mem_of_column? hcolumn
    have hsize := hdata _ hmem
    cases found with
    | numeric values => simp [hcolumn, Column.categorical?] at h
    | categorical values =>
      simp only [hcolumn, Option.bind_eq_bind, Option.bind_some, Column.categorical?,
        Option.some.injEq] at h
      exact h ▸ hsize

end Dataset

/-! ## Symbols that combine the values of all operands -/

namespace Meaning

/-- A function of one operand. -/
def unary (f : Float → Float) : List Float → Float
  | [x] => f x
  | _ => nan

/-- A function of two operands. -/
def binary (f : Float → Float → Float) : List Float → Float
  | [x, y] => f x y
  | _ => nan

/-- An operator between any number of operands, bracketed to the left; `single` is its value on one
operand. -/
def folded (f : Float → Float → Float) (single : Float → Float) : List Float → Float
  | [] => nan
  | [x] => single x
  | x :: y :: rest => (y :: rest).foldl f x

/-- The mean. -/
def mean : List Float → Float
  | [] => nan
  | x :: rest => rest.foldl (· + ·) x / Float.ofNat (x :: rest).length

/-- Whether an odd number of operands is true. -/
def parity (values : List Float) : Float := truth (values.countP holds % 2 = 1)

/-- The last of the values that are looked at, when the next one is looked at only while `goesOn`
holds of the one before. -/
def lastOf (goesOn : Float → Bool) : (last : Float) → List Float → Float
  | last, [] => last
  | last, next :: rest => if goesOn last then lastOf goesOn next rest else last

/-- The rows behind `row` in the direction of `step`, the nearest first. -/
def rowsBehind (step : Int) : (count : Nat) → (row : Int) → List Int
  | 0, _ => []
  | count + 1, row => (row + step) :: rowsBehind step count (row + step)

/-- The rows over which a lag adds up: from the neighbour of `row` to the row at the lag, and at last
`row` itself. -/
def lagRows (lag row : Int) : List Int := rowsBehind lag.sign lag.natAbs row ++ [row]

end Meaning

open Meaning in
/-- What a symbol makes of the values of its operands, if it evaluates all of them at the present
row. -/
def Symbol.combine? : Symbol → Option (List Float → Float)
  | .addition => some (folded (· + ·) id)
  | .subtraction => some (folded (· - ·) (- ·))
  | .multiplication => some (folded (· * ·) id)
  | .division => some (folded (· / ·) (1.0 / ·))
  | .average => some mean
  | .power => some (binary Arithmetic.power)
  | .root => some (binary Arithmetic.root)
  | .square => some (unary fun x => x * x)
  | .squareRoot => some (unary Float.sqrt)
  | .cube => some (unary fun x => x * x * x)
  | .cubeRoot => some (unary Float.cbrt)
  | .absolute => some (unary Float.abs)
  | .analyticQuotient => some (binary Arithmetic.analyticQuotient)
  | .sine => some (unary Float.sin)
  | .cosine => some (unary Float.cos)
  | .tangent => some (unary Float.tan)
  | .hyperbolicTangent => some (unary Float.tanh)
  | .logarithm => some (unary Float.log)
  | .exponential => some (unary Float.exp)
  | .gamma => some (unary Special.gamma)
  | .psi => some (unary Special.psi)
  | .dawson => some (unary Special.dawson)
  | .exponentialIntegralEi => some (unary Special.exponentialIntegral)
  | .cosineIntegral => some (unary Special.cosineIntegral)
  | .sineIntegral => some (unary Special.sineIntegral)
  | .hyperbolicCosineIntegral => some (unary Special.hyperbolicCosineIntegral)
  | .hyperbolicSineIntegral => some (unary Special.hyperbolicSineIntegral)
  | .fresnelCosineIntegral => some (unary Special.fresnelCosine)
  | .fresnelSineIntegral => some (unary Special.fresnelSine)
  | .airyA => some (unary Special.airyA)
  | .airyB => some (unary Special.airyB)
  | .norm => some (unary Special.norm)
  | .erf => some (unary Special.erf)
  | .bessel => some (unary Special.besselI0)
  | .greaterThan => some (binary fun x y => truth (x > y))
  | .lessThan => some (binary fun x y => truth (x < y))
  | .negation => some (unary negate)
  | .exclusiveOr => some parity
  | .subFunction _ => some (unary id)
  | _ => none

/-! ## Symbols -/

/-- What a node can see: the dataset, the arguments of the function around it, and the functions of
the formula. -/
structure Scope where
  data : Dataset
  arguments : List Float
  /-- The value of a function on arguments at a row. -/
  call : (function : String) → (arguments : List Float) → (row : Int) → Float
  /-- The number of nodes evaluated for it. -/
  callCost : (function : String) → (arguments : List Float) → (row : Int) → Nat

/-- An operand as its node sees it, the row left open. -/
structure Operand where
  value : Int → Float
  cost : Int → Nat

namespace Symbol

open Meaning

/-- The value of a node at a row. -/
def value (scope : Scope) (operands : List (Int → Float)) (row : Int) : Symbol → Float
  | .ifThenElse =>
    match operands with
    | [condition, yes, no] => if holds (condition row) then yes row else no row
    | _ => nan
  | .conjunction =>
    match operands.map (· row) with
    | [] => nan
    | first :: rest => truth (holds (lastOf holds first rest))
  | .disjunction =>
    match operands.map (· row) with
    | [] => nan
    | first :: rest => truth (holds (lastOf (· ≤ 0.0) first rest))
  | .constant number => number
  | .numericVariable name weight =>
    match scope.data.numberAt? name row with
    | some number => number * weight
    | none => nan
  | .laggedVariable name weight lag =>
    match scope.data.numberAt? name (row + lag.toInt) with
    | some number => number * weight
    | none => nan
  | .factorVariable name weights =>
    match scope.data.categoryAt? name row with
    | some category => (weights.lookup category).getD nan
    | none => nan
  | .binaryFactorVariable name wanted weight =>
    match scope.data.categoryAt? name row with
    | some category => if category == wanted then weight else 0.0
    | none => nan
  | .variableCondition name threshold slope ignoreSlope =>
    match scope.data.numberAt? name row, operands with
    | some number, [left, right] =>
      if ignoreSlope then
        if number ≤ threshold then left row else right row
      else
        let p := logistic slope (number - threshold)
        left row * p + right row * (1.0 - p)
    | _, _ => nan
  | .timeLag lag =>
    match operands with
    | [operand] => operand (row + lag.toInt)
    | _ => nan
  | .integral lag =>
    match operands with
    | [operand] => ((lagRows lag.toInt row).map operand).foldl (· + ·) 0.0
    | _ => nan
  | .derivative =>
    match operands with
    | [operand] =>
      recentSlope (operand row) (operand (row - 1)) (operand (row - 3)) (operand (row - 4))
    | _ => nan
  | .call function => scope.call function (operands.map (· row)) row
  | .argument index => scope.arguments[index]?.getD nan
  | symbol =>
    match symbol.combine? with
    | some combine => combine (operands.map (· row))
    | none => nan

/-- The number of nodes evaluated at a row below operands, when the next operand is evaluated only
while `goesOn` holds of the value of the one before. -/
def costWhile (goesOn : Float → Bool) (row : Int) : List Operand → Nat
  | [] => 0
  | operand :: rest =>
    operand.cost row + if goesOn (operand.value row) then costWhile goesOn row rest else 0

/-- The number of nodes evaluated at a row below operands that are all evaluated. -/
def costAll (row : Int) (operands : List Operand) : Nat := (operands.map (·.cost row)).sum

/-- The number of nodes evaluated for a node at a row, the node itself left out. -/
def cost (scope : Scope) (operands : List Operand) (row : Int) : Symbol → Nat
  | .ifThenElse =>
    match operands with
    | [condition, yes, no] =>
      condition.cost row + if holds (condition.value row) then yes.cost row else no.cost row
    | _ => 0
  | .conjunction => costWhile holds row operands
  | .disjunction => costWhile (· ≤ 0.0) row operands
  | .variableCondition name threshold _ ignoreSlope =>
    match scope.data.numberAt? name row, operands with
    | some number, [left, right] =>
      if ignoreSlope then
        if number ≤ threshold then left.cost row else right.cost row
      else left.cost row + right.cost row
    | _, _ => 0
  | .timeLag lag =>
    match operands with
    | [operand] => operand.cost (row + lag.toInt)
    | _ => 0
  | .integral lag =>
    match operands with
    | [operand] => ((lagRows lag.toInt row).map operand.cost).sum
    | _ => 0
  | .derivative =>
    match operands with
    | [operand] =>
      operand.cost row + operand.cost (row - 1) + operand.cost (row - 3) + operand.cost (row - 4)
    | _ => 0
  | .call function =>
    costAll row operands + scope.callCost function (operands.map (·.value row)) row
  | _ => costAll row operands

section Selected

/-! The symbols that do not evaluate all operands at the present row, one at a time. -/

variable (scope : Scope) (row : Int)

@[simp] theorem value_ifThenElse (condition yes no : Int → Float) :
    value scope [condition, yes, no] row .ifThenElse =
      if holds (condition row) then yes row else no row := rfl

@[simp] theorem cost_ifThenElse (condition yes no : Operand) :
    cost scope [condition, yes, no] row .ifThenElse =
      condition.cost row + if holds (condition.value row) then yes.cost row else no.cost row := rfl

@[simp] theorem value_conjunction (first : Int → Float) (rest : List (Int → Float)) :
    value scope (first :: rest) row .conjunction =
      truth (holds (lastOf holds (first row) (rest.map (· row)))) := rfl

@[simp] theorem cost_conjunction (operands : List Operand) :
    cost scope operands row .conjunction = costWhile holds row operands := rfl

@[simp] theorem value_disjunction (first : Int → Float) (rest : List (Int → Float)) :
    value scope (first :: rest) row .disjunction =
      truth (holds (lastOf (· ≤ 0.0) (first row) (rest.map (· row)))) := rfl

@[simp] theorem cost_disjunction (operands : List Operand) :
    cost scope operands row .disjunction = costWhile (· ≤ 0.0) row operands := rfl

@[simp] theorem value_numericVariable (operands : List (Int → Float)) (name : String)
    (weight : Float) :
    value scope operands row (.numericVariable name weight) =
      match scope.data.numberAt? name row with
      | some number => number * weight
      | none => nan := rfl

@[simp] theorem value_variableCondition (left right : Int → Float) (name : String)
    (threshold slope : Float) (ignoreSlope : Bool) :
    value scope [left, right] row (.variableCondition name threshold slope ignoreSlope) =
      match scope.data.numberAt? name row, [left, right] with
      | some number, [left, right] =>
        if ignoreSlope then
          if number ≤ threshold then left row else right row
        else
          let p := logistic slope (number - threshold)
          left row * p + right row * (1.0 - p)
      | _, _ => nan := rfl

@[simp] theorem cost_variableCondition (left right : Operand) (name : String)
    (threshold slope : Float) (ignoreSlope : Bool) :
    cost scope [left, right] row (.variableCondition name threshold slope ignoreSlope) =
      match scope.data.numberAt? name row, [left, right] with
      | some number, [left, right] =>
        if ignoreSlope then
          if number ≤ threshold then left.cost row else right.cost row
        else left.cost row + right.cost row
      | _, _ => 0 := rfl

@[simp] theorem value_timeLag (operand : Int → Float) (lag : Lag) :
    value scope [operand] row (.timeLag lag) = operand (row + lag.toInt) := rfl

@[simp] theorem cost_timeLag (operand : Operand) (lag : Lag) :
    cost scope [operand] row (.timeLag lag) = operand.cost (row + lag.toInt) := rfl

@[simp] theorem value_integral (operand : Int → Float) (lag : Lag) :
    value scope [operand] row (.integral lag) =
      ((lagRows lag.toInt row).map operand).foldl (· + ·) 0.0 := rfl

@[simp] theorem cost_integral (operand : Operand) (lag : Lag) :
    cost scope [operand] row (.integral lag) = ((lagRows lag.toInt row).map operand.cost).sum := rfl

@[simp] theorem value_derivative (operand : Int → Float) :
    value scope [operand] row .derivative =
      recentSlope (operand row) (operand (row - 1)) (operand (row - 3)) (operand (row - 4)) := rfl

@[simp] theorem cost_derivative (operand : Operand) :
    cost scope [operand] row .derivative =
      operand.cost row + operand.cost (row - 1) + operand.cost (row - 3) +
        operand.cost (row - 4) := rfl

@[simp] theorem value_call (operands : List (Int → Float)) (function : String) :
    value scope operands row (.call function) =
      scope.call function (operands.map (· row)) row := rfl

@[simp] theorem cost_call (operands : List Operand) (function : String) :
    cost scope operands row (.call function) =
      costAll row operands + scope.callCost function (operands.map (·.value row)) row := rfl

end Selected

variable {symbol : Symbol} {combine : List Float → Float}

theorem value_of_combine? (h : symbol.combine? = some combine) (scope : Scope)
    (operands : List (Int → Float)) (row : Int) :
    symbol.value scope operands row = combine (operands.map (· row)) := by
  unfold value
  split <;> first | rw [h] | exact absurd h (by simp [combine?])

theorem cost_of_combine? (h : symbol.combine? = some combine) (scope : Scope)
    (operands : List Operand) (row : Int) : symbol.cost scope operands row = costAll row operands := by
  unfold cost
  split <;> first | rfl | exact absurd h (by simp [combine?])

end Symbol

/-! ## Nodes -/

namespace Node

mutual

/-- The value of a subtree at a row. -/
def value (scope : Scope) : Node → (row : Int) → Float
  | ⟨symbol, children⟩ => fun row => symbol.value scope (values scope children) row

/-- The values of several subtrees, the row left open. -/
def values (scope : Scope) : List Node → List (Int → Float)
  | [] => []
  | child :: rest => value scope child :: values scope rest

end

mutual

/-- The number of nodes evaluated for a subtree at a row. -/
def cost (scope : Scope) : Node → (row : Int) → Nat
  | ⟨symbol, children⟩ => fun row => 1 + symbol.cost scope (operands scope children) row

/-- Several subtrees as operands. -/
def operands (scope : Scope) : List Node → List Operand
  | [] => []
  | child :: rest => ⟨value scope child, cost scope child⟩ :: operands scope rest

end

/-- A subtree as an operand. -/
def operand (scope : Scope) (node : Node) : Operand := ⟨node.value scope, node.cost scope⟩

theorem values_eq (scope : Scope) (nodes : List Node) :
    values scope nodes = nodes.map (value scope) := by
  induction nodes with
  | nil => rfl
  | cons child rest ih => rw [values, ih, List.map_cons]

theorem operands_eq (scope : Scope) (nodes : List Node) :
    operands scope nodes = nodes.map (operand scope) := by
  induction nodes with
  | nil => rfl
  | cons child rest ih => rw [operands, ih, List.map_cons, operand]

theorem value_eq (scope : Scope) (node : Node) (row : Int) :
    node.value scope row = node.symbol.value scope (node.children.map (value scope)) row := by
  cases node
  rw [value, values_eq]

theorem cost_eq (scope : Scope) (node : Node) (row : Int) :
    node.cost scope row = 1 + node.symbol.cost scope (node.children.map (operand scope)) row := by
  cases node
  rw [cost, operands_eq]

end Node

/-! ## Formulas -/

namespace Formula

/-- The body of the function called `name`. -/
def functionBody? (formula : Formula) (name : String) : Option Node :=
  (formula.functions.lookup name).join

mutual

/-- The value of a function on arguments at a row, when `room` more calls may be nested. Without
room the body is not evaluated. -/
def callValue (formula : Formula) (data : Dataset) :
    (room : Nat) → (function : String) → (arguments : List Float) → (row : Int) → Float
  | 0, _, _, _ => nan
  | room + 1, function, arguments, row =>
    match formula.functionBody? function with
    | some body =>
      body.value ⟨data, arguments, callValue formula data room, callCost formula data room⟩ row
    | none => nan

/-- The number of nodes evaluated for it. -/
def callCost (formula : Formula) (data : Dataset) :
    (room : Nat) → (function : String) → (arguments : List Float) → (row : Int) → Nat
  | 0, _, _, _ => 0
  | room + 1, function, arguments, row =>
    match formula.functionBody? function with
    | some body =>
      body.cost ⟨data, arguments, callValue formula data room, callCost formula data room⟩ row
    | none => 0

end

/-- What the nodes of a body see, when `room` more calls may be nested. -/
def scope (formula : Formula) (data : Dataset) (room : Nat) (arguments : List Float) : Scope :=
  ⟨data, arguments, formula.callValue data room, formula.callCost data room⟩

theorem callValue_zero (formula : Formula) (data : Dataset) (function : String)
    (arguments : List Float) (row : Int) :
    formula.callValue data 0 function arguments row = nan := by
  rw [callValue]

theorem callCost_zero (formula : Formula) (data : Dataset) (function : String)
    (arguments : List Float) (row : Int) :
    formula.callCost data 0 function arguments row = 0 := by
  rw [callCost]

theorem callValue_succ (formula : Formula) (data : Dataset) (room : Nat) {function : String}
    {body : Node} (h : formula.functionBody? function = some body) (arguments : List Float)
    (row : Int) :
    formula.callValue data (room + 1) function arguments row =
      body.value (formula.scope data room arguments) row := by
  rw [callValue, h]
  rfl

theorem callCost_succ (formula : Formula) (data : Dataset) (room : Nat) {function : String}
    {body : Node} (h : formula.functionBody? function = some body) (arguments : List Float)
    (row : Int) :
    formula.callCost data (room + 1) function arguments row =
      body.cost (formula.scope data room arguments) row := by
  rw [callCost, h]
  rfl

/-- What nodes see of a formula are its functions; the main body makes no difference. -/
theorem scope_congr {formula other : Formula} (h : formula.functions = other.functions)
    (data : Dataset) (room : Nat) (arguments : List Float) :
    formula.scope data room arguments = other.scope data room arguments := by
  have hbodies : formula.functionBody? = other.functionBody? := by
    funext name
    rw [functionBody?, functionBody?, h]
  have hcalls : formula.callValue data room = other.callValue data room ∧
      formula.callCost data room = other.callCost data room := by
    induction room with
    | zero =>
      constructor
      · funext function arguments row
        rw [callValue_zero, callValue_zero]
      · funext function arguments row
        rw [callCost_zero, callCost_zero]
    | succ room ih =>
      obtain ⟨hvalue, hcost⟩ := ih
      constructor
      · funext function arguments row
        rw [callValue, callValue, hbodies, hvalue, hcost]
      · funext function arguments row
        rw [callCost, callCost, hbodies, hvalue, hcost]
  rw [scope, scope, hcalls.1, hcalls.2]

/-- The value of a formula at a row, when calls may be nested up to `maxCallDepth`. A row outside
the dataset has none. -/
def value (formula : Formula) (data : Dataset) (maxCallDepth row : Nat) : Float :=
  match formula.body? with
  | some body =>
    if row < data.rows then body.value (formula.scope data maxCallDepth []) row else nan
  | none => nan

/-- The number of nodes evaluated for it. -/
def cost (formula : Formula) (data : Dataset) (maxCallDepth row : Nat) : Nat :=
  match formula.body? with
  | some body =>
    if row < data.rows then body.cost (formula.scope data maxCallDepth []) row else 0
  | none => 0

end Formula

end FormulaEngine
