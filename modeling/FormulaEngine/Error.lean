import FormulaEngine.Opcode

/-!
# Errors

What can be wrong with a formula or a dataset (`EvalError`), and what can go wrong while a program
runs (`Fault`). A program that was compiled without hooks runs without faults at every row; hooks
can change instructions so that they no longer fit their nodes. The other sources of faults are the
number of values that are asked for at once, and a cursor that has to fit into a number of bits.

- `EvalError.message`, `Fault.message?`: the texts;
- `EvalError.isCapacity`: whether a limit of the 16-bit addresses was passed;
- `Failure`: either of the two.
-/

namespace FormulaEngine

/-- The largest number of instructions in a program, and the largest number of children of a
node. -/
def addressLimit : Nat := 65535

/-- The largest number of values that one buffer or one list of results can have: a value takes
eight bytes, and together they take fewer than `2 ^ 63`. -/
def storageLimit : Nat := 9223372036854775807 / 8

/-- What is wrong with the shape of a formula. -/
inductive Defect where
  | noBody
  | functionWithoutBody (name : String)
  | functionDefinedTwice (name : String)
  | childCount (symbol : String) (count : Nat)
  | callInstruction (symbol : String)
deriving DecidableEq

/-- The text of a defect. -/
def Defect.message : Defect → String
  | noBody => "tree has no main body"
  | functionWithoutBody name => "function '" ++ name ++ "' has no body"
  | functionDefinedTwice name => "function '" ++ name ++ "' is defined more than once"
  | childCount symbol count => "'" ++ symbol ++ "' cannot have " ++ toString count ++ " children"
  | callInstruction symbol => "Call instruction compiled from a '" ++ symbol ++ "' node"

/-- Why a formula cannot be compiled or evaluated, or a dataset not built or changed. -/
inductive EvalError where
  | unsupportedSymbol (symbol : String)
  | unresolvedFunction (name : String)
  | malformedTree (defect : Defect)
  | tooManyChildren (symbol : String) (count : Nat)
  | programTooLong (length : Nat)
  | unsupportedBatchOpcode (opcode : Opcode)
  | columnLengthMismatch (name : String) (expected got : Nat)
  | duplicateVariable (name : String)
  | unknownVariable (name : String)
  | variableNotMutable (name : String)
deriving DecidableEq

namespace EvalError

/-- The text of an error. -/
def message : EvalError → String
  | unsupportedSymbol symbol => "Symbol '" ++ symbol ++ "' has no opcode and cannot be compiled"
  | unresolvedFunction name => "Call to undefined function '" ++ name ++ "'"
  | malformedTree defect => "Malformed tree: " ++ defect.message
  | tooManyChildren symbol count =>
    "Node '" ++ symbol ++ "' has " ++ toString count ++ " children, more than the limit of "
      ++ toString addressLimit
  | programTooLong length =>
    "Program needs " ++ toString length ++ " instructions, more than the limit of "
      ++ toString addressLimit
  | unsupportedBatchOpcode opcode =>
    "Opcode '" ++ opcode.name ++ "' is not supported by the batch interpreter"
  | columnLengthMismatch name expected got =>
    "Column '" ++ name ++ "' has " ++ toString got ++ " rows, expected " ++ toString expected
  | duplicateVariable name => "Variable '" ++ name ++ "' is defined more than once"
  | unknownVariable name => "Variable '" ++ name ++ "' does not exist in the dataset"
  | variableNotMutable name =>
    "Variable '" ++ name ++ "' is not a numeric variable and cannot be replaced"

/-- Whether the error is a limit of the 16-bit addresses. -/
def isCapacity : EvalError → Bool
  | tooManyChildren _ _ | programTooLong _ => true
  | _ => false

end EvalError

/-- Why a run stops without a value. -/
inductive Fault where
  /-- An address, a row or an argument lies outside what holds it. -/
  | outOfBounds
  /-- A position lies outside a range of rows. -/
  | rowPosition
  /-- An opcode needs something that the symbol of its node does not carry. -/
  | payloadMismatch (opcode : Opcode) (symbol : String)
  /-- More than `storageLimit` values would have to be kept. -/
  | outOfStorage
  /-- A position of the row cursor does not fit into the register that holds it. -/
  | overflow
deriving DecidableEq

/-- The text of a fault that has one. -/
def Fault.message? : Fault → Option String
  | outOfBounds | outOfStorage | overflow => none
  | rowPosition => some "row position out of bounds"
  | payloadMismatch opcode symbol =>
    some ("opcode " ++ opcode.name ++ " cannot read the payload of a '" ++ symbol ++ "' node")

/-- Why an evaluation gives no values: it was refused, or it stopped. -/
inductive Failure where
  | error (cause : EvalError)
  | fault (cause : Fault)
deriving DecidableEq

end FormulaEngine
