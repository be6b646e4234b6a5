import FormulaEngine.Dataset
import FormulaEngine.Program

/-!
# Bound programs

A program knows variables by name only. Binding it to a dataset looks up the columns once, so that
no name is looked up for a row. A variable that is missing, or of the wrong kind, is no error: the
instruction is bound to nothing and gives NaN when it runs.

- `Instruction.bind`, `Program.bind`: a program with the columns of a dataset.
-/

namespace FormulaEngine

/-- What an instruction gets from binding. -/
inductive Data where
  /-- The instruction needs no more than its node. -/
  | none
  | numeric (values : Array Float)
  | categorical (values : Array String)
  /-- The address of the function that is called. -/
  | jump (target : Nat)
  /-- The variable or function does not exist. -/
  | missing

/-- An instruction with its data. -/
structure BoundInstruction where
  node : Node
  opcode : Opcode
  argCount : Nat
  data : Data

/-- A program that can run on one dataset. -/
structure BoundProgram where
  code : Array BoundInstruction
  /-- The number of rows of the dataset. -/
  rows : Nat
  callStackSize : Nat

/-- The column of the variable that a symbol names, if it is of the kind that is read. -/
def Symbol.data (symbol : Symbol) (categories : Bool) (data : Dataset) : Data :=
  match symbol.variableName? with
  | none => .missing
  | some name =>
    match data.column? name, categories with
    | some (.numeric values), false => .numeric values
    | some (.categorical values), true => .categorical values
    | _, _ => .missing

/-- What an instruction needs from the dataset, by its opcode. -/
def Instruction.data (i : Instruction) (data : Dataset) : Data :=
  if i.opcode = .call then
    match i.target with
    | some target => .jump target
    | none => .missing
  else if i.opcode.readsColumn then i.node.symbol.data i.opcode.readsCategories data
  else .none

/-- Attaches the data of one instruction. -/
def Instruction.bind (data : Dataset) (i : Instruction) : BoundInstruction where
  node := i.node
  opcode := i.opcode
  argCount := i.argCount
  data := i.data data

/-- Attaches the data of all instructions. -/
def Program.bind (program : Program) (data : Dataset) : BoundProgram where
  code := program.code.map (Instruction.bind data)
  rows := data.rows
  callStackSize := program.callStackSize

/-- The length of the subtree at address `i`. -/
def BoundProgram.subtreeLength? (program : BoundProgram) (i : Nat) : Option Nat :=
  spanLength? BoundInstruction.argCount program.code i

/-! ## Texts -/

/-- The text of a list of texts. -/
def listText (items : List String) : String := "[" ++ ", ".intercalate items ++ "]"

/-- A text in quotes; quotes, backslashes and line ends in it are written as escapes. -/
def quoted (text : String) : String :=
  let escape (c : Char) : List Char :=
    match c with
    | '"' => ['\\', '"']
    | '\\' => ['\\', '\\']
    | '\n' => ['\\', 'n']
    | '\r' => ['\\', 'r']
    | '\t' => ['\\', 't']
    | '\x00' => ['\\', '0']
    | c => [c]
  "\"" ++ String.ofList (text.toList.map escape).flatten ++ "\""

/-- A short text of bound data. -/
def Data.summary : Data → String
  | .none => "None"
  | .missing => "Missing"
  | .jump target => "Jump(" ++ toString target ++ ")"
  | .numeric values => "Numeric(" ++ listText (values.toList.map NumberText.explicit) ++ ")"
  | .categorical values => "Categorical(" ++ listText (values.toList.map quoted) ++ ")"

/-- A short text of a bound instruction without its node. -/
def BoundInstruction.summary (i : BoundInstruction) : String :=
  "BoundInstruction \x7b opcode: " ++ i.opcode.name ++ ", arg_count: " ++ toString i.argCount
    ++ ", data: " ++ i.data.summary ++ ", .. \x7d"

end FormulaEngine
