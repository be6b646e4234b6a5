import FormulaEngine.Program

/-!
# Listings of programs

`Program.listing` writes a program for a reader, one line for every instruction, with the name of a
function on a line of its own before the first instruction of its body.

    0  Add                   (2 args)
    1  Call                  F(1*x) -> 4
-/

namespace FormulaEngine

/-- `text` after as many blanks as it takes to reach `width` characters. -/
def alignRight (width : Nat) (text : String) : String :=
  String.ofList (List.replicate (width - text.length) ' ') ++ text

/-- `text` before as many blanks as it takes to reach `width` characters. -/
def alignLeft (width : Nat) (text : String) : String :=
  text ++ String.ofList (List.replicate (width - text.length) ' ')

/-- What a listing says of an instruction beside its opcode: the call and its target, the written
node of a leaf, or the number of operands. -/
def Instruction.remark (i : Instruction) : String :=
  if i.opcode = .call then
    i.node.text ++ " -> " ++ (match i.target with | some target => toString target | none => "?")
  else if i.argCount = 0 then i.node.text
  else "(" ++ toString i.argCount ++ " args)"

/-- The part of the listing for the instruction at `address`. -/
def Program.listingAt (program : Program) (address : Nat) (i : Instruction) : String :=
  let line :=
    alignRight 4 (toString address) ++ "  " ++ alignLeft 22 i.opcode.name ++ i.remark ++ "\n"
  match program.entryPoints.find? (·.2 == address) with
  | some (name, _) => name ++ ":\n" ++ line
  | none => line

/-- The whole listing; every line ends with a line feed. -/
def Program.listing (program : Program) : String :=
  String.join (program.code.toList.zipIdx.map fun (i, address) => program.listingAt address i)

/-- A line without the carriage return that may stand at its end. -/
def chompReturn (line : String) : String :=
  if line.endsWith "\r" then (line.dropEnd 1).toString else line

/-- The lines of a text. A line feed ends a line, so none follows the last one. -/
def linesOf (text : String) : List String :=
  let parts := text.splitOn "\n"
  (if parts.getLast? = some "" then parts.dropLast else parts).map chompReturn

/-- A short text of an instruction without its node. -/
def Instruction.summary (i : Instruction) : String :=
  let target := match i.target with
    | some target => "Some(" ++ toString target ++ ")"
    | none => "None"
  "Instruction \x7b opcode: " ++ i.opcode.name ++ ", arg_count: " ++ toString i.argCount
    ++ ", target: " ++ target ++ ", .. \x7d"

/-- A short text of a compiler with the given number of hooks. -/
def compilerSummary (hooks : Nat) : String := "Compiler \x7b hooks: " ++ toString hooks ++ " \x7d"

end FormulaEngine
