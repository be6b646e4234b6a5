import FormulaEngine.Arithmetic
import FormulaEngine.Opcode
import FormulaEngine.Special.Airy
import FormulaEngine.Special.Bessel
import FormulaEngine.Special.ErrorFunction
import FormulaEngine.Special.ExponentialIntegral
import FormulaEngine.Special.Gamma
import FormulaEngine.Special.SineIntegral

/-!
# Operations

What running an instruction means, by opcode. Most opcodes are `strict`: they evaluate operands one
after another and combine the values. The others choose which operands to evaluate, move in time,
call functions or read the dataset; they are told apart here and run by the machine.

- `Operation.unary`, `Operation.binary`, `Operation.folded`: the usual strict operations;
- `Opcode.operation`: the operation of every opcode.
-/

namespace FormulaEngine

/-- How an instruction is run. -/
inductive Operation where
  /-- Evaluates `operands argCount` operands and combines their values. -/
  | strict (operands : (argCount : Nat) → Nat) (combine : (argCount : Nat) → List Float → Float)
  /-- Evaluates the first operand and, by its truth, the second or the third. -/
  | choice
  /-- Evaluates operands up to the first that is not true. -/
  | conjunction
  /-- Evaluates operands up to the first that is true. -/
  | disjunction
  /-- Evaluates the operand at another row. -/
  | timeLag
  /-- Adds up the operand over a stretch of rows. -/
  | integral
  /-- Estimates the slope of the operand over the last rows. -/
  | derivative
  /-- Runs a function on the values of the operands. -/
  | call
  /-- Reads an argument of the function that is running. -/
  | argument
  /-- Gives the number that the node carries. -/
  | constant
  /-- Reads a numeric column. -/
  | numericVariable
  /-- Reads a numeric column at another row. -/
  | lagVariable
  /-- Reads a category and gives the weight of it. -/
  | factorVariable
  /-- Reads a category and compares it with one. -/
  | binaryFactorVariable
  /-- Compares a numeric column with a threshold and combines or chooses operands by that. -/
  | variableCondition

namespace Operation

open Arithmetic

/-- Combines the value of one operand. -/
def unary (f : Float → Float) : Operation :=
  .strict (fun _ => 1) fun _ values =>
    match values with
    | [x] => f x
    | _ => nan

/-- Combines the values of two operands. -/
def binary (f : Float → Float → Float) : Operation :=
  .strict (fun _ => 2) fun _ values =>
    match values with
    | [x, y] => f x y
    | _ => nan

/-- Combines the values of all operands from the left. The first operand is evaluated whatever the
argument count is. An argument count of one makes `single` of its value. -/
def folded (f : Float → Float → Float) (single : Float → Float) : Operation :=
  .strict (max 1) fun argCount values =>
    match values with
    | [] => nan
    | x :: rest => if argCount = 1 then single x else rest.foldl f x

/-- The mean of the values of all operands. -/
def mean : Operation :=
  .strict (max 1) fun argCount values =>
    match values with
    | [] => nan
    | x :: rest => rest.foldl (· + ·) x / Float.ofNat argCount

/-- Whether the number of true operands is odd. -/
def parity : Operation :=
  .strict id fun _ values => truth (values.countP holds % 2 = 1)

end Operation

open Operation in
/-- The operation of an opcode. -/
def Opcode.operation : Opcode → Operation
  | .add => folded (· + ·) id
  | .sub => folded (· - ·) (- ·)
  | .mul => folded (· * ·) id
  | .div => folded (· / ·) Arithmetic.reciprocal
  | .average => mean
  | .absolute => unary Float.abs
  | .square => unary Arithmetic.square
  | .cube => unary Arithmetic.cube
  | .squareRoot => unary Float.sqrt
  | .cubeRoot => unary Float.cbrt
  | .power => binary Arithmetic.power
  | .root => binary Arithmetic.root
  | .analyticQuotient => binary Arithmetic.analyticQuotient
  | .sin => unary Float.sin
  | .cos => unary Float.cos
  | .tan => unary Float.tan
  | .tanh => unary Float.tanh
  | .log => unary Float.log
  | .exp => unary Float.exp
  | .gamma => unary Special.gamma
  | .psi => unary Special.psi
  | .dawson => unary Special.dawson
  | .exponentialIntegralEi => unary Special.exponentialIntegral
  | .cosineIntegral => unary Special.cosineIntegral
  | .sineIntegral => unary Special.sineIntegral
  | .hyperbolicCosineIntegral => unary Special.hyperbolicCosineIntegral
  | .hyperbolicSineIntegral => unary Special.hyperbolicSineIntegral
  | .fresnelCosineIntegral => unary Special.fresnelCosine
  | .fresnelSineIntegral => unary Special.fresnelSine
  | .airyA => unary Special.airyA
  | .airyB => unary Special.airyB
  | .norm => unary Special.norm
  | .erf => unary Special.erf
  | .bessel => unary Special.besselI0
  | .negation => unary Arithmetic.negate
  | .exclusiveOr => parity
  | .greaterThan => binary fun x y => Arithmetic.truth (x > y)
  | .lessThan => binary fun x y => Arithmetic.truth (x < y)
  | .subFunction => unary id
  | .ifThenElse => .choice
  | .conjunction => .conjunction
  | .disjunction => .disjunction
  | .timeLag => .timeLag
  | .integral => .integral
  | .derivative => .derivative
  | .call => .call
  | .arg => .argument
  | .constant => .constant
  | .numericVariable => .numericVariable
  | .lagVariable => .lagVariable
  | .factorVariable => .factorVariable
  | .binaryFactorVariable => .binaryFactorVariable
  | .variableCondition => .variableCondition

end FormulaEngine
