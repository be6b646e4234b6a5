import FormulaEngine.Symbol

/-!
# Opcodes

An opcode is the operation of one compiled instruction. Every symbol that can be compiled has one.

- `Opcode.code`, `Opcode.ofCode?`: the numbers of the opcodes, from 1 to 53;
- `Opcode.arity`: the child counts that a node with the opcode may have;
- `Opcode.readsColumn`: whether an instruction with the opcode reads a column of the dataset;
- `Symbol.opcode?`: the opcode of a symbol.

`ofCode?_code` says that an opcode is found under its number.
-/

namespace FormulaEngine

/-- The operation of one instruction. -/
inductive Opcode where
  | add
  | sub
  | mul
  | div
  | sin
  | cos
  | tan
  | log
  | exp
  | ifThenElse
  | greaterThan
  | lessThan
  | conjunction
  | disjunction
  | negation
  | average
  | call
  | numericVariable
  | lagVariable
  | constant
  | arg
  | power
  | root
  | timeLag
  | integral
  | derivative
  | variableCondition
  | square
  | squareRoot
  | gamma
  | psi
  | dawson
  | exponentialIntegralEi
  | cosineIntegral
  | sineIntegral
  | hyperbolicCosineIntegral
  | hyperbolicSineIntegral
  | fresnelCosineIntegral
  | fresnelSineIntegral
  | airyA
  | airyB
  | norm
  | erf
  | bessel
  | exclusiveOr
  | factorVariable
  | binaryFactorVariable
  | absolute
  | analyticQuotient
  | cube
  | cubeRoot
  | tanh
  | subFunction
deriving DecidableEq

/-- The child counts that are accepted. -/
inductive Arity where
  | exactly (count : Nat)
  | atLeast (count : Nat)
deriving DecidableEq

/-- Whether a node may have `count` children. -/
def Arity.accepts : Arity → (count : Nat) → Bool
  | exactly n, count => count = n
  | atLeast n, count => n ≤ count

namespace Opcode

/-- All opcodes in the order of their numbers. -/
def all : List Opcode :=
  [add, sub, mul, div, sin, cos, tan, log, exp, ifThenElse, greaterThan, lessThan, conjunction,
    disjunction, negation, average, call, numericVariable, lagVariable, constant, arg, power,
    root, timeLag, integral, derivative, variableCondition, square, squareRoot, gamma, psi,
    dawson, exponentialIntegralEi, cosineIntegral, sineIntegral, hyperbolicCosineIntegral,
    hyperbolicSineIntegral, fresnelCosineIntegral, fresnelSineIntegral, airyA, airyB, norm, erf,
    bessel, exclusiveOr, factorVariable, binaryFactorVariable, absolute, analyticQuotient, cube,
    cubeRoot, tanh, subFunction]

/-- The number of an opcode. -/
def code (op : Opcode) : Nat := op.ctorIdx + 1

/-- The opcode with the given number. -/
def ofCode? : (code : Nat) → Option Opcode
  | 0 => none
  | n + 1 => all[n]?

/-- An opcode is found under its number. -/
theorem ofCode?_code (op : Opcode) : ofCode? op.code = some op := by
  cases op <;> rfl

/-- The name of an opcode. -/
def name : Opcode → String
  | add => "Add"
  | sub => "Sub"
  | mul => "Mul"
  | div => "Div"
  | sin => "Sin"
  | cos => "Cos"
  | tan => "Tan"
  | log => "Log"
  | exp => "Exp"
  | ifThenElse => "IfThenElse"
  | greaterThan => "GreaterThan"
  | lessThan => "LessThan"
  | conjunction => "And"
  | disjunction => "Or"
  | negation => "Not"
  | average => "Average"
  | call => "Call"
  | numericVariable => "Variable"
  | lagVariable => "LagVariable"
  | constant => "Constant"
  | arg => "Arg"
  | power => "Power"
  | root => "Root"
  | timeLag => "TimeLag"
  | integral => "Integral"
  | derivative => "Derivative"
  | variableCondition => "VariableCondition"
  | square => "Square"
  | squareRoot => "SquareRoot"
  | gamma => "Gamma"
  | psi => "Psi"
  | dawson => "Dawson"
  | exponentialIntegralEi => "ExponentialIntegralEi"
  | cosineIntegral => "CosineIntegral"
  | sineIntegral => "SineIntegral"
  | hyperbolicCosineIntegral => "HyperbolicCosineIntegral"
  | hyperbolicSineIntegral => "HyperbolicSineIntegral"
  | fresnelCosineIntegral => "FresnelCosineIntegral"
  | fresnelSineIntegral => "FresnelSineIntegral"
  | airyA => "AiryA"
  | airyB => "AiryB"
  | norm => "Norm"
  | erf => "Erf"
  | bessel => "Bessel"
  | exclusiveOr => "Xor"
  | factorVariable => "FactorVariable"
  | binaryFactorVariable => "BinaryFactorVariable"
  | absolute => "Absolute"
  | analyticQuotient => "AnalyticQuotient"
  | cube => "Cube"
  | cubeRoot => "CubeRoot"
  | tanh => "Tanh"
  | subFunction => "SubFunction"

/-- The opcode that goes by `name`. -/
def ofName? (name : String) : Option Opcode :=
  all.find? (·.name == name)

/-- The child counts of nodes with the opcode. A call takes any number of arguments. -/
def arity : Opcode → Arity
  | add | sub | mul | div | average | conjunction | disjunction | exclusiveOr => .atLeast 1
  | call => .atLeast 0
  | ifThenElse => .exactly 3
  | greaterThan | lessThan | power | root | analyticQuotient | variableCondition =>
    .exactly 2
  | numericVariable | lagVariable | constant | arg | factorVariable | binaryFactorVariable =>
    .exactly 0
  | sin | cos | tan | log | exp | negation | timeLag | integral | derivative | square | squareRoot
  | gamma | psi | dawson | exponentialIntegralEi | cosineIntegral | sineIntegral |
  hyperbolicCosineIntegral | hyperbolicSineIntegral | fresnelCosineIntegral | fresnelSineIntegral
  | airyA | airyB | norm | erf | bessel | absolute | cube | cubeRoot | tanh | subFunction =>
    .exactly 1

/-- Whether the instruction reads a categorical column. -/
def readsCategories : Opcode → Bool
  | factorVariable | binaryFactorVariable => true
  | _ => false

/-- Whether the instruction reads a column of the dataset. -/
def readsColumn : Opcode → Bool
  | numericVariable | lagVariable | variableCondition | factorVariable | binaryFactorVariable =>
    true
  | _ => false

end Opcode

/-- The opcode of a symbol. Symbols of the outer structure and custom symbols have none. -/
def Symbol.opcode? : Symbol → Option Opcode
  | .programRoot | .start | .defun _ | .custom _ => none
  | .addition => some .add
  | .subtraction => some .sub
  | .multiplication => some .mul
  | .division => some .div
  | .average => some .average
  | .power => some .power
  | .root => some .root
  | .square => some .square
  | .squareRoot => some .squareRoot
  | .cube => some .cube
  | .cubeRoot => some .cubeRoot
  | .absolute => some .absolute
  | .analyticQuotient => some .analyticQuotient
  | .sine => some .sin
  | .cosine => some .cos
  | .tangent => some .tan
  | .hyperbolicTangent => some .tanh
  | .logarithm => some .log
  | .exponential => some .exp
  | .gamma => some .gamma
  | .psi => some .psi
  | .dawson => some .dawson
  | .exponentialIntegralEi => some .exponentialIntegralEi
  | .cosineIntegral => some .cosineIntegral
  | .sineIntegral => some .sineIntegral
  | .hyperbolicCosineIntegral => some .hyperbolicCosineIntegral
  | .hyperbolicSineIntegral => some .hyperbolicSineIntegral
  | .fresnelCosineIntegral => some .fresnelCosineIntegral
  | .fresnelSineIntegral => some .fresnelSineIntegral
  | .airyA => some .airyA
  | .airyB => some .airyB
  | .norm => some .norm
  | .erf => some .erf
  | .bessel => some .bessel
  | .ifThenElse => some .ifThenElse
  | .greaterThan => some .greaterThan
  | .lessThan => some .lessThan
  | .conjunction => some .conjunction
  | .disjunction => some .disjunction
  | .negation => some .negation
  | .exclusiveOr => some .exclusiveOr
  | .constant _ => some .constant
  | .numericVariable _ _ => some .numericVariable
  | .laggedVariable _ _ _ => some .lagVariable
  | .factorVariable _ _ => some .factorVariable
  | .binaryFactorVariable _ _ _ => some .binaryFactorVariable
  | .variableCondition _ _ _ _ => some .variableCondition
  | .timeLag _ => some .timeLag
  | .integral _ => some .integral
  | .derivative => some .derivative
  | .call _ => some .call
  | .argument _ => some .arg
  | .subFunction _ => some .subFunction

end FormulaEngine
