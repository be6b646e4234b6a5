import FormulaEngine.NumberText

/-!
# Symbols

A symbol says what a node of a formula does and carries what it needs for that: a value, the name of
a variable, a time lag.

- `Symbol.name`: the name of the kind of symbol, without what it carries;
- `Symbol.variableName?`: the variable of the dataset that the symbol reads;
- `Symbol.label`: the text of the symbol in a written formula;
- `Symbol.bare`: the symbols that carry nothing.
-/

namespace FormulaEngine

/-- A shift in rows. -/
abbrev Lag := Int32

/-- What a node does. The set is closed; a symbol from outside is `custom` and cannot be
compiled. -/
inductive Symbol where
  -- structure of a whole formula
  | programRoot
  | start
  | defun (name : String)
  -- arithmetic
  | addition
  | subtraction
  | multiplication
  | division
  | average
  | power
  | root
  | square
  | squareRoot
  | cube
  | cubeRoot
  | absolute
  | analyticQuotient
  -- transcendental functions
  | sine
  | cosine
  | tangent
  | hyperbolicTangent
  | logarithm
  | exponential
  -- special functions
  | gamma
  | psi
  | dawson
  | exponentialIntegralEi
  | cosineIntegral
  | sineIntegral
  | hyperbolicCosineIntegral
  | hyperbolicSineIntegral
  | fresnelCosineIntegral
  | fresnelSineIntegral
  | airyA
  | airyB
  | norm
  | erf
  | bessel
  -- truth values and choice
  | ifThenElse
  | greaterThan
  | lessThan
  | conjunction
  | disjunction
  | negation
  | exclusiveOr
  -- leaves and readers of the dataset
  | constant (value : Float)
  | numericVariable (name : String) (weight : Float)
  | laggedVariable (name : String) (weight : Float) (lag : Lag)
  | factorVariable (name : String) (weights : List (String × Float))
  | binaryFactorVariable (name value : String) (weight : Float)
  | variableCondition (name : String) (threshold slope : Float) (ignoreSlope : Bool)
  -- time series
  | timeLag (lag : Lag)
  | integral (lag : Lag)
  | derivative
  -- functions
  | call (function : String)
  | argument (index : Nat)
  | subFunction (name : String)
  | custom (name : String)

namespace Symbol

/-- The name of the kind of symbol; a custom symbol goes by its own name. -/
def name : Symbol → String
  | programRoot => "ProgramRoot"
  | start => "Start"
  | defun _ => "Defun"
  | addition => "Addition"
  | subtraction => "Subtraction"
  | multiplication => "Multiplication"
  | division => "Division"
  | average => "Average"
  | power => "Power"
  | root => "Root"
  | square => "Square"
  | squareRoot => "SquareRoot"
  | cube => "Cube"
  | cubeRoot => "CubeRoot"
  | absolute => "Absolute"
  | analyticQuotient => "AnalyticQuotient"
  | sine => "Sine"
  | cosine => "Cosine"
  | tangent => "Tangent"
  | hyperbolicTangent => "HyperbolicTangent"
  | logarithm => "Logarithm"
  | exponential => "Exponential"
  | gamma => "Gamma"
  | psi => "Psi"
  | dawson => "Dawson"
  | exponentialIntegralEi => "ExponentialIntegralEi"
  | cosineIntegral => "CosineIntegral"
  | sineIntegral => "SineIntegral"
  | hyperbolicCosineIntegral => "HyperbolicCosineIntegral"
  | hyperbolicSineIntegral => "HyperbolicSineIntegral"
  | fresnelCosineIntegral => "FresnelCosineIntegral"
  | fresnelSineIntegral => "FresnelSineIntegral"
  | airyA => "AiryA"
  | airyB => "AiryB"
  | norm => "Norm"
  | erf => "Erf"
  | bessel => "Bessel"
  | ifThenElse => "IfThenElse"
  | greaterThan => "GreaterThan"
  | lessThan => "LessThan"
  | conjunction => "And"
  | disjunction => "Or"
  | negation => "Not"
  | exclusiveOr => "Xor"
  | constant _ => "Constant"
  | numericVariable _ _ => "Variable"
  | laggedVariable _ _ _ => "LaggedVariable"
  | factorVariable _ _ => "FactorVariable"
  | binaryFactorVariable _ _ _ => "BinaryFactorVariable"
  | variableCondition _ _ _ _ => "VariableCondition"
  | timeLag _ => "TimeLag"
  | integral _ => "Integral"
  | derivative => "Derivative"
  | call _ => "Call"
  | argument _ => "Argument"
  | subFunction _ => "SubFunction"
  | custom name => name

/-- The variable that the symbol reads from the dataset, if it reads one. -/
def variableName? : Symbol → Option String
  | numericVariable name _ | laggedVariable name _ _ | factorVariable name _
  | binaryFactorVariable name _ _ | variableCondition name _ _ _ => some name
  | _ => none

/-- The text of the symbol in a written formula. -/
def label : Symbol → String
  | constant value => NumberText.plain value
  | numericVariable name weight => NumberText.plain weight ++ "*" ++ name
  | laggedVariable name weight lag =>
    NumberText.plain weight ++ "*" ++ name ++ "[" ++ toString lag.toInt ++ "]"
  | call function => function
  | argument index => "ARG" ++ toString index
  | timeLag lag => "lag[" ++ toString lag.toInt ++ "]"
  | integral lag => "integral[" ++ toString lag.toInt ++ "]"
  | symbol => symbol.name

/-- The symbols that carry nothing beyond their kind. -/
def bare : List Symbol :=
  [programRoot, start, addition, subtraction, multiplication, division, average, power, root,
    square, squareRoot, cube, cubeRoot, absolute, analyticQuotient, sine, cosine, tangent,
    hyperbolicTangent, logarithm, exponential, gamma, psi, dawson, exponentialIntegralEi,
    cosineIntegral, sineIntegral, hyperbolicCosineIntegral, hyperbolicSineIntegral,
    fresnelCosineIntegral, fresnelSineIntegral, airyA, airyB, norm, erf, bessel, ifThenElse,
    greaterThan, lessThan, conjunction, disjunction, negation, exclusiveOr, derivative]

/-- The symbol without payload that goes by `name`. -/
def ofName? (name : String) : Option Symbol :=
  bare.find? (·.name == name)

end Symbol

end FormulaEngine
