import StepScript.Kind

/-! Causes of failure, with their wording and the code a host reports. A cause carries the text or
the kinds at fault; the line number is added when it leaves a step. -/
namespace StepScript

/-- The ways in which a statement can be out of shape. -/
inductive Malformation where
  | target
  | noAssignment
  | noExpression
  | textAfterCall
  | noCall
  | noMethodName
  | emptyArgument
deriving DecidableEq

def Malformation.message : Malformation → String
  | .target => "assignment target"
  | .noAssignment => "declaration, no '=' found"
  | .noExpression => "declaration, nothing after '='"
  | .textAfterCall => "method call, text after ')'"
  | .noCall => "method call, no '(' found"
  | .noMethodName => "method call, no method name"
  | .emptyArgument => "method call, empty argument"

inductive Error where
  | unterminatedString (column : Nat)
  | unmatchedParens (text : Text)
  | missingTerminator
  | unsupportedPreceder (word : Text)
  | unsupportedMethod (name : Text)
  | unsupportedType (name : Text)
  | unsupportedStringOperator (gap : Text)
  | unsupportedOperator (symbol : Text)
  | tooFewArguments (method : Text) (required given : Nat)
  | tooManyArguments (method : Text) (allowed given : Nat)
  | argumentType (method : Text) (index : Nat) (expected found : Kind)
  | comparisonType (symbol : Text) (left right : Kind)
  | operandType (expected found : Kind)
  | typeRedeclaration (name : Text) (declared requested : Kind)
  | returnTypeMismatch (name method : Text) (declared returned : Kind)
  | noReturnValue (method : Text)
  | unknownVariable (name : Text)
  | duplicateVariable (name : Text)
  | invalidVariableName (name : Text)
  | missingType (name : Text)
  | nestedLoop
  | missingOpenBrace
  | unmatchedBraces
  | operandCount (operators operands : Nat)
  | unrecognizedOperand (text : Text)
  | expectedString (text : Text)
  | invalidLiteral (kind : Kind) (text : Text)
  | malformed (what : Malformation) (text : Text)
  | divisionByZero
  | invalidArgument (method message : Text)
  | duplicateRegistration (name : Text)
  | blankName
deriving DecidableEq

/-- Coarse grouping of errors. -/
inductive Category where
  | lexical
  | unsupportedPreceder
  | unsupportedMethod
  | unsupportedType
  | arity
  | typeMismatch
  | unknownVariable
  | nestedLoop
  | missingOpenBrace
  | unmatchedBraces
  | grammar
  | runtime
  | setup
deriving DecidableEq

def Category.code : Category → String
  | .lexical => "E001"
  | .unsupportedPreceder => "E002"
  | .unsupportedMethod => "E003"
  | .unsupportedType => "E004"
  | .arity => "E005"
  | .typeMismatch => "E006"
  | .unknownVariable => "E007"
  | .nestedLoop => "E008"
  | .missingOpenBrace => "E009"
  | .unmatchedBraces => "E010"
  | .grammar => "E011"
  | .runtime => "E012"
  | .setup => "E013"

namespace Error

def category : Error → Category
  | .unterminatedString _ | .unmatchedParens _ | .missingTerminator => .lexical
  | .unsupportedPreceder _ => .unsupportedPreceder
  | .unsupportedMethod _ => .unsupportedMethod
  | .unsupportedType _ => .unsupportedType
  | .tooFewArguments .. | .tooManyArguments .. => .arity
  | .argumentType .. | .comparisonType .. | .operandType .. | .typeRedeclaration ..
  | .returnTypeMismatch .. | .noReturnValue _ => .typeMismatch
  | .unknownVariable _ => .unknownVariable
  | .nestedLoop => .nestedLoop
  | .missingOpenBrace => .missingOpenBrace
  | .unmatchedBraces => .unmatchedBraces
  | .unsupportedStringOperator _ | .unsupportedOperator _ | .invalidVariableName _
  | .missingType _ | .operandCount .. | .unrecognizedOperand _ | .expectedString _
  | .invalidLiteral .. | .malformed .. => .grammar
  | .divisionByZero | .invalidArgument .. => .runtime
  | .duplicateVariable _ | .duplicateRegistration _ | .blankName => .setup

private def quoted (t : Text) : String :=
  "'" ++ String.ofList t ++ "'"

private def number (n : Nat) : String :=
  String.ofList (Nat.toDigits 10 n)

def message : Error → String
  | .unterminatedString column =>
    "string literal opened at column " ++ number column ++ " is not closed with another '\"'"
  | .unmatchedParens text => quoted text ++ " does not have matching '(' and ')'"
  | .missingTerminator => "statement must end with ';'"
  | .unsupportedPreceder word => "line preceder " ++ quoted word ++ " is not supported"
  | .unsupportedMethod name => "method " ++ quoted name ++ " is not supported"
  | .unsupportedType name => "type " ++ quoted name ++ " is not supported"
  | .unsupportedStringOperator gap =>
    "operator " ++ quoted gap ++ " is not supported between strings; only '+' is"
  | .unsupportedOperator symbol => "operator " ++ quoted symbol ++ " is not supported"
  | .tooFewArguments method required given =>
    String.ofList method ++ ": too few arguments passed (expected at least " ++
      number required ++ ", got " ++ number given ++ ")"
  | .tooManyArguments method allowed given =>
    String.ofList method ++ ": too many arguments passed (expected at most " ++
      number allowed ++ ", got " ++ number given ++ ")"
  | .argumentType method index expected found =>
    String.ofList method ++ ": argument " ++ number index ++ " must be " ++ expected.name ++
      ", got " ++ found.name
  | .comparisonType symbol left right =>
    "operator " ++ quoted symbol ++ " compares Int or Double values, got " ++ left.name ++
      " and " ++ right.name
  | .operandType expected found =>
    "expected a " ++ expected.name ++ " operand, found " ++ found.name
  | .typeRedeclaration name declared requested =>
    "variable " ++ quoted name ++ " is " ++ declared.name ++ " and cannot be redeclared as " ++
      requested.name
  | .returnTypeMismatch name method declared returned =>
    "variable " ++ quoted name ++ " is " ++ declared.name ++ " but " ++ String.ofList method ++
      " returns " ++ returned.name
  | .noReturnValue method => String.ofList method ++ " does not return a value"
  | .unknownVariable name => "variable name " ++ quoted name ++ " is unknown"
  | .duplicateVariable name => "variable " ++ quoted name ++ " is already registered"
  | .invalidVariableName name =>
    "variable name " ++ quoted name ++
      " can only contain the characters a-z, A-Z, 0-9 and '_'"
  | .missingType name => "new variable " ++ quoted name ++ " must be declared with a type"
  | .nestedLoop => "only one unnested while loop may be active at a time"
  | .missingOpenBrace => "while loop must be followed by '\x7b'"
  | .unmatchedBraces => "while loop must be closed by '\x7d'"
  | .operandCount operators operands =>
    number operators ++ " operator(s) need " ++ number (operators + 1) ++ " operands, found " ++
      number operands
  | .unrecognizedOperand text => "value not supported or recognized: " ++ String.ofList text
  | .expectedString text => "strings must be declared with '\"': " ++ String.ofList text
  | .invalidLiteral kind text => "cannot read " ++ quoted text ++ " as " ++ kind.name
  | .malformed what text => "malformed " ++ what.message ++ ": " ++ String.ofList text
  | .divisionByZero => "division by zero"
  | .invalidArgument method message => String.ofList method ++ ": " ++ String.ofList message
  | .duplicateRegistration name => quoted name ++ " is already registered"
  | .blankName => "language name cannot be blank"

end Error
end StepScript
