import PZero.Diagnostic.Basic
import PZero.Json.Basic

/-! # Diagnostics as data

Each diagnostic is an object whose member `kind` names it and whose other members
are what it carries.
-/
namespace PZero
open Json

def Location.toJson (l : Location) : Json :=
  obj [("offset", ofNat l.offset.toNat), ("line", ofNat l.line.toNat),
    ("column", ofNat l.column.toNat)]

def Span.toJson (s : Span) : Json := obj [("start", s.start.toJson), ("end", s.stop.toJson)]

def Token.toJson (t : Token) : Json :=
  obj [("kind", str t.kind.name), ("span", t.span.toJson), ("lexeme", str t.lexeme)]

namespace Diagnostic

/-- The name of the diagnostic's kind. -/
def kind : Diagnostic → String
  | parseError .. => "ParseError"
  | lexicalError .. => "LexicalError"
  | redefinition .. => "AttemptToRedefineDeclaration"
  | operandsIncompatible .. => "BinaryExpressionOperandsIncompatible"
  | binaryOperandType .. => "BinaryExpressionRequiresOperandType"
  | resultMismatch .. => "FunctionReturnTypeMismatch"
  | ifGuardNotBool .. => "IfGuardNotBoolean"
  | invalidMain .. => "InvalidDeclarationOfMain"
  | argumentType .. => "IncompatibleArgumentType"
  | floatOverflow .. => "LiteralFloatOverflow"
  | intOverflow .. => "LiteralIntOverflow"
  | argumentCount .. => "MismatchInNumberOfParameters"
  | branchesIncompatible .. => "TernaryExpressionResultIncompatible"
  | ternaryGuardNotBool .. => "TernaryExpressionNotBoolean"
  | assignToConstant .. => "UnableToAssignToConstant"
  | assignIncompatible .. => "UnableToAssignIncompatibleTypes"
  | assignToFunction .. => "UnableToAssignToFunction"
  | unitFunctionAsValue .. => "UnableToCallUnitFunctionAsValueFunction"
  | callConstant .. => "UnableToCallConstantAsFunction"
  | callVariable .. => "UnableToCallVariableAsFunction"
  | unaryOperandType .. => "UnaryExpressionRequiresOperandType"
  | referenceFunction .. => "UnableToReferenceFunction"
  | valueFunctionAsStatement .. => "UnableToCallValueFunctionAsUnitFunction"
  | unknownIdentifier .. => "UnknownIdentifier"
  | whileGuardNotBool .. => "WhileGuardNotBoolean"

def members : Diagnostic → List (String × Json)
  | parseError found expected =>
    [("found", found.toJson), ("expected", arr (expected.map fun k => str k.name))]
  | lexicalError token => [("token", token.toJson)]
  | operandsIncompatible op leftSpan leftType rightSpan rightType =>
    [("op", str op.name), ("left_span", leftSpan.toJson), ("left_type", str leftType.name),
      ("right_span", rightSpan.toJson), ("right_type", str rightType.name)]
  | binaryOperandType op t span =>
    [("op", str op.name), ("operand_type", str t.name), ("span", span.toJson)]
  | unaryOperandType op t span =>
    [("op", str op.name), ("operand_type", str t.name), ("span", span.toJson)]
  | resultMismatch name expected found span =>
    [("name", str name), ("expected", str expected.name), ("found", str found.name),
      ("span", span.toJson)]
  | ifGuardNotBool t span | whileGuardNotBool t span =>
    [("guard_type", str t.name), ("span", span.toJson)]
  | invalidMain span => [("span", span.toJson)]
  | argumentType a p span =>
    [("argument_type", str a.name), ("parameter_type", str p.name), ("span", span.toJson)]
  | floatOverflow text span | intOverflow text span =>
    [("text", str text), ("span", span.toJson)]
  | argumentCount a p span =>
    [("arguments", ofNat a), ("parameters", ofNat p), ("span", span.toJson)]
  | branchesIncompatible thenSpan elseSpan =>
    [("then_span", thenSpan.toJson), ("else_span", elseSpan.toJson)]
  | ternaryGuardNotBool guardSpan span =>
    [("guard_span", guardSpan.toJson), ("span", span.toJson)]
  | assignIncompatible v span e expressionSpan =>
    [("variable_type", str v.name), ("span", span.toJson), ("expression_type", str e.name),
      ("expression_span", expressionSpan.toJson)]
  | redefinition name span | assignToConstant name span | assignToFunction name span
  | unitFunctionAsValue name span | callConstant name span | callVariable name span
  | referenceFunction name span | valueFunctionAsStatement name span
  | unknownIdentifier name span => [("name", str name), ("span", span.toJson)]

def toJson (d : Diagnostic) : Json := obj (("kind", str d.kind) :: d.members)

end Diagnostic
end PZero
