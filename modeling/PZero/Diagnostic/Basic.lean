import PZero.Source.Token
import PZero.Ty

/-! # Diagnostics

A diagnostic carries the names, types and spans of its message, so that it can be
written without the tree it came from.
-/
namespace PZero

inductive Diagnostic
  | parseError (found : Token) (expected : List TokenKind)
  | lexicalError (token : Token)
  | redefinition (name : String) (span : Span)
  | operandsIncompatible (op : BinOp) (leftSpan : Span) (leftType : Ty) (rightSpan : Span)
      (rightType : Ty)
  | binaryOperandType (op : BinOp) (operandType : Ty) (span : Span)
  | resultMismatch (name : String) (expected found : Ty) (span : Span)
  | ifGuardNotBool (guardType : Ty) (span : Span)
  | invalidMain (span : Span)
  | argumentType (argumentType parameterType : Ty) (span : Span)
  | floatOverflow (text : String) (span : Span)
  | intOverflow (text : String) (span : Span)
  | argumentCount (arguments parameters : Nat) (span : Span)
  | branchesIncompatible (thenSpan elseSpan : Span)
  | ternaryGuardNotBool (guardSpan span : Span)
  | assignToConstant (name : String) (span : Span)
  | assignIncompatible (variableType : Ty) (span : Span) (expressionType : Ty)
      (expressionSpan : Span)
  | assignToFunction (name : String) (span : Span)
  | unitFunctionAsValue (name : String) (span : Span)
  | callConstant (name : String) (span : Span)
  | callVariable (name : String) (span : Span)
  | unaryOperandType (op : UnOp) (operandType : Ty) (span : Span)
  | referenceFunction (name : String) (span : Span)
  | valueFunctionAsStatement (name : String) (span : Span)
  | unknownIdentifier (name : String) (span : Span)
  | whileGuardNotBool (guardType : Ty) (span : Span)
  deriving DecidableEq

namespace Diagnostic

/-- The region of the source that a diagnostic points at. -/
def span : Diagnostic → Span
  | parseError found _ => found.span
  | lexicalError token => token.span
  | operandsIncompatible _ left _ right _ => left + right
  | branchesIncompatible left right => left + right
  | assignIncompatible _ span _ expressionSpan => span + expressionSpan
  | redefinition _ s | binaryOperandType _ _ s | resultMismatch _ _ _ s | ifGuardNotBool _ s
  | invalidMain s | argumentType _ _ s | floatOverflow _ s | intOverflow _ s
  | argumentCount _ _ s | ternaryGuardNotBool _ s | assignToConstant _ s | assignToFunction _ s
  | unitFunctionAsValue _ s | callConstant _ s | callVariable _ s | unaryOperandType _ _ s
  | referenceFunction _ s | valueFunctionAsStatement _ s | unknownIdentifier _ s
  | whileGuardNotBool _ s => s

/-- The kinds a parser would have accepted. -/
def expectedText : List TokenKind → String
  | [] => "nothing"
  | [k] => s!"'{k.text}'"
  | ks => "one of " ++ ", ".intercalate (ks.map fun k => s!"'{k.text}'")

/-- The span that opens the message; it differs from `span` in two cases. -/
def messageSpan : Diagnostic → Span
  | ternaryGuardNotBool guardSpan _ => guardSpan
  | assignIncompatible _ _ _ expressionSpan => expressionSpan
  | d => d.span

/-- What is wrong, without the place. -/
def complaint : Diagnostic → String
  | parseError found expected => s!"unexpected {found.text}, expected {expectedText expected}"
  | lexicalError token => s!"lexical error at {token.text}"
  | redefinition name _ => s!"attempt to redefine '{name}'"
  | operandsIncompatible op _ l _ r =>
    s!"operands of '{op.text}' are incompatible: {l.text} and {r.text}"
  | binaryOperandType op t _ =>
    s!"operator '{op.text}' does not accept an operand of type {t.text}"
  | resultMismatch name expected found _ =>
    s!"function '{name}' should return {expected.text} but returns {found.text}"
  | ifGuardNotBool t _ => s!"if guard must be Bool, found {t.text}"
  | invalidMain _ => "main must be a function without parameters or result type"
  | argumentType a p _ => s!"argument of type {a.text} passed where {p.text} is expected"
  | floatOverflow text _ => s!"float literal {text} overflows"
  | intOverflow text _ => s!"int literal {text} overflows"
  | argumentCount a p _ =>
    s!"call passes {a} argument(s) but {p} parameter(s) are declared"
  | branchesIncompatible _ _ => "branches of the ternary expression have different types"
  | ternaryGuardNotBool _ _ => "ternary guard must be Bool"
  | assignToConstant name _ => s!"unable to assign to constant '{name}'"
  | assignIncompatible v _ e _ => s!"unable to assign {e.text} to a variable of type {v.text}"
  | assignToFunction name _ => s!"unable to assign to function '{name}'"
  | unitFunctionAsValue name _ => s!"function '{name}' has no result and cannot be used as a value"
  | callConstant name _ => s!"constant '{name}' cannot be called"
  | callVariable name _ => s!"variable '{name}' cannot be called"
  | unaryOperandType op t _ =>
    s!"operator '{op.text}' does not accept an operand of type {t.text}"
  | referenceFunction name _ => s!"function '{name}' cannot be referenced as a value"
  | valueFunctionAsStatement name _ =>
    s!"function '{name}' returns a value and cannot be called as a statement"
  | unknownIdentifier name _ => s!"unknown identifier '{name}'"
  | whileGuardNotBool t _ => s!"while guard must be Bool, found {t.text}"

def message (d : Diagnostic) : String := s!"{d.messageSpan.text}: {d.complaint}"

/-- How many errors there are, in words. -/
def summary : Nat → String
  | 0 => "No errors"
  | 1 => "1 error"
  | n => s!"{n} errors"

end Diagnostic
end PZero
