import PZero.Diagnostic.Basic
import PZero.Single.Text
import PZero.Surface.Tree
import PZero.Typed.Tree

/-! # Values of literals

An int literal is an optional sign and decimal digits; a text that denotes no int
of 32 bits counts as an overflow and stands for zero. A float literal overflows
when it rounds to infinity. In a string a backslash takes the next character with
it: two backslashes are one, every other pair is a quote.
-/
namespace PZero.Analysis

/-- The int that a text denotes. -/
def intOfText? (s : String) : Option Int32 :=
  let (negative, ds) := match s.toList with
    | '-' :: ds => (true, ds)
    | '+' :: ds => (false, ds)
    | ds => (false, ds)
  if ds.isEmpty || !ds.all Char.isDigit then none
  else
    let n : Int := if negative then -(Decimal.natOfDigits ds : Int) else Decimal.natOfDigits ds
    if Int32.minValue.toInt ≤ n && n ≤ Int32.maxValue.toInt then some (Int32.ofInt n) else none

/-- The contents of a string literal from behind its opening quote. -/
def unescapeChars : List Char → List Char
  | [] => []
  | '"' :: _ => []
  | '\\' :: '\\' :: rest => '\\' :: unescapeChars rest
  | '\\' :: _ :: rest => '"' :: unescapeChars rest
  | ['\\'] => []
  | c :: rest => c :: unescapeChars rest

/-- The contents of a string literal; a text without an opening quote is taken as it is. -/
def unescape (s : String) : String :=
  match s.toList with
  | '"' :: rest => String.ofList (unescapeChars rest)
  | _ => s

/-- The value of a literal, or what stands in for it. -/
def typedLiteral : Surface.Literal → Typed.Literal
  | .bool b _ => .bool b
  | .int text _ => .int ((intOfText? text).getD 0)
  | .float text _ => .float ((Single.ofText? text).getD .zero)
  | .string text _ => .string (unescape text)

def diagnoseLiteral : Surface.Literal → List Diagnostic
  | .int text span => if (intOfText? text).isSome then [] else [.intOverflow text span]
  | .float text span =>
    match Single.ofText? text with
    | some x => if x.isInfinite then [.floatOverflow text span] else []
    | none => [.floatOverflow text span]
  | .bool .. | .string .. => []

/-- The literal that an operator and a literal amount to, if the operator applies. A minus becomes
part of the number, so that the least int can be written. -/
def folded? : Surface.LiteralExpr → Option Surface.Literal
  | .value v => some v
  | .unary s .minus (.int text span) => some (.int ("-" ++ text) (s + span))
  | .unary s .minus (.float text span) => some (.float ("-" ++ text) (s + span))
  | .unary _ .plus (.int text span) => some (.int text span)
  | .unary _ .plus (.float text span) => some (.float text span)
  | .unary _ .not (.bool b span) => some (.bool (!b) span)
  | .unary .. => none

/-- The value of a global name; an operator that does not apply is dropped. -/
def typedLiteralExpr (e : Surface.LiteralExpr) : Typed.Literal :=
  match folded? e, e with
  | some v, _ => typedLiteral v
  | none, .value v | none, .unary _ _ v => typedLiteral v

def diagnoseLiteralExpr (e : Surface.LiteralExpr) : List Diagnostic :=
  match folded? e, e with
  | some v, _ => diagnoseLiteral v
  | none, .value v => diagnoseLiteral v
  | none, .unary _ op v => .unaryOperandType op v.ty v.span :: diagnoseLiteral v

end PZero.Analysis
