import PZero.Source.Span
import PZero.Ty

/-! # Surface trees

A program as a parser delivers it: names are not resolved, literals are the text
they were written with, and every leaf knows where it stood. The span of an
expression is put together from those of its parts.
-/
namespace PZero.Surface

structure Identifier where
  name : String
  span : Span := {}
  deriving DecidableEq, Inhabited

/-- A type as a program can write it. -/
inductive TypeName
  | int
  | float
  | bool
  deriving DecidableEq, Inhabited

def TypeName.ty : TypeName → Ty
  | int => .int
  | float => .float
  | bool => .bool

/-- A literal; a string keeps its quotes and escapes. -/
inductive Literal
  | bool (value : Bool) (span : Span)
  | int (text : String) (span : Span)
  | float (text : String) (span : Span)
  | string (text : String) (span : Span)
  deriving DecidableEq, Inhabited

namespace Literal

def span : Literal → Span
  | bool _ s | int _ s | float _ s | string _ s => s

def ty : Literal → Ty
  | bool .. => .bool
  | int .. => .int
  | float .. => .float
  | string .. => .string

end Literal

/-- The initial value of a global name: a literal, or an operator in front of one. -/
inductive LiteralExpr
  | value (v : Literal)
  | unary (span : Span) (op : UnOp) (v : Literal)
  deriving DecidableEq, Inhabited

def LiteralExpr.span : LiteralExpr → Span
  | value v => v.span
  | unary s _ v => s + v.span

inductive Expr
  | ternary (guard yes no : Expr)
  | binary (op : BinOp) (left right : Expr)
  /-- The span is that of the operator. -/
  | unary (span : Span) (op : UnOp) (operand : Expr)
  /-- The last span is that of the closing parenthesis. -/
  | call (callee : Identifier) (arguments : List Expr) (close : Span)
  | name (identifier : Identifier)
  | paren (span : Span) (inner : Expr)
  | literal (v : Literal)
  deriving Inhabited

mutual

def Expr.span : Expr → Span
  | .ternary guard _ no => guard.span + no.span
  | .binary _ left right => left.span + right.span
  | .unary s _ operand => s + operand.span
  | .call callee arguments close => joinSpans (callee.span + close) arguments
  | .name identifier => identifier.span
  | .paren s _ => s
  | .literal v => v.span

/-- A span joined with those of expressions, one after the other. -/
def joinSpans (s : Span) : List Expr → Span
  | [] => s
  | e :: rest => joinSpans (s + e.span) rest

end

inductive Stmt
  | assign (target : Identifier) (value : Expr)
  | declare (access : Access) (identifier : Identifier) (value : Expr)
  | ifThen (guard : Expr) (yes : Stmt)
  | ifElse (guard : Expr) (yes no : Stmt)
  | whileDo (guard : Expr) (body : Stmt)
  | block (body : List Stmt)
  | call (callee : Identifier) (arguments : List Expr)
  | empty
  deriving Inhabited

inductive Decl
  | global (access : Access) (identifier : Identifier) (value : LiteralExpr)
  /-- A function with a result ends in the expression that gives it. -/
  | function (identifier : Identifier) (parameters : List (Identifier × TypeName))
      (body : List Stmt) (result : Option (TypeName × Expr))
  deriving Inhabited

def Decl.identifier : Decl → Identifier
  | global _ i _ => i
  | function i _ _ _ => i

structure Program where
  declarations : List Decl
  deriving Inhabited

end PZero.Surface
