import PZero.Json.Reader
import PZero.Json.Record
import PZero.Surface.Tree

/-! # Reading surface trees

A program is a record whose field `declarations` lists its declarations; every
other node is a tagged record. Spans may be left out. The recursion follows the
nesting of the data.
-/
namespace PZero
open Json

def Location.ofJson? (j : Json) : Option Location := do
  let r ← record? ["offset", "line", "column"] j
  return {
    offset := ← r.optional "offset" 0 uint32?
    line := ← r.optional "line" 0 uint32?
    column := ← r.optional "column" 0 uint32? }

def Span.ofJson? (j : Json) : Option Span := do
  let r ← record? ["start", "end"] j
  return {
    start := ← r.optional "start" {} Location.ofJson?
    stop := ← r.optional "end" {} Location.ofJson? }

/-- A span that may be left out of a record. -/
def Json.Record.span (r : Record) (name : String) : Option Span := r.optional name {} Span.ofJson?

namespace Surface

def Identifier.ofJson? (j : Json) : Option Identifier := do
  let r ← record? ["name", "span"] j
  return { name := ← r.required "name" str?, span := ← r.span "span" }

def accessOfName? : String → Option Access
  | "ReadOnly" => some .readOnly
  | "ReadWrite" => some .readWrite
  | _ => none

def TypeName.ofName? : String → Option TypeName
  | "Int" => some .int
  | "Float" => some .float
  | "Bool" => some .bool
  | _ => none

def TypeName.ofJson? : Json → Option TypeName := choice? TypeName.ofName? true

def accessOfJson? : Json → Option Access := choice? accessOfName? true

def unOpOfJson? : Json → Option UnOp := choice? UnOp.ofName? true

def binOpOfJson? : Json → Option BinOp := choice? BinOp.ofName? true

def Literal.kinds : List String := ["Bool", "Int", "Float", "String"]

def Literal.ofJson? (inner : Bool) (j : Json) : Option Literal := do
  let (kind, rest) ← tagged? kinds inner j
  let r ← record? ["value", "span"] rest
  match kind with
  | "Bool" => return .bool (← r.required "value" bool?) (← r.span "span")
  | "Int" => return .int (← r.required "value" str?) (← r.span "span")
  | "Float" => return .float (← r.required "value" str?) (← r.span "span")
  | _ => return .string (← r.required "value" str?) (← r.span "span")

def LiteralExpr.kinds : List String := ["Value", "UnaryValue"]

def LiteralExpr.ofJson? (inner : Bool) (j : Json) : Option LiteralExpr := do
  let (kind, rest) ← tagged? kinds inner j
  match kind with
  | "Value" =>
    let r ← record? ["value"] rest
    return .value (← r.required "value" (Literal.ofJson? true))
  | _ =>
    let r ← record? ["span", "op", "value"] rest
    return .unary (← r.span "span") (← r.required "op" unOpOfJson?)
      (← r.required "value" (Literal.ofJson? true))

def Expr.kinds : List String :=
  ["Ternary", "Binary", "Unary", "Call", "IdentifierReference", "Parenthesis", "LiteralValue"]

/-- Reads an expression of the given nesting. -/
def Expr.read : Nat → Bool → Json → Option Expr
  | 0, _, _ => none
  | n + 1, inner, j => do
    let (kind, rest) ← tagged? kinds inner j
    match kind with
    | "Ternary" =>
      let r ← record? ["expression1", "expression2", "expression3"] rest
      return .ternary (← r.required "expression1" (read n true))
        (← r.required "expression2" (read n true)) (← r.required "expression3" (read n true))
    | "Binary" =>
      let r ← record? ["op", "expression1", "expression2"] rest
      return .binary (← r.required "op" binOpOfJson?) (← r.required "expression1" (read n true))
        (← r.required "expression2" (read n true))
    | "Unary" =>
      let r ← record? ["span", "op", "expression"] rest
      return .unary (← r.span "span") (← r.required "op" unOpOfJson?)
        (← r.required "expression" (read n true))
    | "Call" =>
      let r ← record? ["identifier", "expressions", "close"] rest
      return .call (← r.required "identifier" Identifier.ofJson?)
        (← r.optional "expressions" [] (list? (read n true))) (← r.span "close")
    | "IdentifierReference" =>
      let r ← record? ["identifier"] rest
      return .name (← r.required "identifier" Identifier.ofJson?)
    | "Parenthesis" =>
      let r ← record? ["span", "expression"] rest
      return .paren (← r.span "span") (← r.required "expression" (read n true))
    | _ =>
      let r ← record? ["value"] rest
      return .literal (← r.required "value" (Literal.ofJson? true))

/-- An expression; by itself its kind has to be given by name. -/
def Expr.ofJson? (inner : Bool) (j : Json) : Option Expr := Expr.read j.depth inner j

def Stmt.kinds : List String :=
  ["Assignment", "Declaration", "IfThenElse", "While", "Block", "Call", "Empty"]

/-- Reads a statement of the given nesting. -/
def Stmt.read : Nat → Json → Option Stmt
  | 0, _ => none
  | n + 1, j => do
    let (kind, rest) ← tagged? kinds true j
    match kind with
    | "Assignment" =>
      let r ← record? ["identifier", "expression"] rest
      return .assign (← r.required "identifier" Identifier.ofJson?)
        (← r.required "expression" (Expr.ofJson? true))
    | "Declaration" =>
      let r ← record? ["access", "identifier", "expression"] rest
      return .declare (← r.required "access" accessOfJson?)
        (← r.required "identifier" Identifier.ofJson?)
        (← r.required "expression" (Expr.ofJson? true))
    | "IfThenElse" =>
      let r ← record? ["expression", "statement1", "statement2"] rest
      let guard ← r.required "expression" (Expr.ofJson? true)
      let yes ← r.required "statement1" (read n)
      match ← r.optional "statement2" none (option? (read n)) with
      | none => return .ifThen guard yes
      | some no => return .ifElse guard yes no
    | "While" =>
      let r ← record? ["expression", "statement"] rest
      return .whileDo (← r.required "expression" (Expr.ofJson? true))
        (← r.required "statement" (read n))
    | "Block" =>
      let r ← record? ["statements"] rest
      return .block (← r.optional "statements" [] (list? (read n)))
    | "Call" =>
      let r ← record? ["identifier", "expressions"] rest
      return .call (← r.required "identifier" Identifier.ofJson?)
        (← r.optional "expressions" [] (list? (Expr.ofJson? true)))
    | _ =>
      let _ ← record? [] rest
      return .empty

def Stmt.ofJson? (j : Json) : Option Stmt := Stmt.read j.depth j

def Decl.kinds : List String := ["VariableDeclaration", "FunctionDeclaration"]

def Decl.ofJson? (j : Json) : Option Decl := do
  let (kind, rest) ← tagged? kinds false j
  match kind with
  | "VariableDeclaration" =>
    let r ← record? ["access", "identifier", "expression"] rest
    return .global (← r.required "access" accessOfJson?)
      (← r.required "identifier" Identifier.ofJson?)
      (← r.required "expression" (LiteralExpr.ofJson? true))
  | _ =>
    let r ← record? ["identifier", "arguments", "statements", "suffix"] rest
    return .function (← r.required "identifier" Identifier.ofJson?)
      (← r.optional "arguments" [] (list? (pair? Identifier.ofJson? TypeName.ofJson?)))
      (← r.optional "statements" [] (list? Stmt.ofJson?))
      (← r.optional "suffix" none (option? (pair? TypeName.ofJson? (Expr.ofJson? true))))

def Program.ofJson? (j : Json) : Option Program := do
  let r ← record? ["declarations"] j
  return { declarations := ← r.required "declarations" (list? Decl.ofJson?) }

/-- How deep the data of a program may be nested. -/
def maxNesting : Nat := 127

/-- Reads the text of a program. -/
def Program.parse? (text : String) : Option Program :=
  (Json.parse? { nesting := maxNesting, wanted := (· == "declarations") } text).bind
    Program.ofJson?

end Surface
end PZero
