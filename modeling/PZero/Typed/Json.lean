import PZero.Json.Basic
import PZero.Typed.Tree

/-! # Typed trees as data

Nodes are objects whose first member `kind` names them. How a float is written is
left to the caller.
-/
namespace PZero.Typed
open Json

def Literal.toJson (float : Single → Json) : Literal → Json
  | .bool v => obj [("Bool", Json.bool v)]
  | .int v => obj [("Int", ofInt v.toInt)]
  | .float v => obj [("Float", float v)]
  | .string v => obj [("String", str v)]

mutual

def Expr.toJson (float : Single → Json) : Expr → Json
  | .ternary guard yes no =>
    obj [("kind", str "Ternary"), ("guard", guard.toJson float), ("then", yes.toJson float),
      ("otherwise", no.toJson float)]
  | .binary op left right =>
    obj [("kind", str "Binary"), ("op", str op.name), ("left", left.toJson float),
      ("right", right.toJson float)]
  | .unary t op operand =>
    obj [("kind", str "Unary"), ("expr_type", str t.name), ("op", str op.name),
      ("operand", operand.toJson float)]
  | .call t name arguments =>
    obj [("kind", str "Call"), ("expr_type", str t.name), ("name", str name),
      ("arguments", arr (exprsToJson float arguments))]
  | .name t name =>
    obj [("kind", str "IdentifierReference"), ("expr_type", str t.name), ("name", str name)]
  | .literal v => obj [("kind", str "Literal"), ("value", v.toJson float)]

def exprsToJson (float : Single → Json) : List Expr → List Json
  | [] => []
  | e :: rest => e.toJson float :: exprsToJson float rest

end

def Callee.toJson : Callee → Json
  | .function name => obj [("Function", str name)]
  | .print => str "Print"
  | .println => str "Println"

def declarationKind : Access → String
  | .readOnly => "ConstantDeclaration"
  | .readWrite => "VariableDeclaration"

mutual

def Stmt.toJson (float : Single → Json) : Stmt → Json
  | .assign name value =>
    obj [("kind", str "Assignment"), ("name", str name), ("expression", value.toJson float)]
  | .declare access name value =>
    obj [("kind", str (declarationKind access)), ("name", str name),
      ("expression", value.toJson float)]
  | .ifThen guard yes =>
    obj [("kind", str "IfThenElse"), ("guard", guard.toJson float), ("then", yes.toJson float),
      ("otherwise", null)]
  | .ifElse guard yes no =>
    obj [("kind", str "IfThenElse"), ("guard", guard.toJson float), ("then", yes.toJson float),
      ("otherwise", no.toJson float)]
  | .whileDo guard body =>
    obj [("kind", str "While"), ("guard", guard.toJson float), ("body", body.toJson float)]
  | .block body => obj [("kind", str "Block"), ("statements", arr (stmtsToJson float body))]
  | .call callee arguments =>
    obj [("kind", str "Call"), ("callee", callee.toJson),
      ("arguments", arr (exprsToJson float arguments))]
  | .empty => obj [("kind", str "Empty")]

def stmtsToJson (float : Single → Json) : List Stmt → List Json
  | [] => []
  | s :: rest => s.toJson float :: stmtsToJson float rest

end

def Decl.toJson (float : Single → Json) : Decl → Json
  | .global access name value =>
    let kind := match access with
      | .readOnly => "Constant"
      | .readWrite => "Variable"
    obj [("kind", str kind), ("name", str name), ("value", value.toJson float)]
  | .function f =>
    obj [("kind", str "Function"), ("name", str f.name),
      ("parameters", arr (f.parameters.map fun p => arr [str p.1, str p.2.name])),
      ("body", arr (stmtsToJson float f.body)),
      ("result", ofOption (Expr.toJson float) f.result)]

def Program.toJson (float : Single → Json) (p : Program) : Json :=
  obj [("declarations", arr (p.declarations.map (Decl.toJson float))),
    ("statement", p.statement.toJson float)]

end PZero.Typed
