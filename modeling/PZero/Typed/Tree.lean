import PZero.Single.Basic
import PZero.Ty

/-! # Typed trees

A program after analysis: literals are values and every expression has a type. The
body of the entry function is the statement of the program.
-/
namespace PZero.Typed

inductive Literal
  | bool (v : Bool)
  | int (v : Int32)
  | float (v : Single)
  | string (v : String)
  deriving DecidableEq, Inhabited

def Literal.ty : Literal → Ty
  | bool _ => .bool
  | int _ => .int
  | float _ => .float
  | string _ => .string

inductive Expr
  | ternary (guard yes no : Expr)
  | binary (op : BinOp) (left right : Expr)
  | unary (type : Ty) (op : UnOp) (operand : Expr)
  | call (type : Ty) (name : String) (arguments : List Expr)
  | name (type : Ty) (name : String)
  | literal (v : Literal)
  deriving Inhabited

/-- The type of an operator applied to operands of the given types. -/
def resultType (op : BinOp) (left right : Ty) : Ty :=
  if op.isArithmetic then if left == right && left.isNumeric then left else .error else .bool

def Expr.ty : Expr → Ty
  | ternary _ yes _ => yes.ty
  | binary op left right => resultType op left.ty right.ty
  | unary t _ _ | call t _ _ | name t _ => t
  | literal v => v.ty

/-- What a call statement calls. -/
inductive Callee
  | function (name : String)
  | print
  | println
  deriving DecidableEq, Inhabited

inductive Stmt
  | assign (name : String) (value : Expr)
  | declare (access : Access) (name : String) (value : Expr)
  | ifThen (guard : Expr) (yes : Stmt)
  | ifElse (guard : Expr) (yes no : Stmt)
  | whileDo (guard : Expr) (body : Stmt)
  | block (body : List Stmt)
  | call (callee : Callee) (arguments : List Expr)
  | empty
  deriving Inhabited

structure Function where
  name : String
  parameters : List (String × Ty)
  body : List Stmt
  /-- The expression whose value is the result. -/
  result : Option Expr
  deriving Inhabited

inductive Decl
  | global (access : Access) (name : String) (value : Literal)
  | function (f : Function)
  deriving Inhabited

def Decl.name : Decl → String
  | global _ name _ => name
  | function f => f.name

structure Program where
  declarations : List Decl
  /-- The body of the entry function, empty when there is none. -/
  statement : Stmt
  deriving Inhabited

end PZero.Typed
