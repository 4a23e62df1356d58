import PZero.Scope
import PZero.Surface.Tree

/-! # What names mean

A name stands for a constant, a variable or a function. What a declaration binds
its name to is read off its shape, before anything is analysed.
-/
namespace PZero.Analysis

inductive Binding
  | const (t : Ty)
  | var (t : Ty)
  | function (parameters : List Ty) (result : Option Ty)
  deriving DecidableEq, Inhabited

abbrev Env := Scope Binding

/-- A name that holds a value. -/
def Binding.ofAccess (access : Access) (t : Ty) : Binding :=
  match access with
  | .readOnly => const t
  | .readWrite => var t

/-- The type of an initial value; a negation is a truth value whatever it is applied to. -/
def literalExprType : Surface.LiteralExpr → Ty
  | .value v => v.ty
  | .unary _ .not _ => .bool
  | .unary _ _ v => v.ty

def Binding.ofDecl : Surface.Decl → Binding
  | .global access _ value => ofAccess access (literalExprType value)
  | .function _ parameters _ result =>
    function (parameters.map (·.2.ty)) (result.map (·.1.ty))

end PZero.Analysis
