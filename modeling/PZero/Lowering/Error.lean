import PZero.Ty

/-! # Why a typed tree has no machine code

The machine stores strings neither in local slots nor compares them, and a routine
has finitely many slots. The other causes only arise for trees with the error type.
-/
namespace PZero.Lowering

/-- An operation that exists for some types only. -/
inductive Operation
  | negation
  | localLoad
  | binary (op : BinOp)
  deriving DecidableEq

def Operation.text : Operation → String
  | negation => "unary -"
  | localLoad => "local load"
  | binary op => s!"operator {op.text}"

inductive Error
  | noSlot (name : String)
  | noStore (t : Ty)
  | unsupported (operation : Operation) (t : Ty)
  | unsupportedResult (name : String) (t : Ty)
  | errorType
  deriving DecidableEq

def Error.message : Error → String
  | noSlot name => s!"no local slot left for '{name}'"
  | noStore t => s!"no local slot store for type {t.text}"
  | unsupported operation t => s!"{operation.text} has no lowering for type {t.text}"
  | unsupportedResult name t => s!"function '{name}' returns unsupported type {t.text}"
  | errorType => "error type reached code generation"

end PZero.Lowering
