/-! # Types and operators of the language

The error type marks an expression whose mistake was already reported; it is
compatible with every type, so that one mistake does not cause another. Names of
values are constants or variables.
-/
namespace PZero

inductive Ty
  | int
  | float
  | bool
  | string
  | error
  deriving DecidableEq, Inhabited

namespace Ty

/-- Equal, or one of them is the error type. -/
def compatible (a b : Ty) : Bool := a == b || a == error || b == error

def isNumeric (t : Ty) : Bool := t == int || t == float

def isError (t : Ty) : Bool := t == error

/-- The type as messages show it. -/
def text : Ty → String
  | int => "Int"
  | float => "Float"
  | bool => "Bool"
  | string => "String"
  | error => "<error>"

/-- The type as data files name it. -/
def name : Ty → String
  | error => "TError"
  | t => t.text

def all : List Ty := [int, float, bool, string, error]

def ofName? (s : String) : Option Ty := all.find? (·.name == s)

end Ty

inductive BinOp
  | divide
  | minus
  | plus
  | times
  | equal
  | greaterEqual
  | greaterThan
  | lessEqual
  | lessThan
  | notEqual
  | and
  | or
  deriving DecidableEq, Inhabited

namespace BinOp

def isArithmetic : BinOp → Bool
  | plus | minus | times | divide => true
  | _ => false

def isBoolean : BinOp → Bool
  | and | or => true
  | _ => false

def isEquality : BinOp → Bool
  | equal | notEqual => true
  | _ => false

def isRelational : BinOp → Bool
  | lessThan | lessEqual | greaterThan | greaterEqual => true
  | _ => false

/-- The operator as it is written in a program. -/
def text : BinOp → String
  | divide => "/"
  | minus => "-"
  | plus => "+"
  | times => "*"
  | equal => "=="
  | greaterEqual => ">="
  | greaterThan => ">"
  | lessEqual => "<="
  | lessThan => "<"
  | notEqual => "!="
  | and => "&&"
  | or => "||"

/-- The operator as data files name it. -/
def name : BinOp → String
  | divide => "Divide"
  | minus => "Minus"
  | plus => "Plus"
  | times => "Times"
  | equal => "Equal"
  | greaterEqual => "GreaterEqual"
  | greaterThan => "GreaterThan"
  | lessEqual => "LessEqual"
  | lessThan => "LessThan"
  | notEqual => "NotEqual"
  | and => "And"
  | or => "Or"

def all : List BinOp :=
  [divide, minus, plus, times, equal, greaterEqual, greaterThan, lessEqual, lessThan, notEqual,
    and, or]

def ofName? (s : String) : Option BinOp := all.find? (·.name == s)

end BinOp

inductive UnOp
  | not
  | minus
  | plus
  deriving DecidableEq, Inhabited

namespace UnOp

/-- The operator as it is written in a program. -/
def text : UnOp → String
  | not => "!"
  | minus => "-"
  | plus => "+"

/-- The operator as data files name it. -/
def name : UnOp → String
  | not => "UnaryNot"
  | minus => "UnaryMinus"
  | plus => "UnaryPlus"

def all : List UnOp := [not, minus, plus]

def ofName? (s : String) : Option UnOp := all.find? (·.name == s)

end UnOp

/-- Whether a name may be assigned to. -/
inductive Access
  | readOnly
  | readWrite
  deriving DecidableEq, Inhabited

end PZero
