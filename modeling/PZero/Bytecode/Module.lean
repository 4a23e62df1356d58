import PZero.Bytecode.Instruction

/-! # Modules

A module is what a program is compiled to: static fields with their initial values
and routines.
-/
namespace PZero.Bytecode

/-- The initial value of a field. -/
inductive Constant
  | int (v : Int32)
  | float (v : Single)
  | bool (v : Bool)
  | string (v : String)
  deriving DecidableEq, Inhabited

def Constant.type : Constant → FieldType
  | int _ => .int
  | float _ => .float
  | bool _ => .bool
  | string _ => .string

structure Field where
  name : String
  isFinal : Bool
  type : FieldType
  initial : Constant
  deriving DecidableEq, Inhabited

structure Routine where
  name : String
  descriptor : Descriptor
  /-- How many local slots an activation needs. -/
  maxLocals : UInt16
  code : Array Instruction
  deriving DecidableEq, Inhabited

structure Module where
  name : String
  fields : List Field
  routines : List Routine
  deriving DecidableEq, Inhabited

namespace Module

/-- The first field of a name. -/
def field? (m : Module) (name : String) : Option Field := m.fields.find? (·.name == name)

/-- The first routine of a name. -/
def routine? (m : Module) (name : String) : Option Routine := m.routines.find? (·.name == name)

end Module
end PZero.Bytecode
