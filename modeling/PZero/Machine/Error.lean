import PZero.Bytecode.Error
import PZero.Machine.Value

/-! # Why a run stops early

A fault happens inside a routine and names the instruction; the other errors
concern the run as a whole.
-/
namespace PZero.Machine

inductive Fault
  | divisionByZero
  | stackUnderflow
  | typeMismatch (expected found : Kind)
  | badLocal (slot : UInt16)
  | fellOffEnd
  deriving DecidableEq

def Fault.message : Fault → String
  | divisionByZero => "division by zero"
  | stackUnderflow => "operand stack underflow"
  | typeMismatch expected found =>
    s!"expected {expected.name} on the operand stack, found {found.name}"
  | badLocal slot => s!"local slot {slot} is out of range"
  | fellOffEnd => "execution ran past the end of the routine"

inductive Error
  | fault (routine : String) (pc : Nat) (fault : Fault)
  | unknownRoutine (name : String)
  | unknownField (name : String)
  | callDepthExceeded (limit : Nat)
  | stepLimitExceeded (limit : Nat)
  | output (message : String)
  | load (error : Bytecode.Error)
  deriving DecidableEq

def Error.message : Error → String
  | fault routine pc f => s!"{routine} @ {pc}: {f.message}"
  | unknownRoutine name => s!"no routine named '{name}'"
  | unknownField name => s!"no static field named '{name}'"
  | callDepthExceeded limit => s!"call depth exceeded {limit}"
  | stepLimitExceeded limit => s!"step limit of {limit} exceeded"
  | output message => s!"Output error: {message}"
  | load error => error.message

end PZero.Machine
