import PZero.Bytecode.Descriptor
import PZero.Single.Basic

/-! # Instructions of the stack machine

The machine has an operand stack, numbered local slots, static fields owned by a
module, and an output stream. Truth values are the ints 0 and 1. Jump targets
count the instructions of the routine from 0.
-/
namespace PZero.Bytecode

/-- How an int has to compare for a jump to be taken. -/
inductive Condition
  | eq
  | ne
  | lt
  | le
  | gt
  | ge
  deriving DecidableEq, Inhabited

namespace Condition

def holds : Condition → Ordering → Bool
  | eq, o => o == .eq
  | ne, o => o != .eq
  | lt, o => o == .lt
  | le, o => o != .gt
  | gt, o => o == .gt
  | ge, o => o != .lt

def byte : Condition → UInt8
  | eq => 0
  | ne => 1
  | lt => 2
  | le => 3
  | gt => 4
  | ge => 5

def text : Condition → String
  | eq => "eq"
  | ne => "ne"
  | lt => "lt"
  | le => "le"
  | gt => "gt"
  | ge => "ge"

def name : Condition → String
  | eq => "Eq"
  | ne => "Ne"
  | lt => "Lt"
  | le => "Le"
  | gt => "Gt"
  | ge => "Ge"

def all : List Condition := [eq, ne, lt, le, gt, ge]

def ofByte? (b : UInt8) : Option Condition := all.find? (·.byte == b)

def ofName? (s : String) : Option Condition := all.find? (·.name == s)

theorem ofByte?_byte (c : Condition) : ofByte? c.byte = some c := by
  cases c <;> rfl

end Condition

/-- What an instruction does, without its operands. -/
inductive Opcode
  | iconst | fconst | sconst
  | iload | fload | istore | fstore | getStatic | putStatic
  | iadd | isub | imul | idiv | ineg | fadd | fsub | fmul | fdiv | fneg
  | iand | ior | ixor | fcmpg
  | ifZero | ifCompare | goto
  | invoke | ret | iret | fret
  | getStdout | print | printFixed | printNewline | pop
  deriving DecidableEq, Inhabited

namespace Opcode

/-- The byte that stands for the opcode in a module. -/
def byte : Opcode → UInt8
  | iconst => 0x01 | fconst => 0x02 | sconst => 0x03
  | iload => 0x10 | fload => 0x11 | istore => 0x12 | fstore => 0x13
  | getStatic => 0x14 | putStatic => 0x15
  | iadd => 0x20 | isub => 0x21 | imul => 0x22 | idiv => 0x23 | ineg => 0x24
  | fadd => 0x25 | fsub => 0x26 | fmul => 0x27 | fdiv => 0x28 | fneg => 0x29
  | iand => 0x2A | ior => 0x2B | ixor => 0x2C | fcmpg => 0x2D
  | ifZero => 0x30 | ifCompare => 0x31 | goto => 0x32
  | invoke => 0x40 | ret => 0x41 | iret => 0x42 | fret => 0x43
  | getStdout => 0x50 | print => 0x51 | printFixed => 0x52 | printNewline => 0x53 | pop => 0x54

/-- The name of the opcode in data files. -/
def name : Opcode → String
  | iconst => "IConst" | fconst => "FConst" | sconst => "SConst"
  | iload => "ILoad" | fload => "FLoad" | istore => "IStore" | fstore => "FStore"
  | getStatic => "GetStatic" | putStatic => "PutStatic"
  | iadd => "IAdd" | isub => "ISub" | imul => "IMul" | idiv => "IDiv" | ineg => "INeg"
  | fadd => "FAdd" | fsub => "FSub" | fmul => "FMul" | fdiv => "FDiv" | fneg => "FNeg"
  | iand => "IAnd" | ior => "IOr" | ixor => "IXor" | fcmpg => "FCmpG"
  | ifZero => "If" | ifCompare => "IfICmp" | goto => "Goto"
  | invoke => "InvokeStatic" | ret => "Return" | iret => "IReturn" | fret => "FReturn"
  | getStdout => "GetStdout" | print => "Print" | printFixed => "PrintFixed"
  | printNewline => "PrintNewline" | pop => "Pop"

def all : List Opcode :=
  [iconst, fconst, sconst, iload, fload, istore, fstore, getStatic, putStatic, iadd, isub, imul,
    idiv, ineg, fadd, fsub, fmul, fdiv, fneg, iand, ior, ixor, fcmpg, ifZero, ifCompare, goto,
    invoke, ret, iret, fret, getStdout, print, printFixed, printNewline, pop]

def ofByte? (b : UInt8) : Option Opcode := all.find? (·.byte == b)

def ofName? (s : String) : Option Opcode := all.find? (·.name == s)

theorem ofByte?_byte (o : Opcode) : ofByte? o.byte = some o := by
  cases o <;> rfl

end Opcode

/-- A static field of a module. -/
structure FieldRef where
  owner : String
  name : String
  type : FieldType
  deriving DecidableEq, Inhabited

/-- A routine of a module. -/
structure RoutineRef where
  owner : String
  name : String
  descriptor : Descriptor
  deriving DecidableEq, Inhabited

inductive Instruction
  | iconst (value : Int32)
  | fconst (value : Single)
  | sconst (value : String)
  | iload (slot : UInt16)
  | fload (slot : UInt16)
  | istore (slot : UInt16)
  | fstore (slot : UInt16)
  | getStatic (field : FieldRef)
  | putStatic (field : FieldRef)
  | iadd
  | isub
  | imul
  | idiv
  | ineg
  | fadd
  | fsub
  | fmul
  | fdiv
  | fneg
  | iand
  | ior
  | ixor
  /-- Pushes -1, 0 or 1; what is not a number counts as greater. -/
  | fcmpg
  /-- Pops an int and compares it with zero. -/
  | ifZero (condition : Condition) (target : UInt32)
  /-- Pops two ints and compares the lower with the upper. -/
  | ifCompare (condition : Condition) (target : UInt32)
  | goto (target : UInt32)
  | invoke (routine : RoutineRef)
  | ret
  | iret
  | fret
  | getStdout
  /-- Pops a value and the stream, prints the value. -/
  | print (type : FieldType)
  /-- Pops a float and the stream, prints it with a fixed number of decimal places. -/
  | printFixed (places : UInt8)
  /-- Pops the stream, ends the line. -/
  | printNewline
  | pop
  deriving DecidableEq, Inhabited

namespace Instruction

def opcode : Instruction → Opcode
  | iconst _ => .iconst | fconst _ => .fconst | sconst _ => .sconst
  | iload _ => .iload | fload _ => .fload | istore _ => .istore | fstore _ => .fstore
  | getStatic _ => .getStatic | putStatic _ => .putStatic
  | iadd => .iadd | isub => .isub | imul => .imul | idiv => .idiv | ineg => .ineg
  | fadd => .fadd | fsub => .fsub | fmul => .fmul | fdiv => .fdiv | fneg => .fneg
  | iand => .iand | ior => .ior | ixor => .ixor | fcmpg => .fcmpg
  | ifZero _ _ => .ifZero | ifCompare _ _ => .ifCompare | goto _ => .goto
  | invoke _ => .invoke | ret => .ret | iret => .iret | fret => .fret
  | getStdout => .getStdout | print _ => .print | printFixed _ => .printFixed
  | printNewline => .printNewline | pop => .pop

/-- Where a jump goes. -/
def target? : Instruction → Option UInt32
  | ifZero _ t | ifCompare _ t | goto t => some t
  | _ => none

/-- The same jump to another place; other instructions stay as they are. -/
def withTarget (t : UInt32) : Instruction → Instruction
  | ifZero c _ => ifZero c t
  | ifCompare c _ => ifCompare c t
  | goto _ => goto t
  | i => i

end Instruction
end PZero.Bytecode
