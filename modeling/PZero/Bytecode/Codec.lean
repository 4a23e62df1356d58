import PZero.Bytecode.Module

/-! # Modules as bytes

The five letters of the magic, the version, the name, the fields and the routines.
Numbers are little-endian, a text is its length in bytes followed by its UTF-8
form, a float is its pattern. Fields, routines and instructions are preceded by
their number. An instruction is its opcode followed by its operands.

Reading returns what was read together with the remaining bytes and their offset,
so every error can tell where it arose.
-/
namespace PZero.Bytecode

abbrev Bytes := List UInt8

namespace Codec

/-- `P0MOD` -/
def magic : Bytes := [0x50, 0x30, 0x4D, 0x4F, 0x44]

def version : UInt16 := 1

/-! ## Writing -/

def ofUInt16 (v : UInt16) : Bytes := [v.toUInt8, (v >>> 8).toUInt8]

def ofUInt32 (v : UInt32) : Bytes :=
  [v.toUInt8, (v >>> 8).toUInt8, (v >>> 16).toUInt8, (v >>> 24).toUInt8]

def ofCount (n : Nat) : Bytes := ofUInt32 (UInt32.ofNat n)

def ofString (s : String) : Bytes := ofCount s.toUTF8.size ++ s.toUTF8.data.toList

def ofBool (b : Bool) : Bytes := [if b then 1 else 0]

def ofFieldType (t : FieldType) : Bytes := [t.letter.toNat.toUInt8]

def ofConstant (c : Constant) : Bytes :=
  ofFieldType c.type ++
    match c with
    | .int v => ofUInt32 v.toUInt32
    | .float v => ofUInt32 v.bits
    | .bool v => ofBool v
    | .string v => ofString v

def ofField (f : Field) : Bytes :=
  ofString f.name ++ ofBool f.isFinal ++ ofFieldType f.type ++ ofConstant f.initial

def ofFieldRef (r : FieldRef) : Bytes :=
  ofString r.owner ++ ofString r.name ++ ofFieldType r.type

def ofRoutineRef (r : RoutineRef) : Bytes :=
  ofString r.owner ++ ofString r.name ++ ofString r.descriptor.text

def operands : Instruction → Bytes
  | .iconst v => ofUInt32 v.toUInt32
  | .fconst v => ofUInt32 v.bits
  | .sconst s => ofString s
  | .iload slot | .fload slot | .istore slot | .fstore slot => ofUInt16 slot
  | .getStatic r | .putStatic r => ofFieldRef r
  | .ifZero c t | .ifCompare c t => c.byte :: ofUInt32 t
  | .goto t => ofUInt32 t
  | .invoke r => ofRoutineRef r
  | .print t => ofFieldType t
  | .printFixed places => [places]
  | _ => []

def ofInstruction (i : Instruction) : Bytes := i.opcode.byte :: operands i

def ofRoutine (r : Routine) : Bytes :=
  ofString r.name ++ ofString r.descriptor.text ++ ofUInt16 r.maxLocals ++
    ofCount r.code.size ++ r.code.toList.flatMap ofInstruction

/-! ## Reading -/

/-- What is left to read. -/
structure Cursor where
  offset : Nat
  rest : Bytes

abbrev Reader := StateT Cursor (Except Error)

def offset : Reader Nat := fun c => .ok (c.offset, c)

/-- The next `n` bytes; nothing is consumed when there are fewer. -/
def take (n : Nat) : Reader Bytes := fun c =>
  let taken := c.rest.take n
  if taken.length = n then .ok (taken, ⟨c.offset + n, c.rest.drop n⟩)
  else .error (.unexpectedEnd c.offset)

def uint8 : Reader UInt8 := do
  return (← take 1).headD 0

/-- The number whose little-endian digits are given. -/
def fromDigits (bytes : Bytes) : Nat := bytes.foldr (fun b n => b.toNat + 256 * n) 0

def uint16 : Reader UInt16 := do
  return UInt16.ofNat (fromDigits (← take 2))

def uint32 : Reader UInt32 := do
  return UInt32.ofNat (fromDigits (← take 4))

def single : Reader Single := do
  return ⟨← uint32⟩

def int32 : Reader Int32 := do
  return (← uint32).toInt32

def string : Reader String := do
  let length ← uint32
  let start ← offset
  let bytes ← take length.toNat
  match String.fromUTF8? ⟨bytes.toArray⟩ with
  | some s => return s
  | none => throw (.invalidText start)

def fieldType : Reader FieldType := do
  let start ← offset
  let tag ← uint8
  match FieldType.ofLetter? (Char.ofNat tag.toNat) with
  | some t => return t
  | none => throw (.invalidTag .fieldType tag start)

def condition : Reader Condition := do
  let start ← offset
  let tag ← uint8
  match Condition.ofByte? tag with
  | some c => return c
  | none => throw (.invalidTag .condition tag start)

def descriptor : Reader Descriptor := do
  match Descriptor.parse (← string) with
  | .ok d => return d
  | .error e => throw e

def constant : Reader Constant := do
  match ← fieldType with
  | .int => return .int (← int32)
  | .float => return .float (← single)
  | .bool => return .bool ((← uint8) != 0)
  | .string => return .string (← string)

def fieldRef : Reader FieldRef := do
  return { owner := ← string, name := ← string, type := ← fieldType }

def routineRef : Reader RoutineRef := do
  return { owner := ← string, name := ← string, descriptor := ← descriptor }

/-- The instruction with the given opcode, its operands read. -/
def instructionOf : Opcode → Reader Instruction
  | .iconst => return .iconst (← int32)
  | .fconst => return .fconst (← single)
  | .sconst => return .sconst (← string)
  | .iload => return .iload (← uint16)
  | .fload => return .fload (← uint16)
  | .istore => return .istore (← uint16)
  | .fstore => return .fstore (← uint16)
  | .getStatic => return .getStatic (← fieldRef)
  | .putStatic => return .putStatic (← fieldRef)
  | .iadd => return .iadd
  | .isub => return .isub
  | .imul => return .imul
  | .idiv => return .idiv
  | .ineg => return .ineg
  | .fadd => return .fadd
  | .fsub => return .fsub
  | .fmul => return .fmul
  | .fdiv => return .fdiv
  | .fneg => return .fneg
  | .iand => return .iand
  | .ior => return .ior
  | .ixor => return .ixor
  | .fcmpg => return .fcmpg
  | .ifZero => return .ifZero (← condition) (← uint32)
  | .ifCompare => return .ifCompare (← condition) (← uint32)
  | .goto => return .goto (← uint32)
  | .invoke => return .invoke (← routineRef)
  | .ret => return .ret
  | .iret => return .iret
  | .fret => return .fret
  | .getStdout => return .getStdout
  | .print => return .print (← fieldType)
  | .printFixed => return .printFixed (← uint8)
  | .printNewline => return .printNewline
  | .pop => return .pop

def instruction : Reader Instruction := do
  let start ← offset
  let byte ← uint8
  match Opcode.ofByte? byte with
  | some opcode => instructionOf opcode
  | none => throw (.unknownOpcode byte start)

/-- Reads the same thing a number of times. -/
def times {α : Type} (read : Reader α) : Nat → Reader (List α)
  | 0 => return []
  | n + 1 => do
    let a ← read
    let as ← times read n
    return a :: as

/-- A sequence preceded by its length. -/
def counted {α : Type} (read : Reader α) : Reader (List α) := do
  times read (← uint32).toNat

/-- Only the lowest bit of a field's flags has a meaning. -/
def field : Reader Field := do
  let name ← string
  let flags ← uint8
  let type ← fieldType
  let initial ← constant
  return { name, isFinal := flags &&& 1 != 0, type, initial }

def routine : Reader Routine := do
  let name ← string
  let descriptor ← descriptor
  let maxLocals ← uint16
  let code ← counted instruction
  return { name, descriptor, maxLocals, code := code.toArray }

/-- What follows the magic, up to the last byte. -/
def body : Reader Module := do
  let v ← uint16
  if v != version then throw (.unsupportedVersion v)
  let name ← string
  let fields ← counted field
  let routines ← counted routine
  let rest := (← get).rest
  if rest.length != 0 then throw (.trailingBytes rest.length)
  return { name, fields, routines }

end Codec

open Codec in
def Module.encode (m : Module) : Bytes :=
  magic ++ ofUInt16 version ++ ofString m.name ++
    ofCount m.fields.length ++ m.fields.flatMap ofField ++
    ofCount m.routines.length ++ m.routines.flatMap ofRoutine

open Codec in
def Module.decode (bytes : Bytes) : Except Error Module :=
  if bytes.take magic.length = magic then
    (body.run' ⟨magic.length, bytes.drop magic.length⟩)
  else .error .badMagic

end PZero.Bytecode
