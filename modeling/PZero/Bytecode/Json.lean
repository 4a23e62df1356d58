import PZero.Bytecode.Module
import PZero.Json.Record
import PZero.Single.Text

/-! # Modules as data

Records are objects, and a case with operands is an object whose only member is
named after the case. How a float is written is left to the caller; when read it is
any number.
-/
namespace PZero

open Json in
/-- A finite number by its shortest digits; data files have no others. -/
def Single.toJson (x : Single) : Json := if x.isFinite then num (Single.data.text x) else null

open Json in
/-- A whole number of 64 bits is rounded at once, every other number through double precision. -/
def Single.ofJson? : Json → Option Single
  | num literal =>
    match natBelow? UInt64.size literal, intWithin? (1 <<< 63) literal with
    | some n, _ => some (Single.ofRatio false n 1)
    | none, some n => some (Single.ofRatio true n.natAbs 1)
    | none, none => do
      let n ← Numeral.ofChars? literal.toList
      let x ← n.double?
      return Single.ofRatio n.negative x.num x.den
  | _ => none

namespace Bytecode
open Json

/-! ## Writing -/

def FieldType.toJson (t : FieldType) : Json := str t.name

def Descriptor.toJson (d : Descriptor) : Json :=
  obj [("parameters", arr (d.parameters.map FieldType.toJson)),
    ("result", ofOption FieldType.toJson d.result)]

def FieldRef.toJson (r : FieldRef) : Json :=
  obj [("owner", str r.owner), ("name", str r.name), ("field_type", r.type.toJson)]

def RoutineRef.toJson (r : RoutineRef) : Json :=
  obj [("owner", str r.owner), ("name", str r.name), ("descriptor", r.descriptor.toJson)]

/-- The operands of an instruction, if it has any. -/
def Instruction.operandJson? (float : Single → Json) : Instruction → Option Json
  | .iconst v => some (ofInt v.toInt)
  | .fconst v => some (float v)
  | .sconst s => some (str s)
  | .iload slot | .fload slot | .istore slot | .fstore slot => some (ofNat slot.toNat)
  | .getStatic r | .putStatic r => some r.toJson
  | .ifZero c t | .ifCompare c t => some (arr [str c.name, ofNat t.toNat])
  | .goto t => some (ofNat t.toNat)
  | .invoke r => some r.toJson
  | .print t => some t.toJson
  | .printFixed places => some (obj [("precision", ofNat places.toNat)])
  | _ => none

def Instruction.toJson (float : Single → Json) (i : Instruction) : Json :=
  match i.operandJson? float with
  | some operands => obj [(i.opcode.name, operands)]
  | none => str i.opcode.name

def Constant.toJson (float : Single → Json) (c : Constant) : Json :=
  obj [(c.type.name,
    match c with
    | .int v => ofInt v.toInt
    | .float v => float v
    | .bool v => Json.bool v
    | .string v => str v)]

def Field.toJson (float : Single → Json) (f : Field) : Json :=
  obj [("name", str f.name), ("is_final", bool f.isFinal), ("field_type", f.type.toJson),
    ("initial", f.initial.toJson float)]

def Routine.toJson (float : Single → Json) (r : Routine) : Json :=
  obj [("name", str r.name), ("descriptor", r.descriptor.toJson),
    ("max_locals", ofNat r.maxLocals.toNat), ("code", arr (r.code.toList.map (·.toJson float)))]

def Module.toJson (float : Single → Json) (m : Module) : Json :=
  obj [("name", str m.name), ("fields", arr (m.fields.map (·.toJson float))),
    ("functions", arr (m.routines.map (·.toJson float)))]

/-! ## Reading -/

def FieldType.ofJson? : Json → Option FieldType := choice? FieldType.ofName? false

/-- The result may be left out of an object, not out of an array. -/
def Descriptor.ofJson? (j : Json) : Option Descriptor := do
  let r ← record? ["parameters", "result"] j
  let parameters ← r.required "parameters" (list? FieldType.ofJson?)
  let result ← match j with
    | arr _ => r.required "result" (option? FieldType.ofJson?)
    | _ => r.optional "result" none (option? FieldType.ofJson?)
  return { parameters, result }

def FieldRef.ofJson? (j : Json) : Option FieldRef := do
  let r ← record? ["owner", "name", "field_type"] j
  return {
    owner := ← r.required "owner" str?
    name := ← r.required "name" str?
    type := ← r.required "field_type" FieldType.ofJson? }

def RoutineRef.ofJson? (j : Json) : Option RoutineRef := do
  let r ← record? ["owner", "name", "descriptor"] j
  return {
    owner := ← r.required "owner" str?
    name := ← r.required "name" str?
    descriptor := ← r.required "descriptor" Descriptor.ofJson? }

/-- An instruction without operands. -/
def Instruction.simple? : Opcode → Option Instruction
  | .iadd => some .iadd
  | .isub => some .isub
  | .imul => some .imul
  | .idiv => some .idiv
  | .ineg => some .ineg
  | .fadd => some .fadd
  | .fsub => some .fsub
  | .fmul => some .fmul
  | .fdiv => some .fdiv
  | .fneg => some .fneg
  | .iand => some .iand
  | .ior => some .ior
  | .ixor => some .ixor
  | .fcmpg => some .fcmpg
  | .ret => some .ret
  | .iret => some .iret
  | .fret => some .fret
  | .getStdout => some .getStdout
  | .printNewline => some .printNewline
  | .pop => some .pop
  | _ => none

/-- An instruction with operands. -/
def Instruction.ofOperands? (j : Json) : Opcode → Option Instruction
  | .iconst => (int32? j).map .iconst
  | .fconst => (Single.ofJson? j).map .fconst
  | .sconst => (str? j).map .sconst
  | .iload => (uint16? j).map .iload
  | .fload => (uint16? j).map .fload
  | .istore => (uint16? j).map .istore
  | .fstore => (uint16? j).map .fstore
  | .getStatic => (FieldRef.ofJson? j).map .getStatic
  | .putStatic => (FieldRef.ofJson? j).map .putStatic
  | .ifZero => (pair? (choice? Condition.ofName? false) uint32? j).map fun p => .ifZero p.1 p.2
  | .ifCompare =>
    (pair? (choice? Condition.ofName? false) uint32? j).map fun p => .ifCompare p.1 p.2
  | .goto => (uint32? j).map .goto
  | .invoke => (RoutineRef.ofJson? j).map .invoke
  | .print => (FieldType.ofJson? j).map .print
  | .printFixed =>
    match j with
    | obj _ => do
      let r ← record? ["precision"] j
      return .printFixed (← r.required "precision" uint8?)
    | _ => none
  | opcode => if j matches .null then simple? opcode else none

def Instruction.ofJson? : Json → Option Instruction
  | str s => (Opcode.ofName? s).bind simple?
  | obj [(s, operands)] => (Opcode.ofName? s).bind (ofOperands? operands)
  | _ => none

def Constant.ofJson? : Json → Option Constant
  | obj [(s, v)] => do
    match ← FieldType.ofName? s with
    | .int => (int32? v).map .int
    | .float => (Single.ofJson? v).map .float
    | .bool => (bool? v).map .bool
    | .string => (str? v).map .string
  | _ => none

def Field.ofJson? (j : Json) : Option Field := do
  let r ← record? ["name", "is_final", "field_type", "initial"] j
  return {
    name := ← r.required "name" str?
    isFinal := ← r.required "is_final" bool?
    type := ← r.required "field_type" FieldType.ofJson?
    initial := ← r.required "initial" Constant.ofJson? }

def Routine.ofJson? (j : Json) : Option Routine := do
  let r ← record? ["name", "descriptor", "max_locals", "code"] j
  return {
    name := ← r.required "name" str?
    descriptor := ← r.required "descriptor" Descriptor.ofJson?
    maxLocals := ← r.required "max_locals" uint16?
    code := (← r.required "code" (list? Instruction.ofJson?)).toArray }

def Module.ofJson? (j : Json) : Option Module := do
  let r ← record? ["name", "fields", "functions"] j
  return {
    name := ← r.required "name" str?
    fields := ← r.required "fields" (list? Field.ofJson?)
    routines := ← r.required "functions" (list? Routine.ofJson?) }

end Bytecode
end PZero
