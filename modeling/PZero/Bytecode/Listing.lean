import PZero.Bytecode.Module
import PZero.Single.Text
import PZero.Text.Quoted

/-! # Listings

The text of a module for people to read. A mnemonic is the opcode's name in small
letters, except for the two conditional jumps, which carry their condition.
-/
namespace PZero.Bytecode

def Opcode.mnemonic (o : Opcode) : String := o.name.toLower

def FieldRef.text (r : FieldRef) : String := s!"{r.owner}.{r.name} {r.type.text}"

def RoutineRef.text (r : RoutineRef) : String := s!"{r.owner}.{r.name} {r.descriptor.text}"

namespace Instruction

/-- The operands as they follow the mnemonic. -/
def operandText? : Instruction → Option String
  | iconst v => some s!"{v.toInt}"
  | fconst v => some v.listingText
  | sconst s => some (Text.quoted s)
  | iload slot | fload slot | istore slot | fstore slot => some s!"{slot}"
  | getStatic r | putStatic r => some r.text
  | ifZero _ t | ifCompare _ t | goto t => some s!"{t}"
  | invoke r => some r.text
  | print t => some t.text
  | printFixed places => some s!"{places}"
  | _ => none

def mnemonic : Instruction → String
  | ifZero c _ => "if" ++ c.text
  | ifCompare c _ => "if_icmp" ++ c.text
  | i => i.opcode.mnemonic

def text (i : Instruction) : String :=
  match i.operandText? with
  | some operands => s!"{i.mnemonic} {operands}"
  | none => i.mnemonic

end Instruction

def Constant.text : Constant → String
  | int v => s!"{v.toInt}"
  | float v => v.listingText
  | bool v => if v then "true" else "false"
  | string v => Text.quoted v

def Field.text (f : Field) : String :=
  let final := if f.isFinal then " final" else ""
  s!".field static{final} {f.name} {f.type.text} = {f.initial.text}"

/-- A number right-aligned in four columns. -/
def column (n : Nat) : String :=
  let digits := toString n
  String.ofList (List.replicate (4 - digits.length) ' ') ++ digits

def Routine.lines (r : Routine) : List String :=
  ["", s!".method static {r.name} {r.descriptor.text}", s!"    .locals {r.maxLocals}"] ++
    r.code.toList.zipIdx.map (fun p => s!"    {column p.2}: {p.1.text}") ++ [".end method"]

def Module.lines (m : Module) : List String :=
  [s!"; module {m.name}", s!"; fields: {m.fields.length}", s!"; functions: {m.routines.length}"] ++
    (if m.fields.isEmpty then [] else "" :: m.fields.map Field.text) ++
    m.routines.flatMap Routine.lines

/-- Every line ends in a line feed. -/
def Module.listing (m : Module) : String := String.join (m.lines.map (· ++ "\n"))

end PZero.Bytecode
