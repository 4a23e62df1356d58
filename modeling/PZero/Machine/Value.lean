import PZero.Bytecode.Module
import PZero.Single.Text
import PZero.Text.Quoted

/-! # Values of the machine

Truth values have no value of their own: they are the ints 0 and 1.
-/
namespace PZero.Machine
open Bytecode

inductive Kind
  | int
  | float
  | string
  | stream
  | unit
  deriving DecidableEq, Inhabited

def Kind.name : Kind → String
  | int => "int"
  | float => "float"
  | string => "string"
  | stream => "stream"
  | unit => "unit"

inductive Value
  | int (v : Int32)
  | float (v : Single)
  | string (v : String)
  /-- The output stream. -/
  | stream
  /-- What a local slot holds before anything is stored in it. -/
  | unit
  deriving DecidableEq, Inhabited

namespace Value

def kind : Value → Kind
  | int _ => .int
  | float _ => .float
  | string _ => .string
  | stream => .stream
  | unit => .unit

def int? : Value → Option Int32
  | int v => some v
  | _ => none

def float? : Value → Option Single
  | float v => some v
  | _ => none

def ofBool (b : Bool) : Value := int (if b then 1 else 0)

def ofConstant : Constant → Value
  | .int v => int v
  | .float v => float v
  | .bool v => ofBool v
  | .string v => string v

def text : Value → String
  | int v => s!"{v.toInt}"
  | float v => v.plainText
  | string v => Text.quoted v
  | stream => "<stdout>"
  | unit => "()"

end Value

/-- The kind of value that a field of a storage type holds. -/
def Kind.ofFieldType : FieldType → Kind
  | .int | .bool => .int
  | .float => .float
  | .string => .string

/-- A float as the machine prints it, with or without fixed decimal places. -/
def printedFloat (places : Option Nat) : Single → String :=
  Single.textWith "Infinity" (match places with
    | some n => Single.fixedText n
    | none => Single.plain.text)

/-- What is printed for a value of a storage type; nothing when the value is of another kind. -/
def printed? : FieldType → Value → Option String
  | .int, .int v => some s!"{v.toInt}"
  | .bool, .int v => some (if v != 0 then "True" else "False")
  | .float, .float v => some (printedFloat none v)
  | .string, .string s => some s
  | _, _ => none

end PZero.Machine
