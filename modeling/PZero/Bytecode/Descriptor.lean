import PZero.Bytecode.Error

/-! # Storage types and descriptors

A value in a field, a slot or a signature has one of four storage types, each with
a letter. A descriptor spells a signature: the letters of the parameters in
parentheses, then the letter of the result or `V` for none.
-/
namespace PZero.Bytecode

inductive FieldType
  | int
  | float
  | bool
  | string
  deriving DecidableEq, Inhabited

namespace FieldType

def letter : FieldType → Char
  | int => 'I'
  | float => 'F'
  | bool => 'Z'
  | string => 'S'

def name : FieldType → String
  | int => "Int"
  | float => "Float"
  | bool => "Bool"
  | string => "String"

def all : List FieldType := [int, float, bool, string]

def ofLetter? (c : Char) : Option FieldType := all.find? (·.letter == c)

def ofName? (s : String) : Option FieldType := all.find? (·.name == s)

def text (t : FieldType) : String := String.ofList [t.letter]

theorem ofLetter?_letter (t : FieldType) : ofLetter? t.letter = some t := by
  cases t <;> rfl

end FieldType

/-- A result of `none` means that nothing is returned. -/
structure Descriptor where
  parameters : List FieldType
  result : Option FieldType
  deriving DecidableEq, Inhabited

namespace Descriptor

/-- Neither parameters nor a result. -/
def void : Descriptor := ⟨[], none⟩

def resultLetter : Option FieldType → Char
  | none => 'V'
  | some t => t.letter

def letters (d : Descriptor) : List Char :=
  '(' :: d.parameters.map FieldType.letter ++ [')', resultLetter d.result]

def text (d : Descriptor) : String := String.ofList d.letters

def result? (c : Char) : Option (Option FieldType) :=
  if c == 'V' then some none else (FieldType.ofLetter? c).map some

/-- The parameters end at the first closing parenthesis; one letter follows it. -/
def ofLetters? : List Char → Option Descriptor
  | '(' :: rest =>
    match rest.dropWhile (· != ')') with
    | [_, r] => do
      let parameters ← (rest.takeWhile (· != ')')).mapM FieldType.ofLetter?
      let result ← result? r
      return ⟨parameters, result⟩
    | _ => none
  | _ => none

def parse (s : String) : Except Error Descriptor :=
  match ofLetters? s.toList with
  | some d => .ok d
  | none => .error (.invalidDescriptor s)

end Descriptor
end PZero.Bytecode
