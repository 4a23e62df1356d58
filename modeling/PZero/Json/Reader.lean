import PZero.Json.Lexeme

/-! # Reading data files

The lexemes of a text are assembled into a value in one pass, with a stack of open
arrays and objects. Every text is either read or refused.

The members of the outermost object that the caller does not want are passed
over: they must be lexemes in a proper order, and nothing more is asked of them.
-/
namespace PZero.Json

/-- An array or object that is not closed yet, its finished parts last one first. -/
inductive Open
  | items (done : List Json)
  | members (done : List (String × Json)) (key : String)

/-- What a reader asks for. -/
structure Demand where
  /-- The greatest nesting of arrays and objects. -/
  nesting : Nat
  /-- Which members of the outermost object are read; the others are passed over. -/
  wanted : String → Bool := fun _ => true

namespace Demand

/-- Whether the value at this place belongs to a member that is passed over. -/
def skips (d : Demand) (stack : List Open) : Bool :=
  match stack.getLast? with
  | some (.members _ key) => !d.wanted key
  | _ => false

/-- Whether one more array or object may be opened here. -/
def mayOpen (d : Demand) (stack : List Open) : Bool :=
  d.skips stack || stack.length < d.nesting

end Demand

/-- The text of a string at this place; an ill-formed one is tolerated where values are skipped. -/
def Demand.text? (d : Demand) (stack : List Open) : Option String → Option String
  | some s => some s
  | none => if d.skips stack then some "" else none

mutual

/-- Expects a value. -/
def readValue (d : Demand) : List Lexeme → List Open → Option Json
  | .scalar j :: rest, stack => readRest d rest stack j
  | .hugeNumber :: rest, stack => if d.skips stack then readRest d rest stack .null else none
  | .str s :: rest, stack =>
    match d.text? stack s with
    | some s => readRest d rest stack (.str s)
    | none => none
  | .openArray :: .closeArray :: rest, stack =>
    if d.mayOpen stack then readRest d rest stack (.arr []) else none
  | .openArray :: rest, stack =>
    if d.mayOpen stack then readValue d rest (.items [] :: stack) else none
  | .openObject :: .closeObject :: rest, stack =>
    if d.mayOpen stack then readRest d rest stack (.obj []) else none
  | .openObject :: .str k :: .colon :: rest, stack =>
    if d.mayOpen stack then
      match d.text? stack k with
      | some k => readValue d rest (.members [] k :: stack)
      | none => none
    else none
  | _, _ => none

/-- Goes on behind a finished value. -/
def readRest (d : Demand) : List Lexeme → List Open → Json → Option Json
  | [], [], j => some j
  | .comma :: rest, .items done :: stack, j => readValue d rest (.items (j :: done) :: stack)
  | .closeArray :: rest, .items done :: stack, j =>
    readRest d rest stack (.arr (j :: done).reverse)
  | .comma :: .str k :: .colon :: rest, .members done key :: stack, j =>
    match d.text? stack k with
    | some k => readValue d rest (.members ((key, j) :: done) k :: stack)
    | none => none
  | .closeObject :: rest, .members done key :: stack, j =>
    readRest d rest stack (.obj ((key, j) :: done).reverse)
  | _, _, _ => none

end

/-- Reads a text that holds one value and blanks around it. -/
def parse? (d : Demand) (text : String) : Option Json :=
  match lexemes? text.toList with
  | some ls => readValue d ls []
  | none => none

end PZero.Json
