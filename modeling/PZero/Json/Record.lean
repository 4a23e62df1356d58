import PZero.Json.Basic
import PZero.Json.Number

/-! # Records and choices in data files

A record is an object, or an array of its fields in order whose last ones may be
left out. A tagged record names its kind in the member `kind` or in the first
item. A choice is a string. A known name that occurs twice is refused, an unknown
one is ignored.
-/
namespace PZero.Json

/-- The fields of a record, by name. -/
structure Record where
  fields : List (String × Json)

namespace Record

def get? (r : Record) (name : String) : Option Json := r.fields.lookup name

/-- A field that has to be there. -/
def required {α : Type} (r : Record) (name : String) (read : Json → Option α) : Option α :=
  (r.get? name).bind read

/-- A field that may be left out. -/
def optional {α : Type} (r : Record) (name : String) (default : α) (read : Json → Option α) :
    Option α :=
  match r.get? name with
  | none => some default
  | some j => read j

end Record

/-- Reads a record with the given field names. -/
def record? (names : List String) : Json → Option Record
  | obj members =>
    let known := members.filter fun m => names.contains m.1
    if (known.map (·.1)).Nodup then some ⟨known⟩ else none
  | arr items => if items.length ≤ names.length then some ⟨names.zip items⟩ else none
  | _ => none

/-- The kind that a tag names; inside another value a kind may also be given by its number. -/
def kind? (kinds : List String) (inner : Bool) : Json → Option String
  | str s => if kinds.contains s then some s else none
  | num literal => if inner then (natBelow? kinds.length literal).bind (kinds[·]?) else none
  | _ => none

/-- Splits a tagged record into its kind and the remaining fields. -/
def tagged? (kinds : List String) (inner : Bool) : Json → Option (String × Json)
  | obj members =>
    match members.filter (·.1 == "kind") with
    | [(_, tag)] => (kind? kinds inner tag).map (·, obj (members.filter (·.1 != "kind")))
    | _ => none
  | arr (tag :: items) => (kind? kinds inner tag).map (·, arr items)
  | _ => none

/-- A word out of a fixed set, also written as the only name of an object that holds null; inside
another value the object may also hold an empty one. -/
def choice? {α : Type} (ofName? : String → Option α) (inner : Bool) : Json → Option α
  | str s => ofName? s
  | obj [(s, null)] => ofName? s
  | obj [(s, obj [])] => if inner then ofName? s else none
  | _ => none

def str? : Json → Option String
  | str s => some s
  | _ => none

def bool? : Json → Option Bool
  | bool b => some b
  | _ => none

def uint32? : Json → Option UInt32
  | num literal => (natBelow? UInt32.size literal).map UInt32.ofNat
  | _ => none

def uint16? : Json → Option UInt16
  | num literal => (natBelow? UInt16.size literal).map UInt16.ofNat
  | _ => none

def uint8? : Json → Option UInt8
  | num literal => (natBelow? UInt8.size literal).map UInt8.ofNat
  | _ => none

def int32? : Json → Option Int32
  | num literal => (intWithin? (1 <<< 31) literal).map Int32.ofInt
  | _ => none

def list? {α : Type} (read : Json → Option α) : Json → Option (List α)
  | arr items => items.mapM read
  | _ => none

/-- Null is nothing. -/
def option? {α : Type} (read : Json → Option α) : Json → Option (Option α)
  | null => some none
  | j => (read j).map some

def pair? {α β : Type} (first : Json → Option α) (second : Json → Option β) : Json → Option (α × β)
  | arr [a, b] => do return (← first a, ← second b)
  | _ => none

end PZero.Json
