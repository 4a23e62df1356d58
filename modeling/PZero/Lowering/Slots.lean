import PZero.Lowering.Error
import PZero.Scope

/-! # Local slots

Each local name gets the next free slot. Closing a scope frees the slots taken
since it was opened, so that sibling scopes use the same numbers. The largest
number of slots ever in use is the frame size of the routine.
-/
namespace PZero.Lowering

structure Slots where
  names : Scope UInt16
  next : UInt16
  /-- The next free slot at the opening of each open scope, innermost first. -/
  saved : List UInt16
  maxLocals : UInt16

namespace Slots

/-- Slots below `firstFree` are reserved. -/
def start (firstFree : UInt16) : Slots := ⟨{}, firstFree, [], firstFree⟩

def openScope (s : Slots) : Slots :=
  { s with names := s.names.openScope, saved := s.next :: s.saved }

/-- Closing without an open scope changes nothing. -/
def closeScope (s : Slots) : Slots :=
  match s.saved with
  | [] => s
  | next :: saved => { s with names := s.names.closeScope, next, saved }

/-- Gives the next slot to a name of the innermost scope; the last number is never given away. -/
def bind (s : Slots) (name : String) : Except Error (UInt16 × Slots) :=
  if s.next = 65535 then .error (.noSlot name)
  else .ok (s.next,
    { s with
      names := s.names.insert name s.next
      next := s.next + 1
      maxLocals := max s.maxLocals (s.next + 1) })

/-- The slot of a local name. -/
def get? (s : Slots) (name : String) : Option UInt16 := s.names.get? name

end Slots
end PZero.Lowering
