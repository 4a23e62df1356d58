/-! # Block-structured name tables

A table is a stack of frames, and looking a name up searches from the innermost
frame outwards. The outermost frame is part of the type, so it is never lost.
-/
namespace PZero

/-- Within a frame the latest binding of a name comes first. -/
structure Scope (α : Type) where
  current : List (String × α) := []
  enclosing : List (List (String × α)) := []

namespace Scope
variable {α : Type}

instance : Inhabited (Scope α) := ⟨{}⟩

def openScope (s : Scope α) : Scope α := ⟨[], s.current :: s.enclosing⟩

/-- Forgets the innermost frame; the outermost one stays. -/
def closeScope (s : Scope α) : Scope α :=
  match s.enclosing with
  | [] => s
  | frame :: rest => ⟨frame, rest⟩

/-- Binds a name in the innermost frame. -/
def insert (s : Scope α) (name : String) (a : α) : Scope α :=
  { s with current := (name, a) :: s.current }

def get? (s : Scope α) (name : String) : Option α :=
  (s.current :: s.enclosing).findSome? (·.lookup name)

def contains (s : Scope α) (name : String) : Bool := (s.get? name).isSome

/-- Whether the innermost frame itself binds the name. -/
def inCurrent (s : Scope α) (name : String) : Bool := (s.current.lookup name).isSome

def depth (s : Scope α) : Nat := s.enclosing.length + 1

@[simp] theorem closeScope_openScope (s : Scope α) : s.openScope.closeScope = s := rfl

@[simp] theorem get?_openScope (s : Scope α) (name : String) :
    s.openScope.get? name = s.get? name := by
  simp [get?, openScope, List.findSome?]

theorem get?_insert (s : Scope α) (name other : String) (a : α) :
    (s.insert name a).get? other = if other = name then some a else s.get? other := by
  by_cases h : other = name
  · subst h
    simp [get?, insert, List.findSome?]
  · have : (other == name) = false := by simpa using h
    simp [get?, insert, List.findSome?, List.lookup_cons, this, h]

end Scope
end PZero
