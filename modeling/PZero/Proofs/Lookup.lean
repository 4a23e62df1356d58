import Mathlib
import PZero.Scope

/-! # Looking names up

A list of names with what they stand for is searched from its front. A table with
scopes is searched like the list of all its bindings.
-/
namespace PZero

theorem lookup_cons_ite {α : Type} (name other : String) (a : α) (l : List (String × α)) :
    ((name, a) :: l).lookup other = if other = name then some a else l.lookup other := by
  by_cases h : other = name
  · simp [h]
  · have hb : (other == name) = false := by simpa using h
    rw [List.lookup_cons, hb, if_neg h]

theorem lookup_of_mem {α : Type} {l : List (String × α)} (hl : (l.map Prod.fst).Nodup) {x : String}
    {a : α} (h : (x, a) ∈ l) : l.lookup x = some a := by
  induction l with
  | nil => cases h
  | cons p l ih =>
    obtain ⟨y, b⟩ := p
    rw [List.map_cons, List.nodup_cons] at hl
    rw [lookup_cons_ite]
    rcases List.mem_cons.mp h with heq | hmem
    · cases heq
      rw [if_pos rfl]
    · have hx : x ∈ l.map Prod.fst := List.mem_map_of_mem hmem
      have hne : x ≠ y := fun heq => hl.1 (heq ▸ hx)
      rw [if_neg hne, ih hl.2 hmem]

namespace Scope
variable {α : Type}

/-- All bindings, the innermost first. -/
def bindings (s : Scope α) : List (String × α) := s.current ++ s.enclosing.flatten

theorem findSome?_lookup (frames : List (List (String × α))) (name : String) :
    frames.findSome? (·.lookup name) = frames.flatten.lookup name := by
  induction frames with
  | nil => rfl
  | cons frame frames ih =>
    rw [List.flatten_cons, List.lookup_append, ← ih, List.findSome?_cons]
    cases frame.lookup name <;> rfl

theorem get?_eq_lookup (s : Scope α) (name : String) : s.get? name = s.bindings.lookup name :=
  findSome?_lookup (s.current :: s.enclosing) name

@[simp] theorem bindings_openScope (s : Scope α) : s.openScope.bindings = s.bindings := by
  simp [bindings, openScope]

@[simp] theorem bindings_insert (s : Scope α) (name : String) (a : α) :
    (s.insert name a).bindings = (name, a) :: s.bindings := rfl

end Scope

end PZero
