import PZero.Machine.Basic
import PZero.Proofs.Lookup

/-! # Fields, routines and frames of a machine

The values of the fields are looked up by name, and storing one changes no other.
A machine starts with the initial values. A frame has as many slots as its routine
needs.
-/
namespace PZero.Machine
open Bytecode

theorem lookup_setStatic (s : Store) (name x : String) (v : Value) :
    (s.setStatic name v).statics.lookup x =
      if x = name then (s.statics.lookup x).map fun _ => v else s.statics.lookup x := by
  obtain ⟨statics, steps, output⟩ := s
  simp only [Store.setStatic]
  induction statics with
  | nil => simp
  | cons p statics ih =>
    obtain ⟨y, u⟩ := p
    rw [List.map_cons]
    by_cases hy : y = name
    · subst hy
      simp only [beq_self_eq_true, if_true, lookup_cons_ite, ih]
      by_cases hx : x = y <;> simp [hx]
    · simp only [beq_iff_eq, hy, if_false, lookup_cons_ite] at ih ⊢
      by_cases hx : x = y
      · simp [hx, hy]
      · simp [hx, ih]

/-- Among fields with distinct names each starts with its own value. -/
theorem lookup_statics {m : Module} (hm : (m.fields.map (·.name)).Nodup) (o : Options)
    {field : Field} (hf : field ∈ m.fields) :
    (ofModule m o).statics.lookup field.name = some (Value.ofConstant field.initial) := by
  refine lookup_of_mem ?_ (List.mem_reverse.mpr (List.mem_map.mpr ⟨field, hf, rfl⟩))
  rw [ofModule, List.map_reverse, List.nodup_reverse, List.map_map]
  exact hm

theorem mem_of_routine? {m : Module} {name : String} {r : Routine}
    (h : routine? m name = some r) : r ∈ m.routines :=
  List.mem_reverse.mp (List.mem_of_find?_eq_some h)

theorem exists_routine? {m : Module} {name : String} (h : ∃ r ∈ m.routines, r.name = name) :
    ∃ r, routine? m name = some r := by
  obtain ⟨r, hr, rfl⟩ := h
  have hsome : (m.routines.reverse.find? (·.name == r.name)).isSome := by
    rw [List.find?_isSome]
    exact ⟨r, List.mem_reverse.mpr hr, beq_self_eq_true _⟩
  exact Option.isSome_iff_exists.mp hsome

theorem size_enter (r : Routine) (arguments : List Value) :
    r.maxLocals.toNat ≤ (Frame.enter r arguments).locals.size := by
  simp only [Frame.enter, Array.size_append, List.size_toArray, Array.size_replicate]
  omega

end PZero.Machine
