import PZero.Proofs.Safety.Shape

/-! # Regions of code

A region is a part of the code of a routine that is entered at its first index and
left at its end, whatever jumps there are inside. Regions are put together like the
code: one behind the other, as the two branches of a jump and as a loop. Shapes for
the whole are those of the parts; where parts meet, the shape behind the one narrows
to the shape in front of the other.
-/
namespace PZero.Safety
open Bytecode Machine

/-- One map of shapes below an index, another one from there on. -/
def glue (mid : Nat) (shape shape' : Nat → Shape) (pc : Nat) : Shape :=
  if pc < mid then shape pc else shape' pc

theorem glue_of_lt {mid pc : Nat} {shape shape' : Nat → Shape} (h : pc < mid) :
    glue mid shape shape' pc = shape pc :=
  if_pos h

theorem glue_of_le {mid pc : Nat} {shape shape' : Nat → Shape} (h : mid ≤ pc) :
    glue mid shape shape' pc = shape' pc :=
  if_neg (Nat.not_lt.mpr h)

/-- The code between two indices can be annotated, from one shape in front of it to another one
behind it. -/
def Region (m : Module) (r : Routine) (lo hi : Nat) (s s' : Shape) : Prop :=
  lo ≤ hi ∧ ∃ shape : Nat → Shape, s.Narrows (shape lo) ∧ shape hi = s' ∧
    ∀ pc, lo ≤ pc → pc < hi → FitsAt m r shape (fun next => lo ≤ next ∧ next ≤ hi) pc

namespace Region
variable {m : Module} {r : Routine} {lo mid hi pc : Nat} {s s' s'' : Shape} {i : Instruction}

theorem nil (h : s.Narrows s') : Region m r pc pc s s' :=
  ⟨Nat.le_refl pc, fun _ => s', h, rfl, fun k hle hlt => by omega⟩

/-- An instruction that leads to the next one. -/
theorem single (hi : r.code[pc]? = some i) (hfits : Fits m r i s s')
    (hsucc : i.successors pc = [pc + 1]) : Region m r pc (pc + 1) s s' := by
  have hfirst : glue (pc + 1) (fun _ => s) (fun _ => s') pc = s := glue_of_lt (Nat.lt_succ_self pc)
  have hlast : glue (pc + 1) (fun _ => s) (fun _ => s') (pc + 1) = s' := glue_of_le (Nat.le_refl _)
  refine ⟨Nat.le_succ pc, glue (pc + 1) (fun _ => s) (fun _ => s'), ?_, hlast, ?_⟩
  · rw [hfirst]
    exact .refl s
  · intro k hle hlt
    obtain rfl : k = pc := by omega
    refine ⟨i, s', hi, hfirst.symm ▸ hfits, fun next hnext => ?_⟩
    rw [hsucc, List.mem_singleton] at hnext
    rw [hnext, hlast]
    exact ⟨⟨Nat.le_succ k, Nat.le_refl _⟩, .refl s'⟩

theorem append (h : Region m r lo mid s s') (h' : Region m r mid hi s' s'') :
    Region m r lo hi s s'' := by
  obtain ⟨hle, shape, hentry, hexit, hfits⟩ := h
  obtain ⟨hle', shape', hentry', hexit', hfits'⟩ := h'
  have hjoin : ∀ next ≤ mid, (shape next).Narrows (glue mid shape shape' next) := by
    intro next hnext
    rcases Nat.lt_or_eq_of_le hnext with hlt | rfl
    · rw [glue_of_lt hlt]
      exact .refl _
    · rw [glue_of_le (Nat.le_refl next), hexit]
      exact hentry'
  refine ⟨Nat.le_trans hle hle', glue mid shape shape', hentry.trans (hjoin lo hle), ?_, ?_⟩
  · rw [glue_of_le hle', hexit']
  · intro k hlo hhi
    by_cases hk : k < mid
    · refine (hfits k hlo hk).mono (glue_of_lt hk) fun next hnext => ?_
      exact ⟨⟨hnext.1, Nat.le_trans hnext.2 hle'⟩, hjoin next hnext.2⟩
    · refine (hfits' k (by omega) hhi).mono (glue_of_le (by omega)) fun next hnext => ?_
      rw [glue_of_le hnext.1]
      exact ⟨⟨Nat.le_trans hle hnext.1, hnext.2⟩, .refl _⟩

theorem widen (h : Region m r lo hi s' s'') (hs : s.Narrows s') : Region m r lo hi s s'' :=
  (nil hs).append h

theorem narrow (h : Region m r lo hi s s') (hs : s'.Narrows s'') : Region m r lo hi s s'' :=
  h.append (nil hs)

theorem fits_goto (tgt : UInt32) (s : Shape) : Fits m r (.goto tgt) s s :=
  ⟨trivial, ⟨s.stack, rfl, rfl⟩, rfl⟩

variable {e : Shape} {tgt back : UInt32} {g y : Nat}

/-- A jump with two branches: the one behind it ends with a jump over the other one. -/
theorem fork (hjump : r.code[g]? = some i) (hfits : Fits m r i s e)
    (hsucc : i.successors g = [g + 1, y + 1]) (hyes : Region m r (g + 1) y e s')
    (hgoto : r.code[y]? = some (.goto tgt)) (htgt : tgt.toNat = hi)
    (hno : Region m r (y + 1) hi e s') : Region m r g hi s s' := by
  obtain ⟨hle, shape, hentry, hexit, hbody⟩ := hyes
  obtain ⟨hle', shape', hentry', hexit', hbody'⟩ := hno
  have hfirst : glue (g + 1) (fun _ => s) (glue (y + 1) shape shape') g = s :=
    glue_of_lt (Nat.lt_succ_self g)
  have hmiddle : ∀ k, g + 1 ≤ k → k ≤ y →
      glue (g + 1) (fun _ => s) (glue (y + 1) shape shape') k = shape k := by
    intro k hlo hhi
    rw [glue_of_le hlo, glue_of_lt (Nat.lt_succ_of_le hhi)]
  have hlast : ∀ k, y + 1 ≤ k →
      glue (g + 1) (fun _ => s) (glue (y + 1) shape shape') k = shape' k := by
    intro k hlo
    rw [glue_of_le (by omega), glue_of_le hlo]
  refine ⟨by omega, _, hfirst.symm ▸ .refl s, (hlast hi hle').trans hexit', fun k hlo hhi => ?_⟩
  rcases Nat.lt_trichotomy k y with hk | rfl | hk
  · by_cases hkg : k = g
    · subst hkg
      refine ⟨i, e, hjump, hfirst.symm ▸ hfits, fun next hnext => ?_⟩
      simp only [hsucc, List.mem_cons, List.not_mem_nil, or_false] at hnext
      rcases hnext with rfl | rfl
      · rw [hmiddle _ (Nat.le_refl _) hle]
        exact ⟨⟨by omega, by omega⟩, hentry⟩
      · rw [hlast _ (Nat.le_refl _)]
        exact ⟨⟨by omega, hle'⟩, hentry'⟩
    · refine (hbody k (by omega) hk).mono (hmiddle k (by omega) (by omega)) fun next hnext => ?_
      rw [hmiddle next hnext.1 hnext.2]
      exact ⟨⟨by omega, by omega⟩, .refl _⟩
  · refine ⟨.goto tgt, s', hgoto, ?_, fun next hnext => ?_⟩
    · rw [hmiddle k hle (Nat.le_refl k), hexit]
      exact fits_goto tgt s'
    · rw [List.mem_singleton.mp hnext, htgt, hlast hi hle', hexit']
      exact ⟨⟨by omega, Nat.le_refl hi⟩, .refl s'⟩
  · refine (hbody' k (by omega) hhi).mono (hlast k (by omega)) fun next hnext => ?_
    rw [hlast next hnext.1]
    exact ⟨⟨by omega, hnext.2⟩, .refl _⟩

/-- A guard, a jump out of the loop, a body, and a jump back. -/
theorem loop (hguard : Region m r lo g s (s.push .int)) {condition : Condition}
    (hjump : r.code[g]? = some (.ifZero condition tgt)) (htgt : tgt.toNat = y + 1)
    (hbody : Region m r (g + 1) y s s) (hgoto : r.code[y]? = some (.goto back))
    (hback : back.toNat = lo) : Region m r lo (y + 1) s s := by
  obtain ⟨hle, shape, hentry, hexit, hfits⟩ := hguard
  obtain ⟨hle', shape', hentry', hexit', hfits'⟩ := hbody
  have hfirst : ∀ k ≤ g, glue (g + 1) shape (glue (y + 1) shape' fun _ => s) k = shape k :=
    fun k hk => glue_of_lt (Nat.lt_succ_of_le hk)
  have hmiddle : ∀ k, g + 1 ≤ k → k ≤ y →
      glue (g + 1) shape (glue (y + 1) shape' fun _ => s) k = shape' k := by
    intro k hlo hhi
    rw [glue_of_le hlo, glue_of_lt (Nat.lt_succ_of_le hhi)]
  have hlast : glue (g + 1) shape (glue (y + 1) shape' fun _ => s) (y + 1) = s := by
    rw [glue_of_le (by omega), glue_of_le (Nat.le_refl _)]
  refine ⟨by omega, _, (hfirst lo hle).symm ▸ hentry, hlast, fun k hlo hhi => ?_⟩
  rcases Nat.lt_trichotomy k g with hk | rfl | hk
  · refine (hfits k hlo hk).mono (hfirst k (by omega)) fun next hnext => ?_
    rw [hfirst next hnext.2]
    exact ⟨⟨hnext.1, by omega⟩, .refl _⟩
  · refine ⟨.ifZero condition tgt, s, hjump, ?_, fun next hnext => ?_⟩
    · rw [hfirst k (Nat.le_refl k), hexit]
      exact ⟨trivial, ⟨s.stack, rfl, rfl⟩, rfl⟩
    · rw [Instruction.successors_ifZero, htgt, List.mem_cons, List.mem_singleton] at hnext
      rcases hnext with rfl | rfl
      · rw [hmiddle _ (Nat.le_refl _) hle']
        exact ⟨⟨by omega, by omega⟩, hentry'⟩
      · rw [hlast]
        exact ⟨⟨by omega, Nat.le_refl _⟩, .refl s⟩
  · by_cases hky : k = y
    · subst hky
      refine ⟨.goto back, s, hgoto, ?_, fun next hnext => ?_⟩
      · rw [hmiddle k hle' (Nat.le_refl k), hexit']
        exact fits_goto back s
      · rw [List.mem_singleton.mp hnext, hback, hfirst lo hle]
        exact ⟨⟨Nat.le_refl lo, by omega⟩, hentry⟩
    · refine (hfits' k (by omega) (by omega)).mono (hmiddle k (by omega) (by omega)) ?_
      intro next hnext
      rw [hmiddle next hnext.1 hnext.2]
      exact ⟨⟨by omega, by omega⟩, .refl _⟩

end Region

/-- A routine whose code is a region and a last instruction that leaves it. -/
theorem Region.annotated {m : Module} {r : Routine} {last : Nat} {i : Instruction} {s s' : Shape}
    (h : Region m r 0 last (entryShape r) s) (hlast : r.code[last]? = some i)
    (hfits : Fits m r i s s') (hsucc : i.successors last = []) (hsize : r.code.size = last + 1) :
    ∃ shape, Annotated m r shape := by
  obtain ⟨-, shape, hentry, hexit, hbody⟩ := h
  refine ⟨shape, by omega, hentry, fun pc hpc => ?_⟩
  by_cases hk : pc = last
  · subst hk
    refine ⟨i, s', hlast, hexit ▸ hfits, fun next hnext => ?_⟩
    rw [hsucc] at hnext
    cases hnext
  · refine (hbody pc (Nat.zero_le pc) (by omega)).mono rfl fun next hnext => ?_
    exact ⟨by omega, .refl _⟩

end PZero.Safety
