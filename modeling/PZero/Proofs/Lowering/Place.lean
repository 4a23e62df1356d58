import Mathlib
import PZero.Bytecode.Module
import PZero.Lowering.Layout

/-! # Code in its place

A piece of code is laid out for the place where it begins. When the code of a
routine has it there, the parts of the piece are in their own places, and the jumps
between them lead where they should.
-/
namespace PZero.Lowering
open Bytecode

/-- The code of the routine has a piece that begins at `base`. -/
def CodeAt (r : Routine) (base : Nat) (code : Code) : Prop :=
  ∃ before after, r.code.toList = before ++ code ++ after ∧ before.length = base

namespace CodeAt
variable {r : Routine} {base : Nat} {a b : Code} {i : Instruction}

theorem left (h : CodeAt r base (a ++ b)) : CodeAt r base a := by
  obtain ⟨before, after, hcode, hbase⟩ := h
  exact ⟨before, b ++ after, by rw [hcode]; simp, hbase⟩

theorem right (h : CodeAt r base (a ++ b)) : CodeAt r (base + a.length) b := by
  obtain ⟨before, after, hcode, rfl⟩ := h
  exact ⟨before ++ a, after, by rw [hcode]; simp, by simp⟩

theorem head (h : CodeAt r base (i :: a)) : r.code[base]? = some i := by
  obtain ⟨before, after, hcode, rfl⟩ := h
  rw [← Array.getElem?_toList, hcode]
  simp

theorem tail (h : CodeAt r base (i :: a)) : CodeAt r (base + 1) a :=
  right (a := [i]) h

theorem le_size (h : CodeAt r base a) : base + a.length ≤ r.code.size := by
  obtain ⟨before, after, hcode, rfl⟩ := h
  rw [← Array.length_toList, hcode]
  simp

end CodeAt

theorem target_toNat {index : Nat} (h : index < 2 ^ 32) : (target index).toNat = index :=
  Nat.mod_eq_of_lt h

/-- The parts of a conditional in their places. -/
theorem CodeAt.conditional {r : Routine} {base : Nat} {guard yes no : Code}
    (h : CodeAt r base (conditional base guard yes no)) :
    CodeAt r base guard ∧
      r.code[base + guard.length]? = some (.ifZero .eq (target (noStart base guard yes))) ∧
      CodeAt r (yesStart base guard) yes ∧
      r.code[yesStart base guard + yes.length]? =
        some (.goto (target (noStart base guard yes + no.length))) ∧
      CodeAt r (noStart base guard yes) no ∧
      base + (Lowering.conditional base guard yes no).length =
        noStart base guard yes + no.length := by
  have hgoto := h.right
  have hplace : base + (guard ++ .ifZero .eq (target (noStart base guard yes)) :: yes).length =
      yesStart base guard + yes.length := by
    simp only [List.length_append, List.length_cons, yesStart]
    omega
  rw [hplace] at hgoto
  refine ⟨h.left.left, h.left.right.head, h.left.right.tail, hgoto.head, hgoto.tail, ?_⟩
  simp only [Lowering.conditional, List.length_append, List.length_cons, noStart, yesStart]
  omega

/-- The parts of a loop in their places. -/
theorem CodeAt.loop {r : Routine} {base : Nat} {guard body : Code}
    (h : CodeAt r base (loop base guard body)) :
    CodeAt r base guard ∧
      r.code[base + guard.length]? =
        some (.ifZero .eq (target (yesStart base guard + body.length + 1))) ∧
      CodeAt r (yesStart base guard) body ∧
      r.code[yesStart base guard + body.length]? = some (.goto (target base)) ∧
      base + (Lowering.loop base guard body).length = yesStart base guard + body.length + 1 := by
  have hgoto := h.right
  have hplace : base +
      (guard ++ .ifZero .eq (target (yesStart base guard + body.length + 1)) :: body).length =
      yesStart base guard + body.length := by
    simp only [List.length_append, List.length_cons, yesStart]
    omega
  rw [hplace] at hgoto
  refine ⟨h.left.left, h.left.right.head, h.left.right.tail, hgoto.head, ?_⟩
  simp only [Lowering.loop, List.length_append, List.length_cons, List.length_nil, yesStart]
  omega

/-- The instructions of a verdict in their places. -/
theorem CodeAt.verdict {r : Routine} {base : Nat} {jump : UInt32 → Instruction}
    (h : CodeAt r base (verdict base jump)) :
    r.code[base]? = some (jump (target (base + 3))) ∧ r.code[base + 1]? = some (.iconst 0) ∧
      r.code[base + 2]? = some (.goto (target (base + 4))) ∧
      r.code[base + 3]? = some (.iconst 1) ∧ base + 4 ≤ r.code.size :=
  ⟨h.head, h.tail.head, h.tail.tail.head, h.tail.tail.tail.head, h.le_size⟩

/-- A printed argument, between the stream and the print, and what follows it. -/
theorem CodeAt.printed {r : Routine} {base : Nat} {argument others : Code} {print : Instruction}
    (h : CodeAt r base (.getStdout :: argument ++ print :: others)) :
    r.code[base]? = some .getStdout ∧ CodeAt r (base + 1) argument ∧
      r.code[base + 1 + argument.length]? = some print ∧
      CodeAt r (base + 1 + argument.length + 1) others ∧
      base + (Instruction.getStdout :: argument ++ print :: others).length =
        base + 1 + argument.length + 1 + others.length := by
  have hrest := h.right
  have hplace : base + (Instruction.getStdout :: argument).length = base + 1 + argument.length := by
    rw [List.length_cons]
    omega
  rw [hplace] at hrest
  refine ⟨h.left.head, h.left.tail, hrest.head, hrest.tail, ?_⟩
  simp only [List.length_append, List.length_cons]
  omega

end PZero.Lowering
