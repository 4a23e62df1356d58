import PZero.Proofs.Lowering.Labels
import PZero.Proofs.Lowering.Module

/-! # Compiled code has labels

Every jump that the lowering writes belongs to a conditional, a loop or a verdict, so
that the code of an expression, a statement or a routine is the layout of code with
labels. Hence an assembler emits all of it without an error.
-/
namespace PZero.Lowering
open Bytecode

/-- The code is the layout, from a place on, of code with labels. -/
def HasLabels (base : Nat) (code : Code) : Prop := ∃ p : Labelled, p.Proper ∧ p.layOut base = code

namespace HasLabels
variable {base : Nat} {code code' guard yes no body : Code} {i : Instruction}

theorem plain (h : ∀ i ∈ code, i.target? = none) : HasLabels base code := ⟨.plain code, h, rfl⟩

theorem nil : HasLabels base [] := plain fun _ hi => nomatch hi

theorem single (h : i.target? = none) : HasLabels base [i] :=
  plain fun _ hi => List.mem_singleton.mp hi ▸ h

theorem append (h : HasLabels base code) (h' : HasLabels (base + code.length) code') :
    HasLabels base (code ++ code') := by
  obtain ⟨p, hp, rfl⟩ := h
  obtain ⟨p', hp', rfl⟩ := h'
  exact ⟨.append p p', ⟨hp, hp'⟩, rfl⟩

theorem conditional (hg : HasLabels base guard) (hy : HasLabels (yesStart base guard) yes)
    (hn : HasLabels (noStart base guard yes) no) :
    HasLabels base (conditional base guard yes no) := by
  obtain ⟨p, hp, rfl⟩ := hg
  obtain ⟨p', hp', rfl⟩ := hy
  obtain ⟨p'', hp'', rfl⟩ := hn
  exact ⟨.conditional p p' p'', ⟨hp, hp', hp''⟩, rfl⟩

theorem loop (hg : HasLabels base guard) (hb : HasLabels (yesStart base guard) body) :
    HasLabels base (loop base guard body) := by
  obtain ⟨p, hp, rfl⟩ := hg
  obtain ⟨p', hp', rfl⟩ := hb
  exact ⟨.loop p p', ⟨hp, hp'⟩, rfl⟩

theorem ifZero (condition : Condition) : HasLabels base (verdict base (.ifZero condition)) :=
  ⟨.verdict (.ifZero condition 0), rfl, rfl⟩

theorem ifCompare (condition : Condition) : HasLabels base (verdict base (.ifCompare condition)) :=
  ⟨.verdict (.ifCompare condition 0), rfl, rfl⟩

end HasLabels

section
variable {owner : String} {slots slots' : Slots} {base : Nat} {code : Code} {i : Instruction}

theorem target?_of_isOperator (h : IsOperator i) : i.target? = none := by
  cases i <;> trivial

theorem hasLabels_operatorCode (h : OperatorCode base code) : HasLabels base code := by
  cases h with
  | plain h => exact .plain fun i hi => target?_of_isOperator (h i hi)
  | ifZero condition h =>
    exact (HasLabels.plain fun i hi => target?_of_isOperator (h i hi)).append (.ifZero condition)
  | ifCompare condition => exact .ifCompare condition

theorem target?_nameCode {t : Ty} {name : String} (h : nameCode owner slots t name = .ok i) :
    i.target? = none := by
  unfold nameCode at h
  split at h
  · cases h
    rfl
  · cases h
    rfl
  · cases h
    rfl
  · cases h
  · simp only [bind_eq_ok, pure_eq_ok] at h
    obtain ⟨_, _, rfl⟩ := h
    rfl

theorem target?_storeCode {t : Ty} {slot : UInt16} (h : storeCode t slot = .ok i) :
    i.target? = none := by
  unfold storeCode at h
  split at h <;> cases h <;> rfl

theorem target?_assignCode {t : Ty} {name : String} (h : assignCode owner slots t name = .ok i) :
    i.target? = none := by
  unfold assignCode at h
  split at h
  · exact target?_storeCode h
  · simp only [bind_eq_ok, pure_eq_ok] at h
    obtain ⟨_, _, rfl⟩ := h
    rfl

theorem target?_printCode {t : Ty} (h : printCode t = .ok i) : i.target? = none := by
  unfold printCode at h
  split at h
  · cases h
    rfl
  · simp only [bind_eq_ok, pure_eq_ok] at h
    obtain ⟨_, _, rfl⟩ := h
    rfl

end

mutual

theorem hasLabels_exprCode {owner : String} {slots : Slots} {base : Nat} {code : Code}
    (e : Typed.Expr) (h : exprCode owner slots base e = .ok code) : HasLabels base code := by
  cases e with
  | ternary guard yes no =>
    obtain ⟨g, y, n, hg, hy, hn, rfl⟩ := exprCode_ternary h
    exact .conditional (hasLabels_exprCode guard hg) (hasLabels_exprCode yes hy)
      (hasLabels_exprCode no hn)
  | binary op left right =>
    obtain ⟨l, r, combine, hl, hr, hcombine, rfl⟩ := exprCode_binary h
    have hoperands := (hasLabels_exprCode left hl).append (hasLabels_exprCode right hr)
    refine hoperands.append ?_
    rw [List.length_append, ← Nat.add_assoc]
    exact hasLabels_operatorCode (binaryCode_operatorCode hcombine)
  | unary t op operand =>
    obtain ⟨c, apply, hc, happly, rfl⟩ := exprCode_unary h
    exact (hasLabels_exprCode operand hc).append
      (hasLabels_operatorCode (unaryCode_operatorCode happly))
  | call t name arguments =>
    simp only [exprCode, bind_eq_ok, pure_eq_ok] at h
    obtain ⟨c, hc, routine, -, rfl⟩ := h
    exact (hasLabels_exprsCode arguments hc).append (.single rfl)
  | name t name =>
    obtain ⟨i, hi, rfl⟩ := exprCode_name h
    exact .single (target?_nameCode hi)
  | literal v =>
    cases h
    cases v <;> exact .single rfl

theorem hasLabels_exprsCode {owner : String} {slots : Slots} {base : Nat} {code : Code}
    (es : List Typed.Expr) (h : exprsCode owner slots base es = .ok code) :
    HasLabels base code := by
  cases es with
  | nil =>
    cases h
    exact .nil
  | cons e rest =>
    obtain ⟨c, others, hc, hothers, rfl⟩ := exprsCode_cons h
    exact (hasLabels_exprCode e hc).append (hasLabels_exprsCode rest hothers)

end

theorem hasLabels_printsCode {owner : String} {slots : Slots} {base : Nat} {code : Code}
    (es : List Typed.Expr) (h : printsCode owner slots base es = .ok code) :
    HasLabels base code := by
  induction es generalizing base code with
  | nil =>
    cases h
    exact .nil
  | cons e rest ih =>
    obtain ⟨c, print, others, hc, hprint, hothers, rfl⟩ := printsCode_cons h
    have hargument : HasLabels base (.getStdout :: c) :=
      (HasLabels.single rfl).append (hasLabels_exprCode e hc)
    have hrest : HasLabels (base + 1 + c.length) (print :: others) :=
      (HasLabels.single (target?_printCode hprint)).append (ih hothers)
    refine hargument.append ?_
    rwa [List.length_cons, Nat.add_comm c.length, ← Nat.add_assoc]

theorem hasLabels_callCode {owner : String} {slots : Slots} {base : Nat} {code : Code}
    {callee : Typed.Callee} {arguments : List Typed.Expr}
    (h : callCode owner slots base callee arguments = .ok code) : HasLabels base code := by
  cases callee with
  | function name =>
    simp only [callCode, bind_eq_ok, pure_eq_ok] at h
    obtain ⟨c, hc, routine, -, rfl⟩ := h
    exact (hasLabels_exprsCode arguments hc).append (.single rfl)
  | print => exact hasLabels_printsCode arguments h
  | println =>
    obtain ⟨c, hc, rfl⟩ := callCode_println h
    exact (hasLabels_printsCode arguments hc).append (.plain (by simp [Instruction.target?]))

mutual

theorem hasLabels_stmtCode {owner : String} {slots slots' : Slots} {base : Nat} {code : Code}
    (s : Typed.Stmt) (h : stmtCode owner slots base s = .ok (code, slots')) :
    HasLabels base code := by
  cases s with
  | assign name value =>
    obtain ⟨c, store, hc, hstore, rfl, -⟩ := stmtCode_assign h
    exact (hasLabels_exprCode value hc).append (.single (target?_assignCode hstore))
  | declare access name value =>
    obtain ⟨c, slot, store, hc, -, hstore, rfl⟩ := stmtCode_declare h
    exact (hasLabels_exprCode value hc).append (.single (target?_storeCode hstore))
  | ifThen guard yes =>
    obtain ⟨g, y, inner, hg, hy, rfl, -⟩ := stmtCode_ifThen h
    exact .conditional (hasLabels_exprCode guard hg) (hasLabels_stmtCode yes hy) .nil
  | ifElse guard yes no =>
    obtain ⟨g, y, n, inner, inner', hg, hy, hn, rfl, -⟩ := stmtCode_ifElse h
    exact .conditional (hasLabels_exprCode guard hg) (hasLabels_stmtCode yes hy)
      (hasLabels_stmtCode no hn)
  | whileDo guard body =>
    obtain ⟨g, b, inner, hg, hb, rfl, -⟩ := stmtCode_whileDo h
    exact .loop (hasLabels_exprCode guard hg) (hasLabels_stmtCode body hb)
  | block body =>
    obtain ⟨inner, hb, -⟩ := stmtCode_block h
    exact hasLabels_stmtsCode body hb
  | call callee arguments => exact hasLabels_callCode (stmtCode_call h).1
  | empty =>
    cases h
    exact .nil

theorem hasLabels_stmtsCode {owner : String} {slots slots' : Slots} {base : Nat} {code : Code}
    (body : List Typed.Stmt) (h : stmtsCode owner slots base body = .ok (code, slots')) :
    HasLabels base code := by
  cases body with
  | nil =>
    cases h
    exact .nil
  | cons s rest =>
    obtain ⟨c, between, others, hc, hothers, rfl⟩ := stmtsCode_cons h
    exact (hasLabels_stmtCode s hc).append (hasLabels_stmtsCode rest hothers)

end

/-! ## Routines -/

end PZero.Lowering
