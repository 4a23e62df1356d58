import PZero.Compiler
import PZero.Proofs.Checker.Tree

/-! # What code is made of

For each kind of tree, the pieces that its code is put together from, once the
lowering succeeds; and what the lowering does with the slots. The types of a typed
tree are storage types, so the references in its code are known.
-/
namespace PZero.Lowering
open Bytecode Rules

/-- A computation in two steps succeeds when both do. -/
theorem bind_eq_ok {ε α β : Type} {x : Except ε α} {f : α → Except ε β} {b : β} :
    (x >>= f) = .ok b ↔ ∃ a, x = .ok a ∧ f a = .ok b := by
  cases x <;> simp [bind, Except.bind]

theorem pure_eq_ok {ε α : Type} {a b : α} : (pure a : Except ε α) = .ok b ↔ a = b :=
  Except.ok.injEq a b ▸ Iff.rfl

/-! ## References -/

theorem fieldType_typeOf (t : FieldType) : fieldType (typeOf t) = .ok t := by
  cases t <;> rfl

theorem mapM_fieldType (ts : List FieldType) : (ts.map typeOf).mapM fieldType = .ok ts := by
  induction ts with
  | nil => rfl
  | cons t ts ih =>
    rw [List.map_cons, List.mapM_cons, fieldType_typeOf, ih]
    rfl

theorem descriptor_typeOf (ts : List FieldType) (t : Option FieldType) :
    descriptor (ts.map typeOf) (t.map typeOf) = .ok ⟨ts, t⟩ := by
  rw [descriptor, mapM_fieldType]
  cases t with
  | none => rfl
  | some t =>
    simp only [Option.map_some, fieldType_typeOf]
    rfl

theorem fieldRef_typeOf (owner name : String) (t : FieldType) :
    fieldRef owner name (typeOf t) = .ok ⟨owner, name, t⟩ := by
  rw [fieldRef, fieldType_typeOf]
  rfl

theorem routineRef_typeOf (owner name : String) (ts : List FieldType) (t : Option FieldType) :
    routineRef owner name (ts.map typeOf) (t.map typeOf) = .ok ⟨owner, name, ⟨ts, t⟩⟩ := by
  rw [routineRef, descriptor_typeOf]
  rfl

/-! ## Operators -/

/-- Instructions that work on the operand stack alone. -/
def IsOperator : Instruction → Prop
  | .iconst _ | .iadd | .isub | .imul | .idiv | .ineg | .fadd | .fsub | .fmul | .fdiv | .fneg
  | .iand | .ior | .ixor | .fcmpg => True
  | _ => False

/-- Code that applies an operator: such instructions, and possibly a verdict on what they leave. -/
inductive OperatorCode (base : Nat) : Code → Prop
  | plain {ops} : (∀ i ∈ ops, IsOperator i) → OperatorCode base ops
  | ifZero {ops} (condition : Condition) : (∀ i ∈ ops, IsOperator i) →
      OperatorCode base (ops ++ verdict (base + ops.length) (.ifZero condition))
  | ifCompare (condition : Condition) : OperatorCode base (verdict base (.ifCompare condition))

theorem arithmetic_isOperator {op : BinOp} {t : Ty} {i : Instruction}
    (h : arithmetic op t = .ok i) : IsOperator i := by
  unfold arithmetic at h
  split at h <;> cases h <;> trivial

theorem comparisonCode_operatorCode {base : Nat} {op : BinOp} {t : Ty} {code : Code}
    (h : comparisonCode base op t = .ok code) : OperatorCode base code := by
  unfold comparisonCode at h
  split at h <;> cases h
  · exact .ifCompare _
  · exact @OperatorCode.ifZero base [.fcmpg] _ (List.forall_mem_singleton.mpr trivial)
  · exact .plain (List.forall_mem_singleton.mpr trivial)
  · exact .plain (List.forall_mem_cons.mpr
      ⟨trivial, List.forall_mem_cons.mpr ⟨trivial, List.forall_mem_singleton.mpr trivial⟩⟩)

theorem binaryCode_operatorCode {base : Nat} {op : BinOp} {t : Ty} {code : Code}
    (h : binaryCode base op t = .ok code) : OperatorCode base code := by
  cases op with
  | and | or =>
    cases h
    exact .plain (List.forall_mem_singleton.mpr trivial)
  | plus | minus | times | divide =>
    simp only [binaryCode, bind_eq_ok, pure_eq_ok] at h
    obtain ⟨i, hi, rfl⟩ := h
    exact .plain (List.forall_mem_singleton.mpr (arithmetic_isOperator hi))
  | equal | notEqual | lessThan | lessEqual | greaterThan | greaterEqual =>
    exact comparisonCode_operatorCode h

theorem unaryCode_operatorCode {base : Nat} {op : UnOp} {t : Ty} {code : Code}
    (h : unaryCode base op t = .ok code) : OperatorCode base code := by
  unfold unaryCode at h
  split at h <;> cases h
  · exact @OperatorCode.ifZero base [] _ (by simp)
  · exact .plain (List.forall_mem_singleton.mpr trivial)
  · exact .plain (List.forall_mem_singleton.mpr trivial)
  · exact .plain (by simp)

/-! ## Expressions -/

section
-- The equations are made here, once for all constructors.
attribute [local simp] exprCode exprsCode nameCode storeCode assignCode printsCode callCode
  stmtCode stmtsCode
variable {owner : String} {slots : Slots} {base : Nat} {code : Code}

theorem exprCode_ternary {guard yes no : Typed.Expr}
    (h : exprCode owner slots base (.ternary guard yes no) = .ok code) :
    ∃ g y n, exprCode owner slots base guard = .ok g ∧
      exprCode owner slots (yesStart base g) yes = .ok y ∧
      exprCode owner slots (noStart base g y) no = .ok n ∧ code = conditional base g y n := by
  simp only [exprCode, bind_eq_ok, pure_eq_ok] at h
  obtain ⟨g, hg, y, hy, n, hn, rfl⟩ := h
  exact ⟨g, y, n, hg, hy, hn, rfl⟩

theorem exprCode_binary {op : BinOp} {left right : Typed.Expr}
    (h : exprCode owner slots base (.binary op left right) = .ok code) :
    ∃ l r combine, exprCode owner slots base left = .ok l ∧
      exprCode owner slots (base + l.length) right = .ok r ∧
      binaryCode (base + l.length + r.length) op left.ty = .ok combine ∧
      code = l ++ r ++ combine := by
  simp only [exprCode, bind_eq_ok, pure_eq_ok] at h
  obtain ⟨l, hl, r, hr, combine, hc, rfl⟩ := h
  exact ⟨l, r, combine, hl, hr, hc, rfl⟩

theorem exprCode_unary {t : Ty} {op : UnOp} {operand : Typed.Expr}
    (h : exprCode owner slots base (.unary t op operand) = .ok code) :
    ∃ c apply, exprCode owner slots base operand = .ok c ∧
      unaryCode (base + c.length) op t = .ok apply ∧ code = c ++ apply := by
  simp only [exprCode, bind_eq_ok, pure_eq_ok] at h
  obtain ⟨c, hc, apply, ha, rfl⟩ := h
  exact ⟨c, apply, hc, ha, rfl⟩

theorem exprCode_call {t : FieldType} {ts : List FieldType} {name : String}
    {arguments : List Typed.Expr} (ht : arguments.map (·.ty) = ts.map typeOf)
    (h : exprCode owner slots base (.call (typeOf t) name arguments) = .ok code) :
    ∃ c, exprsCode owner slots base arguments = .ok c ∧
      code = c ++ [.invoke ⟨owner, name, ⟨ts, some t⟩⟩] := by
  have href := routineRef_typeOf owner name ts (some t)
  rw [Option.map_some] at href
  simp only [exprCode, ht, href, bind_eq_ok, pure_eq_ok, Except.ok.injEq] at h
  obtain ⟨c, hc, _, rfl, rfl⟩ := h
  exact ⟨c, hc, rfl⟩

theorem exprCode_name {t : Ty} {name : String}
    (h : exprCode owner slots base (.name t name) = .ok code) :
    ∃ i, nameCode owner slots t name = .ok i ∧ code = [i] := by
  simp only [exprCode, bind_eq_ok, pure_eq_ok] at h
  obtain ⟨i, hi, rfl⟩ := h
  exact ⟨i, hi, rfl⟩

theorem exprsCode_cons {e : Typed.Expr} {rest : List Typed.Expr}
    (h : exprsCode owner slots base (e :: rest) = .ok code) :
    ∃ c others, exprCode owner slots base e = .ok c ∧
      exprsCode owner slots (base + c.length) rest = .ok others ∧ code = c ++ others := by
  simp only [exprsCode, bind_eq_ok, pure_eq_ok] at h
  obtain ⟨c, hc, others, ho, rfl⟩ := h
  exact ⟨c, others, hc, ho, rfl⟩

theorem nameCode_local {t : FieldType} {name : String} {slot : UInt16} {i : Instruction}
    (hs : slots.get? name = some slot) (h : nameCode owner slots (typeOf t) name = .ok i) :
    (t = .int ∨ t = .bool) ∧ i = .iload slot ∨ t = .float ∧ i = .fload slot := by
  cases t <;> simp only [nameCode, hs, typeOf, Except.ok.injEq, reduceCtorEq] at h <;> simp [h]

theorem nameCode_global {t : FieldType} {name : String} {i : Instruction}
    (hs : slots.get? name = none) (h : nameCode owner slots (typeOf t) name = .ok i) :
    i = .getStatic ⟨owner, name, t⟩ := by
  simp only [nameCode, hs, fieldRef_typeOf, bind_eq_ok, pure_eq_ok, Except.ok.injEq] at h
  obtain ⟨_, rfl, rfl⟩ := h
  rfl

/-! ## Statements -/

theorem storeCode_typeOf {t : FieldType} {slot : UInt16} {i : Instruction}
    (h : storeCode (typeOf t) slot = .ok i) :
    (t = .int ∨ t = .bool) ∧ i = .istore slot ∨ t = .float ∧ i = .fstore slot := by
  cases t <;> simp only [storeCode, typeOf, Except.ok.injEq, reduceCtorEq] at h <;> simp [h]

theorem assignCode_global {t : FieldType} {name : String} {i : Instruction}
    (hs : slots.get? name = none) (h : assignCode owner slots (typeOf t) name = .ok i) :
    i = .putStatic ⟨owner, name, t⟩ := by
  simp only [assignCode, hs, fieldRef_typeOf, bind_eq_ok, pure_eq_ok, Except.ok.injEq] at h
  obtain ⟨_, rfl, rfl⟩ := h
  rfl

theorem printCode_typeOf {t : FieldType} {i : Instruction} (h : printCode (typeOf t) = .ok i) :
    t = .float ∧ i = .printFixed printedPlaces ∨ t ≠ .float ∧ i = .print t := by
  cases t with
  | float => exact .inl ⟨rfl, (Except.ok.inj h).symm⟩
  | int | bool | string => exact .inr ⟨by decide, (Except.ok.inj h).symm⟩

theorem printsCode_cons {e : Typed.Expr} {rest : List Typed.Expr}
    (h : printsCode owner slots base (e :: rest) = .ok code) :
    ∃ c print others, exprCode owner slots (base + 1) e = .ok c ∧ printCode e.ty = .ok print ∧
      printsCode owner slots (base + 1 + c.length + 1) rest = .ok others ∧
      code = .getStdout :: c ++ print :: others := by
  simp only [printsCode, bind_eq_ok, pure_eq_ok] at h
  obtain ⟨c, hc, print, hp, others, ho, rfl⟩ := h
  exact ⟨c, print, others, hc, hp, ho, rfl⟩

variable {slots' : Slots}

theorem stmtCode_assign {name : String} {value : Typed.Expr}
    (h : stmtCode owner slots base (.assign name value) = .ok (code, slots')) :
    ∃ c store, exprCode owner slots base value = .ok c ∧
      assignCode owner slots value.ty name = .ok store ∧ code = c ++ [store] ∧ slots' = slots := by
  simp only [stmtCode, bind_eq_ok, pure_eq_ok, Prod.mk.injEq] at h
  obtain ⟨c, hc, store, hs, rfl, rfl⟩ := h
  exact ⟨c, store, hc, hs, rfl, rfl⟩

theorem stmtCode_declare {access : Access} {name : String} {value : Typed.Expr}
    (h : stmtCode owner slots base (.declare access name value) = .ok (code, slots')) :
    ∃ c slot store, exprCode owner slots base value = .ok c ∧
      slots.bind name = .ok (slot, slots') ∧ storeCode value.ty slot = .ok store ∧
      code = c ++ [store] := by
  simp only [stmtCode, bind_eq_ok, pure_eq_ok, Prod.exists, Prod.mk.injEq] at h
  obtain ⟨c, hc, slot, bound, hb, store, hs, rfl, rfl⟩ := h
  exact ⟨c, slot, store, hc, hb, hs, rfl⟩

theorem stmtCode_ifThen {guard : Typed.Expr} {yes : Typed.Stmt}
    (h : stmtCode owner slots base (.ifThen guard yes) = .ok (code, slots')) :
    ∃ g y inner, exprCode owner slots base guard = .ok g ∧
      stmtCode owner slots.openScope (yesStart base g) yes = .ok (y, inner) ∧
      code = conditional base g y [] ∧ slots' = inner.closeScope := by
  simp only [stmtCode, bind_eq_ok, pure_eq_ok, Prod.exists, Prod.mk.injEq] at h
  obtain ⟨g, hg, y, inner, hy, rfl, rfl⟩ := h
  exact ⟨g, y, inner, hg, hy, rfl, rfl⟩

theorem stmtCode_ifElse {guard : Typed.Expr} {yes no : Typed.Stmt}
    (h : stmtCode owner slots base (.ifElse guard yes no) = .ok (code, slots')) :
    ∃ g y n inner inner', exprCode owner slots base guard = .ok g ∧
      stmtCode owner slots.openScope (yesStart base g) yes = .ok (y, inner) ∧
      stmtCode owner inner.closeScope.openScope (noStart base g y) no = .ok (n, inner') ∧
      code = conditional base g y n ∧ slots' = inner'.closeScope := by
  simp only [stmtCode, bind_eq_ok, pure_eq_ok, Prod.exists, Prod.mk.injEq] at h
  obtain ⟨g, hg, y, inner, hy, n, inner', hn, rfl, rfl⟩ := h
  exact ⟨g, y, n, inner, inner', hg, hy, hn, rfl, rfl⟩

theorem stmtCode_whileDo {guard : Typed.Expr} {body : Typed.Stmt}
    (h : stmtCode owner slots base (.whileDo guard body) = .ok (code, slots')) :
    ∃ g b inner, exprCode owner slots base guard = .ok g ∧
      stmtCode owner slots.openScope (yesStart base g) body = .ok (b, inner) ∧
      code = loop base g b ∧ slots' = inner.closeScope := by
  simp only [stmtCode, bind_eq_ok, pure_eq_ok, Prod.exists, Prod.mk.injEq] at h
  obtain ⟨g, hg, b, inner, hb, rfl, rfl⟩ := h
  exact ⟨g, b, inner, hg, hb, rfl, rfl⟩

theorem stmtCode_block {body : List Typed.Stmt}
    (h : stmtCode owner slots base (.block body) = .ok (code, slots')) :
    ∃ inner, stmtsCode owner slots.openScope base body = .ok (code, inner) ∧
      slots' = inner.closeScope := by
  simp only [stmtCode, bind_eq_ok, pure_eq_ok, Prod.exists, Prod.mk.injEq] at h
  obtain ⟨c, inner, hb, rfl, rfl⟩ := h
  exact ⟨inner, hb, rfl⟩

theorem stmtCode_call {callee : Typed.Callee} {arguments : List Typed.Expr}
    (h : stmtCode owner slots base (.call callee arguments) = .ok (code, slots')) :
    callCode owner slots base callee arguments = .ok code ∧ slots' = slots := by
  simp only [stmtCode, bind_eq_ok, pure_eq_ok, Prod.mk.injEq] at h
  obtain ⟨c, hc, rfl, rfl⟩ := h
  exact ⟨hc, rfl⟩

theorem callCode_function {name : String} {arguments : List Typed.Expr} {ts : List FieldType}
    (ht : arguments.map (·.ty) = ts.map typeOf)
    (h : callCode owner slots base (.function name) arguments = .ok code) :
    ∃ c, exprsCode owner slots base arguments = .ok c ∧
      code = c ++ [.invoke ⟨owner, name, ⟨ts, none⟩⟩] := by
  have href := routineRef_typeOf owner name ts none
  rw [Option.map_none] at href
  simp only [callCode, ht, href, bind_eq_ok, pure_eq_ok, Except.ok.injEq] at h
  obtain ⟨c, hc, _, rfl, rfl⟩ := h
  exact ⟨c, hc, rfl⟩

theorem callCode_println {arguments : List Typed.Expr}
    (h : callCode owner slots base .println arguments = .ok code) :
    ∃ c, printsCode owner slots base arguments = .ok c ∧
      code = c ++ [.getStdout, .printNewline] := by
  simp only [callCode, bind_eq_ok, pure_eq_ok] at h
  obtain ⟨c, hc, rfl⟩ := h
  exact ⟨c, hc, rfl⟩

theorem stmtsCode_cons {s : Typed.Stmt} {rest : List Typed.Stmt}
    (h : stmtsCode owner slots base (s :: rest) = .ok (code, slots')) :
    ∃ c between others, stmtCode owner slots base s = .ok (c, between) ∧
      stmtsCode owner between (base + c.length) rest = .ok (others, slots') ∧
      code = c ++ others := by
  simp only [stmtsCode, bind_eq_ok, pure_eq_ok, Prod.exists, Prod.mk.injEq] at h
  obtain ⟨c, between, hc, others, last, ho, rfl, rfl⟩ := h
  exact ⟨c, between, others, hc, ho, rfl⟩

end

/-! ## Slots -/

namespace Slots

/-- What a statement does to the slots: it puts names in front of the innermost scope, each with the
next slot. -/
structure Grows (s s' : Slots) : Prop where
  names : ∃ added, s'.names.current = added ++ s.names.current ∧
    s'.next.toNat = s.next.toNat + added.length
  enclosing : s'.names.enclosing = s.names.enclosing
  saved : s'.saved = s.saved
  maxLocals : s.maxLocals ≤ s'.maxLocals
  next : s.next ≤ s.maxLocals → s'.next ≤ s'.maxLocals

namespace Grows
variable {s s' s'' : Slots}

theorem refl (s : Slots) : Grows s s :=
  ⟨⟨[], rfl, rfl⟩, rfl, rfl, Nat.le_refl _, id⟩

theorem trans (h : Grows s s') (h' : Grows s' s'') : Grows s s'' := by
  obtain ⟨added, hnames, hnext⟩ := h.names
  obtain ⟨added', hnames', hnext'⟩ := h'.names
  refine ⟨⟨added' ++ added, ?_, ?_⟩, h'.enclosing.trans h.enclosing, h'.saved.trans h.saved,
    Nat.le_trans h.maxLocals h'.maxLocals, fun hn => h'.next (h.next hn)⟩
  · rw [hnames', hnames, List.append_assoc]
  · rw [hnext', hnext, List.length_append]
    omega

/-- Behind a scope everything is as it was in front of it, but for the size of the frame. -/
theorem closeScope_eq (h : Grows s.openScope s') :
    s'.closeScope = { s with maxLocals := s'.maxLocals } := by
  have hsaved : s'.saved = s.next :: s.saved := h.saved
  have henclosing : s'.names.enclosing = s.names.current :: s.names.enclosing := h.enclosing
  simp only [closeScope, hsaved, Scope.closeScope, henclosing]

theorem closeScope (h : Grows s.openScope s') : Grows s s'.closeScope := by
  rw [h.closeScope_eq]
  exact ⟨⟨[], rfl, rfl⟩, rfl, rfl, h.maxLocals, fun hn => Nat.le_trans hn h.maxLocals⟩

theorem bindings (h : Grows s s') : ∃ added, s'.names.bindings = added ++ s.names.bindings ∧
    s'.next.toNat = s.next.toNat + added.length := by
  obtain ⟨added, hnames, hnext⟩ := h.names
  refine ⟨added, ?_, hnext⟩
  rw [Scope.bindings, hnames, h.enclosing, Scope.bindings, List.append_assoc]

end Grows

@[simp] theorem closeScope_maxLocals (s : Slots) : s.closeScope.maxLocals = s.maxLocals := by
  unfold closeScope
  split <;> rfl

/-- What a scope needs does not count for less than what its sibling in front of it needed. -/
theorem Grows.maxLocals_sibling {s s' : Slots} (h : Grows s.closeScope.openScope s') :
    s.maxLocals ≤ s'.maxLocals := by
  have hle := h.maxLocals
  rwa [openScope, closeScope_maxLocals] at hle

@[simp] theorem bindings_openScope (s : Slots) : s.openScope.names.bindings = s.names.bindings :=
  Scope.bindings_openScope s.names

theorem Grows.names_closeScope {s s' : Slots} (h : Grows s.openScope s') :
    s'.closeScope.names = s.names := by
  rw [h.closeScope_eq]

/-- The slots in use, besides those in front of `first`, are those of the local names. -/
def Counts (s : Slots) (first : Nat) : Prop := s.next.toNat = first + s.names.bindings.length

theorem Counts.openScope {s : Slots} {first : Nat} (h : s.Counts first) :
    s.openScope.Counts first := by
  rw [Counts, bindings_openScope]
  exact h

theorem Counts.grows {s s' : Slots} {first : Nat} (h : s.Counts first) (hg : s.Grows s') :
    s'.Counts first := by
  obtain ⟨added, hnames, hnext⟩ := hg.bindings
  unfold Counts at h ⊢
  rw [hnames, hnext, List.length_append]
  omega

theorem toNat_succ {n : UInt16} (h : n ≠ 65535) : (n + 1).toNat = n.toNat + 1 := by
  have hlt : n.toNat < 65535 := by
    have hsize := n.toNat_lt
    have hne : n.toNat ≠ 65535 := fun heq => h (UInt16.toNat_inj.mp heq)
    omega
  rw [UInt16.toNat_add]
  exact Nat.mod_eq_of_lt (Nat.succ_lt_succ hlt)

theorem toNat_max (a b : UInt16) : (max a b).toNat = max a.toNat b.toNat := by
  simp only [Max.max, UInt16.le_iff_toNat_le]
  split <;> omega

theorem bind_eq_ok_iff {s s' : Slots} {name : String} {slot : UInt16} :
    s.bind name = .ok (slot, s') ↔ s.next ≠ 65535 ∧ slot = s.next ∧
    s' = { s with
      names := s.names.insert name s.next
      next := s.next + 1
      maxLocals := max s.maxLocals (s.next + 1) } := by
  unfold bind
  split
  · next hfull => simp [hfull]
  · next hfree => simp [hfree, eq_comm]

theorem bind_eq {s s' : Slots} {name : String} {slot : UInt16}
    (h : s.bind name = .ok (slot, s')) :
    slot = s.next ∧ s'.names.bindings = (name, s.next) :: s.names.bindings ∧
      s'.next.toNat = s.next.toNat + 1 ∧ s'.next ≤ s'.maxLocals ∧ Grows s s' := by
  obtain ⟨hfree, rfl, rfl⟩ := bind_eq_ok_iff.mp h
  have hnext := toNat_succ hfree
  have hold : s.maxLocals ≤ max s.maxLocals (s.next + 1) := by
    rw [UInt16.le_iff_toNat_le, toNat_max]
    exact Nat.le_max_left _ _
  have hnew : s.next + 1 ≤ max s.maxLocals (s.next + 1) := by
    rw [UInt16.le_iff_toNat_le, toNat_max]
    exact Nat.le_max_right _ _
  exact ⟨rfl, rfl, hnext, hnew, ⟨[(name, s.next)], rfl, hnext⟩, rfl, rfl, hold, fun _ => hnew⟩

end Slots

mutual

theorem stmtCode_grows {owner : String} {slots slots' : Slots} {base : Nat} {code : Code}
    (s : Typed.Stmt) (h : stmtCode owner slots base s = .ok (code, slots')) :
    slots.Grows slots' := by
  cases s with
  | assign name value =>
    obtain ⟨_, _, _, _, _, rfl⟩ := stmtCode_assign h
    exact .refl _
  | declare access name value =>
    obtain ⟨_, _, _, _, hb, _⟩ := stmtCode_declare h
    exact (Slots.bind_eq hb).2.2.2.2
  | ifThen guard yes =>
    obtain ⟨_, _, _, _, hy, _, rfl⟩ := stmtCode_ifThen h
    exact (stmtCode_grows yes hy).closeScope
  | ifElse guard yes no =>
    obtain ⟨_, _, _, _, _, _, hy, hn, _, rfl⟩ := stmtCode_ifElse h
    exact (stmtCode_grows yes hy).closeScope.trans (stmtCode_grows no hn).closeScope
  | whileDo guard body =>
    obtain ⟨_, _, _, _, hb, _, rfl⟩ := stmtCode_whileDo h
    exact (stmtCode_grows body hb).closeScope
  | block body =>
    obtain ⟨_, hb, rfl⟩ := stmtCode_block h
    exact (stmtsCode_grows body hb).closeScope
  | call callee arguments =>
    obtain ⟨_, rfl⟩ := stmtCode_call h
    exact .refl _
  | empty =>
    cases h
    exact .refl _

theorem stmtsCode_grows {owner : String} {slots slots' : Slots} {base : Nat} {code : Code}
    (body : List Typed.Stmt) (h : stmtsCode owner slots base body = .ok (code, slots')) :
    slots.Grows slots' := by
  cases body with
  | nil =>
    cases h
    exact .refl _
  | cons s rest =>
    obtain ⟨_, _, _, hs, hrest, _⟩ := stmtsCode_cons h
    exact (stmtCode_grows s hs).trans (stmtsCode_grows rest hrest)

end

end PZero.Lowering
