import PZero.Compiler
import PZero.Proofs.Checker.Program

/-! # Parentheses

Parentheses may be left out wherever they stand: the typed form of the program is the same,
and so is what is reported, but for the places. The only exception is a minus in front of an
int literal, which is part of the literal when nothing stands between them.
-/
namespace PZero

/-! ## What is left out -/

namespace Surface

/-- An int literal, in any number of parentheses. -/
def Expr.isInt : Expr → Bool
  | .literal (.int ..) => true
  | .paren _ inner => inner.isInt
  | _ => false

mutual

/-- Some parentheses are left out, but none between a minus and an int literal. -/
inductive Expr.Unwraps : Expr → Expr → Prop
  | unwrap (s) {e e'} : Expr.Unwraps e e' → Expr.Unwraps (.paren s e) e'
  | paren (s) {e e'} : Expr.Unwraps e e' → Expr.Unwraps (.paren s e) (.paren s e')
  | ternary {guard guard' yes yes' no no'} : Expr.Unwraps guard guard' → Expr.Unwraps yes yes' →
      Expr.Unwraps no no' → Expr.Unwraps (.ternary guard yes no) (.ternary guard' yes' no')
  | binary (op) {left left' right right'} : Expr.Unwraps left left' → Expr.Unwraps right right' →
      Expr.Unwraps (.binary op left right) (.binary op left' right')
  | unary (s op) {e e'} : (op = .minus → e.isInt → e' = e) → Expr.Unwraps e e' →
      Expr.Unwraps (.unary s op e) (.unary s op e')
  | call (callee close) {es es'} : Exprs.Unwraps es es' →
      Expr.Unwraps (.call callee es close) (.call callee es' close)
  | name (identifier) : Expr.Unwraps (.name identifier) (.name identifier)
  | literal (v) : Expr.Unwraps (.literal v) (.literal v)

inductive Exprs.Unwraps : List Expr → List Expr → Prop
  | nil : Exprs.Unwraps [] []
  | cons {e e' es es'} : Expr.Unwraps e e' → Exprs.Unwraps es es' →
      Exprs.Unwraps (e :: es) (e' :: es')

end

mutual

inductive Stmt.Unwraps : Stmt → Stmt → Prop
  | assign (target) {value value'} : value.Unwraps value' →
      Stmt.Unwraps (.assign target value) (.assign target value')
  | declare (access identifier) {value value'} : value.Unwraps value' →
      Stmt.Unwraps (.declare access identifier value) (.declare access identifier value')
  | ifThen {guard guard' yes yes'} : guard.Unwraps guard' → Stmt.Unwraps yes yes' →
      Stmt.Unwraps (.ifThen guard yes) (.ifThen guard' yes')
  | ifElse {guard guard' yes yes' no no'} : guard.Unwraps guard' → Stmt.Unwraps yes yes' →
      Stmt.Unwraps no no' → Stmt.Unwraps (.ifElse guard yes no) (.ifElse guard' yes' no')
  | whileDo {guard guard' body body'} : guard.Unwraps guard' → Stmt.Unwraps body body' →
      Stmt.Unwraps (.whileDo guard body) (.whileDo guard' body')
  | block {body body'} : Stmts.Unwraps body body' → Stmt.Unwraps (.block body) (.block body')
  | call (callee) {es es'} : Exprs.Unwraps es es' → Stmt.Unwraps (.call callee es) (.call callee es')
  | empty : Stmt.Unwraps .empty .empty

inductive Stmts.Unwraps : List Stmt → List Stmt → Prop
  | nil : Stmts.Unwraps [] []
  | cons {s s' rest rest'} : Stmt.Unwraps s s' → Stmts.Unwraps rest rest' →
      Stmts.Unwraps (s :: rest) (s' :: rest')

end

inductive Decl.Unwraps : Decl → Decl → Prop
  | global (access identifier value) :
      Decl.Unwraps (.global access identifier value) (.global access identifier value)
  | procedure (identifier parameters) {body body'} : Stmts.Unwraps body body' →
      Decl.Unwraps (.function identifier parameters body none)
        (.function identifier parameters body' none)
  | function (identifier parameters type) {body body' tail tail'} : Stmts.Unwraps body body' →
      tail.Unwraps tail' → Decl.Unwraps (.function identifier parameters body (some (type, tail)))
        (.function identifier parameters body' (some (type, tail')))

/-- The second program is the first one with some of its parentheses left out. -/
def Program.Unwraps (p p' : Program) : Prop :=
  List.Forall₂ Decl.Unwraps p.declarations p'.declarations

/-- What becomes an int literal was one in parentheses. -/
theorem Expr.Unwraps.isInt {e e' : Expr} (h : e.Unwraps e') (he' : e'.isInt) : e.isInt := by
  match h with
  | .unwrap s h => exact h.isInt he'
  | .paren s h => exact h.isInt he'
  | .literal v => exact he'

/-- A minus does not come to stand in front of an int literal. -/
theorem Expr.Unwraps.isNegative {op : UnOp} {e e' : Expr} (h : e.Unwraps e')
    (hkeep : op = .minus → e.isInt → e' = e) (he' : Rules.IsNegative op e') :
    Rules.IsNegative op e := by
  obtain ⟨text, span, rfl, rfl⟩ := he'.inv
  have heq := hkeep rfl (h.isInt rfl)
  exact heq ▸ he'

end Surface

/-! ## Reports without places -/

namespace Diagnostic

/-- What is reported, without the places where it is. -/
def unplaced : Diagnostic → Diagnostic
  | parseError found expected => parseError { found with span := {} } expected
  | lexicalError token => lexicalError { token with span := {} }
  | redefinition name _ => redefinition name {}
  | operandsIncompatible op _ l _ r => operandsIncompatible op {} l {} r
  | binaryOperandType op t _ => binaryOperandType op t {}
  | resultMismatch name expected found _ => resultMismatch name expected found {}
  | ifGuardNotBool t _ => ifGuardNotBool t {}
  | invalidMain _ => invalidMain {}
  | argumentType a p _ => argumentType a p {}
  | floatOverflow text _ => floatOverflow text {}
  | intOverflow text _ => intOverflow text {}
  | argumentCount a p _ => argumentCount a p {}
  | branchesIncompatible _ _ => branchesIncompatible {} {}
  | ternaryGuardNotBool _ _ => ternaryGuardNotBool {} {}
  | assignToConstant name _ => assignToConstant name {}
  | assignIncompatible v _ e _ => assignIncompatible v {} e {}
  | assignToFunction name _ => assignToFunction name {}
  | unitFunctionAsValue name _ => unitFunctionAsValue name {}
  | callConstant name _ => callConstant name {}
  | callVariable name _ => callVariable name {}
  | unaryOperandType op t _ => unaryOperandType op t {}
  | referenceFunction name _ => referenceFunction name {}
  | valueFunctionAsStatement name _ => valueFunctionAsStatement name {}
  | unknownIdentifier name _ => unknownIdentifier name {}
  | whileGuardNotBool t _ => whileGuardNotBool t {}

end Diagnostic

namespace Analysis
open Surface (Identifier)

/-- The same is reported, though not at the same places. -/
def SameReports (ds ds' : List Diagnostic) : Prop :=
  ds'.map Diagnostic.unplaced = ds.map Diagnostic.unplaced

namespace SameReports
variable {ds ds' es es' : List Diagnostic}

theorem refl (ds : List Diagnostic) : SameReports ds ds := rfl

theorem append (h : SameReports ds ds') (h' : SameReports es es') :
    SameReports (ds ++ es) (ds' ++ es') := by
  rw [SameReports, List.map_append, List.map_append, h, h']

theorem ite {c : Prop} [Decidable c] (h : SameReports ds ds') (h' : SameReports es es') :
    SameReports (if c then ds else es) (if c then ds' else es') := by
  split
  · exact h
  · exact h'

end SameReports

section
variable {left left' right right' : Span × Ty}

/-- Operands are judged by their types. -/
theorem diagnoseOperands_sameReports (op : BinOp) (hl : left'.2 = left.2) (hr : right'.2 = right.2) :
    SameReports (diagnoseOperands op left right) (diagnoseOperands op left' right') := by
  unfold diagnoseOperands
  rw [hl, hr]
  refine (SameReports.append (.ite (.refl _) ?_) (.ite (.refl _) ?_)).append (.ite ?_ (.refl _))
  · exact rfl
  · exact rfl
  · exact rfl

theorem diagnoseOperand_sameReports (op : UnOp) (h : left'.2 = left.2) :
    SameReports (diagnoseOperand op left) (diagnoseOperand op left') := by
  unfold diagnoseOperand
  rw [h]
  exact .ite (.refl _) rfl

theorem diagnoseArgumentTypes_sameReports (parameters : List Ty)
    {arguments arguments' : List (Span × Ty)}
    (h : arguments'.map (·.2) = arguments.map (·.2)) :
    SameReports (diagnoseArgumentTypes parameters arguments)
      (diagnoseArgumentTypes parameters arguments') := by
  induction arguments generalizing parameters arguments' with
  | nil =>
    obtain rfl := List.map_eq_nil_iff.mp h
    exact .refl _
  | cons a arguments ih =>
    obtain ⟨a', arguments', rfl, ha, hrest⟩ := List.map_eq_cons_iff.mp h
    cases parameters with
    | nil => exact .refl _
    | cons p parameters =>
      rw [diagnoseArgumentTypes, diagnoseArgumentTypes, ha]
      exact .append (.ite (.refl _) rfl) (ih parameters hrest)

theorem diagnoseArguments_sameReports (callee : Identifier) (parameters : List Ty)
    {arguments arguments' : List (Span × Ty)}
    (h : arguments'.map (·.2) = arguments.map (·.2)) :
    SameReports (diagnoseArguments callee parameters arguments)
      (diagnoseArguments callee parameters arguments') := by
  have hlength : arguments'.length = arguments.length := by simpa using congrArg List.length h
  unfold diagnoseArguments
  rw [hlength]
  exact .ite (diagnoseArgumentTypes_sameReports parameters h) (.refl _)

end

/-! ## Expressions -/

section
variable {env : Env}

mutual

theorem typedExpr_unwraps {e e' : Surface.Expr} (h : e.Unwraps e') :
    typedExpr env e' = typedExpr env e := by
  match h with
  | .unwrap s h => rw [typedExpr, typedExpr_unwraps h]
  | .paren s h => rw [typedExpr, typedExpr, typedExpr_unwraps h]
  | .ternary hg hy hn =>
    rw [typedExpr, typedExpr, typedExpr_unwraps hg, typedExpr_unwraps hy, typedExpr_unwraps hn]
  | .binary op hl hr => rw [typedExpr, typedExpr, typedExpr_unwraps hl, typedExpr_unwraps hr]
  | @Surface.Expr.Unwraps.unary s op e e' hkeep h =>
    by_cases hneg : Rules.IsNegative op e
    · obtain ⟨text, span, rfl, rfl⟩ := hneg.inv
      rw [hkeep rfl rfl]
    · have hneg' : ¬ Rules.IsNegative op e' := fun h' => hneg (h.isNegative hkeep h')
      rw [Rules.typedExpr_unary s hneg, Rules.typedExpr_unary s hneg', typedExpr_unwraps h]
  | .call callee close h => simp only [typedExpr, typedExprs_unwraps h]
  | .name identifier => rfl
  | .literal v => rfl

theorem typedExprs_unwraps {es es' : List Surface.Expr} (h : Surface.Exprs.Unwraps es es') :
    typedExprs env es' = typedExprs env es := by
  match h with
  | .nil => rfl
  | .cons h hs => rw [typedExprs, typedExprs, typedExpr_unwraps h, typedExprs_unwraps hs]

end

theorem placed_unwraps {e e' : Surface.Expr} (h : e.Unwraps e') :
    (placed env e').2 = (placed env e).2 := congrArg Typed.Expr.ty (typedExpr_unwraps h)

theorem map_placed_unwraps {es es' : List Surface.Expr} (h : Surface.Exprs.Unwraps es es') :
    (es'.map (placed env)).map (·.2) = (es.map (placed env)).map (·.2) := by
  rw [Rules.map_placed, Rules.map_placed, typedExprs_unwraps h]

mutual

theorem diagnoseExpr_unwraps {e e' : Surface.Expr} (h : e.Unwraps e') :
    SameReports (diagnoseExpr env e) (diagnoseExpr env e') := by
  match h with
  | .unwrap s h =>
    rw [diagnoseExpr]
    exact diagnoseExpr_unwraps h
  | .paren s h =>
    rw [diagnoseExpr, diagnoseExpr]
    exact diagnoseExpr_unwraps h
  | .ternary hg hy hn =>
    rw [diagnoseExpr, diagnoseExpr, typedExpr_unwraps hg, typedExpr_unwraps hy, typedExpr_unwraps hn]
    refine .append (.append ?_ (.ite (.refl _) rfl)) (.ite (.refl _) rfl)
    exact ((diagnoseExpr_unwraps hg).append (diagnoseExpr_unwraps hy)).append
      (diagnoseExpr_unwraps hn)
  | .binary op hl hr =>
    exact ((diagnoseExpr_unwraps hl).append (diagnoseExpr_unwraps hr)).append
      (diagnoseOperands_sameReports op (placed_unwraps hl) (placed_unwraps hr))
  | @Surface.Expr.Unwraps.unary s op e e' hkeep h =>
    by_cases hneg : Rules.IsNegative op e
    · obtain ⟨text, span, rfl, rfl⟩ := hneg.inv
      rw [hkeep rfl rfl]
      exact .refl _
    · have hneg' : ¬ Rules.IsNegative op e' := fun h' => hneg (h.isNegative hkeep h')
      rw [Rules.diagnoseExpr_unary s hneg, Rules.diagnoseExpr_unary s hneg']
      exact (diagnoseExpr_unwraps h).append (diagnoseOperand_sameReports op (placed_unwraps h))
  | .call callee close h =>
    simp only [diagnoseExpr]
    split
    · exact .refl _
    · exact .refl _
    · exact ((diagnoseExprs_unwraps h).append
        (diagnoseArguments_sameReports callee _ (map_placed_unwraps h))).append (.refl _)
    · exact .refl _
  | .name identifier => exact .refl _
  | .literal v => exact .refl _

theorem diagnoseExprs_unwraps {es es' : List Surface.Expr} (h : Surface.Exprs.Unwraps es es') :
    SameReports (diagnoseExprs env es) (diagnoseExprs env es') := by
  match h with
  | .nil => exact .refl _
  | .cons h hs => exact (diagnoseExpr_unwraps h).append (diagnoseExprs_unwraps hs)

end

end

/-! ## Statements -/

theorem envAfter_unwraps {env : Env} {s s' : Surface.Stmt} (h : s.Unwraps s') :
    envAfter env s' = envAfter env s := by
  cases h with
  | declare access identifier h => simp only [envAfter, typedExpr_unwraps h]
  | _ => rfl

theorem envAfterAll_unwraps {env : Env} {body body' : List Surface.Stmt}
    (h : Surface.Stmts.Unwraps body body') : envAfterAll env body' = envAfterAll env body := by
  match h with
  | .nil => rfl
  | .cons h hs =>
    rw [envAfterAll, envAfterAll, List.foldl_cons, List.foldl_cons, envAfter_unwraps h]
    exact envAfterAll_unwraps hs

theorem typedCall_unwraps {env : Env} (callee : Identifier) {es es' : List Surface.Expr}
    (h : Surface.Exprs.Unwraps es es') : typedCall env callee es' = typedCall env callee es := by
  simp only [typedCall, typedExprs_unwraps h]

theorem diagnoseCall_unwraps {env : Env} (callee : Identifier) {es es' : List Surface.Expr}
    (h : Surface.Exprs.Unwraps es es') :
    SameReports (diagnoseCall env callee es) (diagnoseCall env callee es') := by
  unfold diagnoseCall
  split
  · exact .refl _
  · exact .refl _
  · exact ((diagnoseExprs_unwraps h).append
      (diagnoseArguments_sameReports callee _ (map_placed_unwraps h))).append (.refl _)
  · exact diagnoseExprs_unwraps h
  · exact .refl _

theorem diagnoseAssignment_unwraps {env : Env} (target : Identifier) {value value' : Surface.Expr}
    (h : value.Unwraps value') : SameReports (diagnoseAssignment env target (placed env value))
      (diagnoseAssignment env target (placed env value')) := by
  unfold diagnoseAssignment
  split
  · exact .refl _
  · exact .refl _
  · exact .refl _
  · rw [placed_unwraps h]
    exact .ite (.refl _) rfl

theorem diagnoseIfGuard_unwraps {env : Env} {guard guard' : Surface.Expr}
    (h : guard.Unwraps guard') :
    SameReports (diagnoseIfGuard env guard) (diagnoseIfGuard env guard') := by
  unfold diagnoseIfGuard
  rw [typedExpr_unwraps h]
  exact (diagnoseExpr_unwraps h).append (.ite (.refl _) rfl)

mutual

theorem typedStmt_unwraps {env : Env} {s s' : Surface.Stmt} (h : s.Unwraps s') :
    typedStmt env s' = typedStmt env s := by
  match h with
  | .assign target h => rw [typedStmt, typedStmt, typedExpr_unwraps h]
  | .declare access identifier h => rw [typedStmt, typedStmt, typedExpr_unwraps h]
  | .ifThen hg hy => rw [typedStmt, typedStmt, typedExpr_unwraps hg, typedStmt_unwraps hy]
  | .ifElse hg hy hn =>
    rw [typedStmt, typedStmt, typedExpr_unwraps hg, typedStmt_unwraps hy, typedStmt_unwraps hn]
  | .whileDo hg hb => rw [typedStmt, typedStmt, typedExpr_unwraps hg, typedStmt_unwraps hb]
  | .block hb => rw [typedStmt, typedStmt, typedStmts_unwraps hb]
  | .call callee h => exact typedCall_unwraps callee h
  | .empty => rfl

theorem typedStmts_unwraps {env : Env} {body body' : List Surface.Stmt}
    (h : Surface.Stmts.Unwraps body body') : typedStmts env body' = typedStmts env body := by
  match h with
  | .nil => rfl
  | .cons h hs =>
    rw [typedStmts, typedStmts, typedStmt_unwraps h, envAfter_unwraps h, typedStmts_unwraps hs]

end

mutual

theorem diagnoseStmt_unwraps {env : Env} {s s' : Surface.Stmt} (h : s.Unwraps s') :
    SameReports (diagnoseStmt env s) (diagnoseStmt env s') := by
  match h with
  | .assign target h =>
    exact (diagnoseExpr_unwraps h).append (diagnoseAssignment_unwraps target h)
  | .declare access identifier h =>
    rw [diagnoseStmt, diagnoseStmt]
    exact diagnoseExpr_unwraps h
  | .ifThen hg hy => exact (diagnoseIfGuard_unwraps hg).append (diagnoseStmt_unwraps hy)
  | .ifElse hg hy hn =>
    exact ((diagnoseIfGuard_unwraps hg).append (diagnoseStmt_unwraps hy)).append
      (diagnoseStmt_unwraps hn)
  | .whileDo hg hb =>
    simp only [diagnoseStmt, typedExpr_unwraps hg]
    refine ((diagnoseExpr_unwraps hg).append ?_).append (diagnoseStmt_unwraps hb)
    exact .ite (.refl _) rfl
  | .block hb =>
    rw [diagnoseStmt, diagnoseStmt]
    exact diagnoseStmts_unwraps hb
  | .call callee h => exact diagnoseCall_unwraps callee h
  | .empty => exact .refl _

theorem diagnoseStmts_unwraps {env : Env} {body body' : List Surface.Stmt}
    (h : Surface.Stmts.Unwraps body body') :
    SameReports (diagnoseStmts env body) (diagnoseStmts env body') := by
  match h with
  | .nil => exact .refl _
  | .cons h hs =>
    rw [diagnoseStmts, diagnoseStmts, envAfter_unwraps h]
    exact (diagnoseStmt_unwraps h).append (diagnoseStmts_unwraps hs)

end

/-! ## Declarations -/

theorem declared_unwraps {body body' : List Surface.Stmt} (h : Surface.Stmts.Unwraps body body') :
    declared body' = declared body := by
  cases h with
  | nil => rfl
  | cons h hs =>
    have hrest := declared_unwraps hs
    unfold declared at hrest ⊢
    cases h <;> simp [hrest]

section
variable {d d' : Surface.Decl}

theorem identifier_unwraps (h : d.Unwraps d') : d'.identifier = d.identifier := by
  cases h <;> rfl

theorem ofDecl_unwraps (h : d.Unwraps d') : Binding.ofDecl d' = Binding.ofDecl d := by
  cases h <;> rfl

theorem typedDecl_unwraps {env : Env} (h : d.Unwraps d') : typedDecl env d' = typedDecl env d := by
  cases h with
  | global access identifier value => rfl
  | procedure identifier parameters hb =>
    simp only [typedDecl, typedStmts_unwraps hb, Option.map_none]
  | function identifier parameters type hb ht =>
    simp only [typedDecl, typedStmts_unwraps hb, envAfterAll_unwraps hb, typedExpr_unwraps ht,
      Option.map_some]

theorem diagnoseDecl_unwraps {env : Env} (h : d.Unwraps d') :
    SameReports (diagnoseDecl env d) (diagnoseDecl env d') := by
  cases h with
  | global access identifier value => exact .refl _
  | procedure identifier parameters hb =>
    simp only [diagnoseDecl, diagnoseResult, declared_unwraps hb]
    exact ((SameReports.refl _).append (diagnoseStmts_unwraps hb)).append (.refl _)
  | function identifier parameters type hb ht =>
    simp only [diagnoseDecl, diagnoseResult, declared_unwraps hb, envAfterAll_unwraps hb,
      typedExpr_unwraps ht]
    refine ((SameReports.refl _).append (diagnoseStmts_unwraps hb)).append ?_
    exact (diagnoseExpr_unwraps ht).append (.refl _)

end

/-! ## Programs -/

/-- What is the same for each element is the same for a list. -/
theorem map_eq_of_forall₂ {α β : Type} {R : α → α → Prop} {f : α → β}
    (hf : ∀ a a', R a a' → f a' = f a) {l l' : List α} (h : List.Forall₂ R l l') :
    l'.map f = l.map f := by
  induction h with
  | nil => rfl
  | cons ha _ ih => rw [List.map_cons, List.map_cons, hf _ _ ha, ih]

theorem diagnoseDecls_unwraps {env : Env} {ds ds' : List Surface.Decl}
    (h : List.Forall₂ Surface.Decl.Unwraps ds ds') :
    SameReports (ds.flatMap (diagnoseDecl env)) (ds'.flatMap (diagnoseDecl env)) := by
  induction h with
  | nil => exact .refl _
  | cons hd _ ih => exact (diagnoseDecl_unwraps hd).append ih

theorem globalEnv_unwraps {ds ds' : List Surface.Decl}
    (h : List.Forall₂ Surface.Decl.Unwraps ds ds') : globalEnv ds' = globalEnv ds := by
  unfold globalEnv
  generalize ({} : Env) = env
  induction h generalizing env with
  | nil => rfl
  | cons hd _ ih =>
    rw [List.foldl_cons, List.foldl_cons, bindGlobal, bindGlobal, identifier_unwraps hd,
      ofDecl_unwraps hd]
    exact ih _

/-- The entry function is the same, but for parentheses in its body. -/
inductive Entry.Unwraps : Entry → Entry → Prop
  | absent : Entry.Unwraps .absent .absent
  | body {statements statements'} : Surface.Stmts.Unwraps statements statements' →
      Entry.Unwraps (.body statements) (.body statements')
  | invalid (identifier) : Entry.Unwraps (.invalid identifier) (.invalid identifier)

section
variable {p p' : Surface.Program}

theorem find?_unwraps {ds ds' : List Surface.Decl} (h : List.Forall₂ Surface.Decl.Unwraps ds ds')
    (name : String) : Option.Rel Surface.Decl.Unwraps (ds.find? (·.identifier.name == name))
      (ds'.find? (·.identifier.name == name)) := by
  induction h with
  | nil => exact .none
  | cons hd _ ih =>
    rw [List.find?_cons, List.find?_cons, identifier_unwraps hd]
    split
    · exact .some hd
    · exact ih

theorem entry_unwraps (h : p.Unwraps p') : (entry p).Unwraps (entry p') := by
  have hfind := find?_unwraps h entryName
  unfold entry
  generalize p.declarations.find? _ = o at hfind
  generalize p'.declarations.find? _ = o' at hfind
  cases hfind with
  | none => exact .absent
  | some hd =>
    cases hd with
    | global access identifier value => exact .invalid identifier
    | procedure identifier parameters hb =>
      cases parameters with
      | nil => exact .body hb
      | cons => exact .invalid identifier
    | function identifier parameters type hb ht =>
      cases parameters with
      | nil => exact .invalid identifier
      | cons => exact .invalid identifier

theorem programEnv_unwraps (h : p.Unwraps p') : programEnv p' = programEnv p := by
  have hentry := entry_unwraps h
  unfold programEnv
  rw [globalEnv_unwraps h]
  generalize entry p = x at hentry
  generalize entry p' = x' at hentry
  cases hentry <;> rfl

theorem otherDeclarations_unwraps (h : p.Unwraps p') :
    List.Forall₂ Surface.Decl.Unwraps (otherDeclarations p) (otherDeclarations p') := by
  have hentry := entry_unwraps h
  unfold otherDeclarations
  generalize entry p = x at hentry
  generalize entry p' = x' at hentry
  cases hentry with
  | absent => exact h
  | invalid => exact h
  | body =>
    refine List.rel_filter ?_ h
    intro d d' hd
    simp only [identifier_unwraps hd]

theorem typedProgram_unwraps (h : p.Unwraps p') : typedProgram p' = typedProgram p := by
  have hentry := entry_unwraps h
  have hdecl : ∀ d d' : Surface.Decl, d.Unwraps d' →
      typedDecl (programEnv p) d' = typedDecl (programEnv p) d := fun _ _ => typedDecl_unwraps
  have hdecls := map_eq_of_forall₂ hdecl (otherDeclarations_unwraps h)
  simp only [typedProgram, programEnv_unwraps h, hdecls]
  generalize entry p = x at hentry
  generalize entry p' = x' at hentry
  cases hentry with
  | absent => rfl
  | invalid => rfl
  | body hb => simp only [typedStmts_unwraps hb]

theorem diagnoseProgram_unwraps (h : p.Unwraps p') :
    SameReports (diagnoseProgram p) (diagnoseProgram p') := by
  have hentry := entry_unwraps h
  have hidentifiers : p'.declarations.map (·.identifier) = p.declarations.map (·.identifier) :=
    map_eq_of_forall₂ (fun d d' hd => identifier_unwraps hd) h
  simp only [diagnoseProgram, programEnv_unwraps h, hidentifiers]
  have hothers := otherDeclarations_unwraps h
  refine ((SameReports.refl _).append ?_).append (diagnoseDecls_unwraps hothers)
  generalize entry p = x at hentry
  generalize entry p' = x' at hentry
  cases hentry with
  | absent => exact .refl _
  | invalid => exact .refl _
  | body hb => exact diagnoseStmts_unwraps hb

end

end Analysis

namespace Compiler
open Analysis

theorem compile_of_diagnostics (p : Surface.Program) (name : String) :
    compile p name = match diagnoseProgram p with
      | [] => lower (typedProgram p) name
      | ds => .error (.diagnostics ds) := by
  unfold compile analyse check
  cases diagnoseProgram p <;> rfl

end Compiler

/-- Why there is no module, without the places of the diagnostics. -/
def CompileError.unplaced : CompileError → CompileError
  | .diagnostics ds => .diagnostics (ds.map Diagnostic.unplaced)
  | e => e

open Analysis in
/-- Leaving out parentheses changes neither the typed form of a program nor its module, and nothing
about its diagnostics but where they are. -/
theorem parentheses_transparent {p p' : Surface.Program} (h : p.Unwraps p') :
    typedProgram p' = typedProgram p ∧
    (diagnoseProgram p').map Diagnostic.unplaced = (diagnoseProgram p).map Diagnostic.unplaced ∧
    ∀ name, (Compiler.compile p' name).mapError CompileError.unplaced =
      (Compiler.compile p name).mapError CompileError.unplaced := by
  have htyped := typedProgram_unwraps h
  have hreports : (diagnoseProgram p').map Diagnostic.unplaced =
      (diagnoseProgram p).map Diagnostic.unplaced := diagnoseProgram_unwraps h
  refine ⟨htyped, hreports, fun name => ?_⟩
  rw [Compiler.compile_of_diagnostics, Compiler.compile_of_diagnostics, htyped]
  cases hp : diagnoseProgram p with
  | nil =>
    rw [hp, List.map_nil, List.map_eq_nil_iff] at hreports
    rw [hreports]
  | cons d ds =>
    rw [hp] at hreports
    obtain ⟨d', ds', hp', -, -⟩ := List.map_eq_cons_iff.mp hreports
    rw [hp'] at hreports ⊢
    exact congrArg (fun l => Except.error (CompileError.diagnostics l)) hreports

/-- A guard in parentheses, and a minus that is kept away from its int by parentheses. -/
def wrapped : Surface.Program where
  declarations :=
    [.function ⟨"main", {}⟩ []
      [.declare .readOnly ⟨"x", {}⟩
          (.paren {} (.unary {} .minus (.paren {} (.literal (.int "5" {}))))),
        .ifThen (.paren ⟨⟨20, 2, 4⟩, ⟨24, 2, 8⟩⟩ (.paren ⟨⟨21, 2, 5⟩, ⟨23, 2, 7⟩⟩
          (.name ⟨"x", ⟨⟨22, 2, 6⟩, ⟨22, 2, 6⟩⟩⟩))) .empty] none]

def unwrapped : Surface.Program where
  declarations :=
    [.function ⟨"main", {}⟩ []
      [.declare .readOnly ⟨"x", {}⟩ (.unary {} .minus (.paren {} (.literal (.int "5" {})))),
        .ifThen (.name ⟨"x", ⟨⟨22, 2, 6⟩, ⟨22, 2, 6⟩⟩⟩) .empty] none]

open Analysis Surface in
/-- The guard is reported at another place. -/
theorem parentheses_transparent_unwrapped :
    wrapped.Unwraps unwrapped ∧ typedProgram unwrapped = typedProgram wrapped ∧
    diagnoseProgram unwrapped ≠ diagnoseProgram wrapped ∧
    (diagnoseProgram unwrapped).map Diagnostic.unplaced =
      (diagnoseProgram wrapped).map Diagnostic.unplaced ∧
    (Compiler.compile unwrapped "demo").mapError CompileError.unplaced =
      (Compiler.compile wrapped "demo").mapError CompileError.unplaced := by
  have hvalue : (Expr.paren {} (.unary {} .minus (.paren {} (.literal (.int "5" {}))))).Unwraps
      (.unary {} .minus (.paren {} (.literal (.int "5" {})))) :=
    .unwrap _ (.unary _ _ (fun _ _ => rfl) (.paren _ (.literal _)))
  have hguard := Stmt.Unwraps.ifThen (.unwrap ⟨⟨20, 2, 4⟩, ⟨24, 2, 8⟩⟩
    (.unwrap ⟨⟨21, 2, 5⟩, ⟨23, 2, 7⟩⟩ (.name ⟨"x", ⟨⟨22, 2, 6⟩, ⟨22, 2, 6⟩⟩⟩))) .empty
  have h : wrapped.Unwraps unwrapped :=
    .cons (.procedure _ _ (.cons (.declare _ _ hvalue) (.cons hguard .nil))) .nil
  obtain ⟨htyped, hreports, hcompile⟩ := parentheses_transparent h
  exact ⟨h, htyped, by decide +kernel, hreports, hcompile "demo"⟩

/-- Between a minus and an int literal parentheses matter. -/
example : Analysis.typedExpr {} (.unary {} .minus (.paren {} (.literal (.int "5" {})))) ≠
    Analysis.typedExpr {} (.unary {} .minus (.literal (.int "5" {}))) := by
  simp [Analysis.typedExpr]

end PZero
