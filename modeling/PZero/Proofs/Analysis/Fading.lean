import PZero.Analysis.Program
import PZero.Proofs.Checker.Expr

/-! # Types that fade

A type fades when the error type takes its place. Where the types of names fade, the
types of expressions fade with them, and no report condition comes true that was
false before: the diagnostics are among those of before, in the same order.
-/
namespace PZero

/-! ## Types -/

@[simp] theorem Ty.error_compatible (t : Ty) : Ty.error.compatible t = true := by
  cases t <;> rfl

@[simp] theorem Ty.compatible_error (t : Ty) : t.compatible .error = true := by
  cases t <;> rfl

/-- A type stays or becomes the error type. -/
def Ty.Fades (t t' : Ty) : Prop := t' = t ∨ t' = .error

namespace Ty.Fades
variable {t t' u u' : Ty}

theorem refl (t : Ty) : t.Fades t := .inl rfl

theorem error (t : Ty) : t.Fades .error := .inr rfl

theorem compatible (ht : t.Fades t') (hu : u.Fades u') (h : t.compatible u = true) :
    t'.compatible u' = true := by
  rcases ht with rfl | rfl
  · rcases hu with rfl | rfl
    · exact h
    · exact t'.compatible_error
  · exact u'.error_compatible

theorem resultType (op : BinOp) (ht : t.Fades t') (hu : u.Fades u') :
    (Typed.resultType op t u).Fades (Typed.resultType op t' u') := by
  unfold Typed.resultType
  by_cases hop : op.isArithmetic = true
  · rw [if_pos hop, if_pos hop]
    rcases ht with rfl | rfl
    · rcases hu with rfl | rfl
      · exact refl _
      · cases t' <;> exact error _
    · cases u' <;> exact error _
  · rw [if_neg hop, if_neg hop]
    exact refl _

theorem unaryType (op : UnOp) (ht : t.Fades t') :
    (Analysis.unaryType op t).Fades (Analysis.unaryType op t') := by
  cases op with
  | not => exact refl _
  | minus => exact ht
  | plus => exact ht

end Ty.Fades

namespace Analysis
open Surface (Identifier)

/-! ## Reports about types -/

/-- A report that is not made when types are compatible, about something else than the types. -/
theorem report_compatible_sublist {t t' u u' : Ty} (ht : t.Fades t') (hu : u.Fades u')
    (d : Diagnostic) :
    (if t'.compatible u' then [] else [d]).Sublist (if t.compatible u then [] else [d]) := by
  by_cases h : t.compatible u = true
  · rw [if_pos h, if_pos (ht.compatible hu h)]
  · rw [if_neg h]
    split
    · exact List.nil_sublist _
    · exact List.Sublist.refl _

/-- A report about a type that is not compatible with a fixed one. -/
theorem report_type_sublist {t t' : Ty} (ht : t.Fades t') (expected : Ty) (d : Ty → Diagnostic) :
    (if t'.compatible expected then [] else [d t']).Sublist
      (if t.compatible expected then [] else [d t]) := by
  rcases ht with rfl | rfl
  · exact List.Sublist.refl _
  · rw [if_pos expected.error_compatible]
    exact List.nil_sublist _

theorem diagnoseOperands_sublist (op : BinOp) (s u : Span) {left left' right right' : Ty}
    (hl : left.Fades left') (hr : right.Fades right') :
    (diagnoseOperands op (s, left') (u, right')).Sublist
      (diagnoseOperands op (s, left) (u, right)) := by
  have haccepts : acceptsOperand op .error = true := rfl
  rcases hl with rfl | rfl
  · rcases hr with rfl | rfl
    · exact List.Sublist.refl _
    · -- Only the complaint about the left operand is left.
      simp only [diagnoseOperands, haccepts, Ty.compatible_error, if_true, Bool.not_true, Bool.and_false,
        Bool.false_eq_true, if_false, List.append_nil, List.append_assoc]
      exact List.sublist_append_left _ _
  · simp only [diagnoseOperands, haccepts, Ty.error_compatible, if_true, Bool.not_true, Bool.and_false,
      Bool.false_eq_true, if_false, List.append_nil, List.nil_append, List.append_assoc]
    rcases hr with rfl | rfl
    · exact (List.sublist_append_left _ _).trans (List.sublist_append_right _ _)
    · exact List.nil_sublist _

theorem diagnoseOperand_sublist (op : UnOp) (s : Span) {t t' : Ty} (ht : t.Fades t') :
    (diagnoseOperand op (s, t')).Sublist (diagnoseOperand op (s, t)) := by
  rcases ht with rfl | rfl
  · exact List.Sublist.refl _
  · have hnone : diagnoseOperand op (s, .error) = [] := by cases op <;> rfl
    rw [hnone]
    exact List.nil_sublist _

/-- Stands where it stood, and its type fades. -/
def PlacedFades (a a' : Span × Ty) : Prop := a'.1 = a.1 ∧ a.2.Fades a'.2

theorem PlacedFades.refl (a : Span × Ty) : PlacedFades a a := ⟨rfl, .refl _⟩

theorem diagnoseArgumentTypes_sublist (parameters : List Ty) {arguments arguments' : List (Span × Ty)}
    (h : List.Forall₂ PlacedFades arguments arguments') :
    (diagnoseArgumentTypes parameters arguments').Sublist
      (diagnoseArgumentTypes parameters arguments) := by
  induction h generalizing parameters with
  | nil => exact List.Sublist.refl _
  | @cons a a' _ _ ha _ ih =>
    cases parameters with
    | nil => exact List.Sublist.refl _
    | cons p parameters =>
      obtain ⟨hspan, htype⟩ := ha
      rw [diagnoseArgumentTypes, diagnoseArgumentTypes, hspan]
      exact (report_type_sublist htype p fun t => .argumentType t p a.1).append (ih parameters)

theorem diagnoseArguments_sublist (callee : Identifier) (parameters : List Ty)
    {arguments arguments' : List (Span × Ty)} (h : List.Forall₂ PlacedFades arguments arguments') :
    (diagnoseArguments callee parameters arguments').Sublist
      (diagnoseArguments callee parameters arguments) := by
  unfold diagnoseArguments
  rw [h.length_eq]
  split
  · exact diagnoseArgumentTypes_sublist parameters h
  · exact List.Sublist.refl _

/-! ## Names -/

/-- A name keeps what it is, and the type of its value fades. -/
inductive Binding.Fades : Binding → Binding → Prop
  | const {t t'} : t.Fades t' → Fades (.const t) (.const t')
  | var {t t'} : t.Fades t' → Fades (.var t) (.var t')
  | function (parameters result) :
      Fades (.function parameters result) (.function parameters result)

theorem Binding.Fades.refl (b : Binding) : b.Fades b := by
  cases b with
  | const t => exact .const (.refl t)
  | var t => exact .var (.refl t)
  | function parameters result => exact .function parameters result

theorem Binding.Fades.ofAccess (access : Access) {t t' : Ty} (h : t.Fades t') :
    (Binding.ofAccess access t).Fades (.ofAccess access t') := by
  cases access with
  | readOnly => exact .const h
  | readWrite => exact .var h

/-- The same names are bound, and the types of their values fade. -/
def EnvFades (env env' : Env) : Prop :=
  ∀ name, Option.Rel Binding.Fades (env.get? name) (env'.get? name)

namespace EnvFades
variable {env env' : Env}

theorem refl (env : Env) : EnvFades env env := by
  intro name
  cases env.get? name with
  | none => exact .none
  | some b => exact .some (.refl b)

theorem openScope (h : EnvFades env env') : EnvFades env.openScope env'.openScope := by
  intro name
  rw [Scope.get?_openScope, Scope.get?_openScope]
  exact h name

theorem insert (h : EnvFades env env') (name : String) {b b' : Binding} (hb : b.Fades b') :
    EnvFades (env.insert name b) (env'.insert name b') := by
  intro other
  rw [Scope.get?_insert, Scope.get?_insert]
  split
  · exact .some hb
  · exact h other

/-- What a name is bound to on both sides. -/
theorem cases (h : EnvFades env env') (name : String) :
    (∃ t t', env.get? name = some (.const t) ∧ env'.get? name = some (.const t') ∧ t.Fades t') ∨
    (∃ t t', env.get? name = some (.var t) ∧ env'.get? name = some (.var t') ∧ t.Fades t') ∨
    (∃ parameters result, env.get? name = some (.function parameters result) ∧
      env'.get? name = some (.function parameters result)) ∨
    (env.get? name = none ∧ env'.get? name = none) := by
  have hname := h name
  revert hname
  generalize env.get? name = o
  generalize env'.get? name = o'
  intro hname
  cases hname with
  | none => exact .inr (.inr (.inr ⟨rfl, rfl⟩))
  | some hb =>
    cases hb with
    | const ht => exact .inl ⟨_, _, rfl, rfl, ht⟩
    | var ht => exact .inr (.inl ⟨_, _, rfl, rfl, ht⟩)
    | function parameters result => exact .inr (.inr (.inl ⟨parameters, result, rfl, rfl⟩))

end EnvFades

/-! ## Expressions -/

section
variable {env env' : Env}

theorem typedExpr_fades (h : EnvFades env env') (e : Surface.Expr) :
    (typedExpr env e).ty.Fades (typedExpr env' e).ty := by
  match e with
  | .ternary guard yes no =>
    exact typedExpr_fades h yes
  | .binary op left right =>
    exact (typedExpr_fades h left).resultType op (typedExpr_fades h right)
  | .unary s op operand =>
    by_cases hneg : Rules.IsNegative op operand
    · obtain ⟨text, span, rfl, rfl⟩ := hneg.inv
      exact .refl _
    · rw [Rules.typedExpr_unary s hneg, Rules.typedExpr_unary s hneg]
      exact (typedExpr_fades h operand).unaryType op
  | .call callee arguments close =>
    rcases h.cases callee.name with ⟨t, t', hb, hb', -⟩ | ⟨t, t', hb, hb', -⟩ |
      ⟨parameters, result, hb, hb'⟩ | ⟨hb, hb'⟩
    all_goals
      simp only [typedExpr, hb, hb']
      exact .refl _
  | .name identifier =>
    simp only [typedExpr, Typed.Expr.ty, nameType]
    rcases h.cases identifier.name with ⟨t, t', hb, hb', ht⟩ | ⟨t, t', hb, hb', ht⟩ |
      ⟨parameters, result, hb, hb'⟩ | ⟨hb, hb'⟩
    · simpa only [hb, hb'] using ht
    · simpa only [hb, hb'] using ht
    · simp only [hb, hb']
      exact .refl _
    · simp only [hb, hb']
      exact .refl _
  | .paren s inner => exact typedExpr_fades h inner
  | .literal v => exact .refl _

theorem placed_fades (h : EnvFades env env') (e : Surface.Expr) :
    PlacedFades (placed env e) (placed env' e) :=
  ⟨rfl, typedExpr_fades h e⟩

theorem map_placed_fades (h : EnvFades env env') (arguments : List Surface.Expr) :
    List.Forall₂ PlacedFades (arguments.map (placed env)) (arguments.map (placed env')) := by
  induction arguments with
  | nil => exact .nil
  | cons e rest ih => exact .cons (placed_fades h e) ih

theorem diagnoseName_eq_of_fades (h : EnvFades env env') (i : Identifier) :
    diagnoseName env' i = diagnoseName env i := by
  unfold diagnoseName
  rcases h.cases i.name with ⟨t, t', hb, hb', -⟩ | ⟨t, t', hb, hb', -⟩ |
    ⟨parameters, result, hb, hb'⟩ | ⟨hb, hb'⟩ <;>
    rw [hb, hb']

mutual

theorem diagnoseExpr_sublist (h : EnvFades env env') (e : Surface.Expr) :
    (diagnoseExpr env' e).Sublist (diagnoseExpr env e) := by
  match e with
  | .ternary guard yes no =>
    have hguard := report_compatible_sublist (typedExpr_fades h guard) (.refl .bool)
      (.ternaryGuardNotBool guard.span (Surface.Expr.ternary guard yes no).span)
    have hbranches := report_compatible_sublist (typedExpr_fades h yes) (typedExpr_fades h no)
      (.branchesIncompatible yes.span no.span)
    exact ((((diagnoseExpr_sublist h guard).append (diagnoseExpr_sublist h yes)).append
      (diagnoseExpr_sublist h no)).append hguard).append hbranches
  | .binary op left right =>
    have hoperands := diagnoseOperands_sublist op left.span right.span (typedExpr_fades h left)
      (typedExpr_fades h right)
    exact ((diagnoseExpr_sublist h left).append (diagnoseExpr_sublist h right)).append hoperands
  | .unary s op operand =>
    by_cases hneg : Rules.IsNegative op operand
    · obtain ⟨text, span, rfl, rfl⟩ := hneg.inv
      exact List.Sublist.refl _
    · rw [Rules.diagnoseExpr_unary s hneg, Rules.diagnoseExpr_unary s hneg]
      exact (diagnoseExpr_sublist h operand).append
        (diagnoseOperand_sublist op operand.span (typedExpr_fades h operand))
  | .call callee arguments close =>
    rcases h.cases callee.name with ⟨t, t', hb, hb', -⟩ | ⟨t, t', hb, hb', -⟩ |
      ⟨parameters, result, hb, hb'⟩ | ⟨hb, hb'⟩
    · simp only [diagnoseExpr, hb, hb', List.Sublist.refl]
    · simp only [diagnoseExpr, hb, hb', List.Sublist.refl]
    · simp only [diagnoseExpr, hb, hb']
      exact ((diagnoseExprs_sublist h arguments).append
        (diagnoseArguments_sublist callee parameters (map_placed_fades h arguments))).append_right _
    · simp only [diagnoseExpr, hb, hb', List.Sublist.refl]
  | .name identifier =>
    simp only [diagnoseExpr, diagnoseName_eq_of_fades h, List.Sublist.refl]
  | .paren s inner => exact diagnoseExpr_sublist h inner
  | .literal v => exact List.Sublist.refl _

theorem diagnoseExprs_sublist (h : EnvFades env env') (es : List Surface.Expr) :
    (diagnoseExprs env' es).Sublist (diagnoseExprs env es) := by
  match es with
  | [] => exact List.Sublist.refl _
  | e :: rest => exact (diagnoseExpr_sublist h e).append (diagnoseExprs_sublist h rest)

end

/-! ## Statements -/

theorem diagnoseAssignment_sublist (h : EnvFades env env') (target : Identifier)
    {value value' : Span × Ty} (hvalue : PlacedFades value value') :
    (diagnoseAssignment env' target value').Sublist (diagnoseAssignment env target value) := by
  obtain ⟨s, t⟩ := value
  obtain ⟨s', t'⟩ := value'
  obtain ⟨rfl, ht⟩ := hvalue
  unfold diagnoseAssignment
  rcases h.cases target.name with ⟨_, _, hb, hb', -⟩ | ⟨u, u', hb, hb', hu⟩ |
    ⟨parameters, result, hb, hb'⟩ | ⟨hb, hb'⟩
  · simp only [hb, hb', List.Sublist.refl]
  · simp only [hb, hb']
    rcases hu with rfl | rfl
    · rcases ht with rfl | rfl
      · exact List.Sublist.refl _
      · rw [if_pos u'.compatible_error]
        exact List.nil_sublist _
    · rw [if_pos t'.error_compatible]
      exact List.nil_sublist _
  · simp only [hb, hb', List.Sublist.refl]
  · simp only [hb, hb', List.Sublist.refl]

theorem diagnoseCall_sublist (h : EnvFades env env') (callee : Identifier)
    (arguments : List Surface.Expr) :
    (diagnoseCall env' callee arguments).Sublist (diagnoseCall env callee arguments) := by
  unfold diagnoseCall
  rcases h.cases callee.name with ⟨t, t', hb, hb', -⟩ | ⟨t, t', hb, hb', -⟩ |
    ⟨parameters, result, hb, hb'⟩ | ⟨hb, hb'⟩
  · simp only [hb, hb', List.Sublist.refl]
  · simp only [hb, hb', List.Sublist.refl]
  · simp only [hb, hb']
    exact ((diagnoseExprs_sublist h arguments).append
      (diagnoseArguments_sublist callee parameters (map_placed_fades h arguments))).append_right _
  · simp only [hb, hb']
    cases builtin? callee.name with
    | none => exact List.Sublist.refl _
    | some builtin => exact diagnoseExprs_sublist h arguments

theorem diagnoseIfGuard_sublist (h : EnvFades env env') (guard : Surface.Expr) :
    (diagnoseIfGuard env' guard).Sublist (diagnoseIfGuard env guard) :=
  (diagnoseExpr_sublist h guard).append
    (report_type_sublist (typedExpr_fades h guard) .bool fun t => .ifGuardNotBool t guard.span)

theorem envAfter_fades (h : EnvFades env env') (s : Surface.Stmt) :
    EnvFades (envAfter env s) (envAfter env' s) := by
  cases s with
  | declare access identifier value =>
    exact h.insert identifier.name (.ofAccess access (typedExpr_fades h value))
  | _ => exact h

end

theorem envAfterAll_fades (body : List Surface.Stmt) {env env' : Env} (h : EnvFades env env') :
    EnvFades (envAfterAll env body) (envAfterAll env' body) := by
  induction body generalizing env env' with
  | nil => exact h
  | cons s rest ih => exact ih (envAfter_fades h s)

mutual

theorem diagnoseStmt_sublist {env env' : Env} (h : EnvFades env env') (s : Surface.Stmt) :
    (diagnoseStmt env' s).Sublist (diagnoseStmt env s) := by
  match s with
  | .assign target value =>
    exact (diagnoseExpr_sublist h value).append
      (diagnoseAssignment_sublist h target (placed_fades h value))
  | .declare access identifier value => exact diagnoseExpr_sublist h value
  | .ifThen guard yes =>
    exact (diagnoseIfGuard_sublist h guard).append (diagnoseStmt_sublist h.openScope yes)
  | .ifElse guard yes no =>
    exact ((diagnoseIfGuard_sublist h guard).append (diagnoseStmt_sublist h.openScope yes)).append
      (diagnoseStmt_sublist h.openScope no)
  | .whileDo guard body =>
    have hguard := report_type_sublist (typedExpr_fades h guard) .bool
      fun t => .whileGuardNotBool t guard.span
    exact ((diagnoseExpr_sublist h guard).append hguard).append
      (diagnoseStmt_sublist h.openScope body)
  | .block body => exact diagnoseStmts_sublist h.openScope body
  | .call callee arguments => exact diagnoseCall_sublist h callee arguments
  | .empty => exact List.Sublist.refl _

theorem diagnoseStmts_sublist {env env' : Env} (h : EnvFades env env') (body : List Surface.Stmt) :
    (diagnoseStmts env' body).Sublist (diagnoseStmts env body) := by
  match body with
  | [] => exact List.Sublist.refl _
  | s :: rest =>
    exact (diagnoseStmt_sublist h s).append (diagnoseStmts_sublist (envAfter_fades h s) rest)

end

/-! ## Functions -/

theorem diagnoseResult_sublist {env env' : Env} (h : EnvFades env env') (identifier : Identifier)
    (result : Option (Surface.TypeName × Surface.Expr)) :
    (diagnoseResult env' identifier result).Sublist (diagnoseResult env identifier result) := by
  cases result with
  | none => exact List.Sublist.refl _
  | some r =>
    exact (diagnoseExpr_sublist h r.2).append (report_type_sublist (typedExpr_fades h r.2) r.1.ty
      fun t => .resultMismatch identifier.name r.1.ty t identifier.span)

end Analysis
end PZero
