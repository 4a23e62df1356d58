import PZero.Proofs.Analysis.Fading

/-! # Only the meanings of names matter

The analysis uses a table of names by looking names up in it. Tables in which every name
has the same meaning give the same typed forms and the same diagnostics, whatever frames
they are made of.
-/
namespace PZero.Analysis
open Surface (Identifier)

/-- Every name is bound to the same in both tables. -/
def SameMeanings (env env' : Env) : Prop := ∀ name, env'.get? name = env.get? name

namespace SameMeanings
variable {env env' : Env}

theorem symm (h : SameMeanings env env') : SameMeanings env' env := fun name => (h name).symm

theorem fades (h : SameMeanings env env') : EnvFades env env' := by
  intro name
  rw [h name]
  exact EnvFades.refl env name

theorem openScope (h : SameMeanings env env') : SameMeanings env.openScope env'.openScope := by
  intro name
  rw [Scope.get?_openScope, Scope.get?_openScope]
  exact h name

theorem insert (h : SameMeanings env env') (name : String) (b : Binding) :
    SameMeanings (env.insert name b) (env'.insert name b) := by
  intro other
  rw [Scope.get?_insert, Scope.get?_insert, h other]

end SameMeanings

/-! ## Typed forms -/

section
variable {env env' : Env}

mutual

theorem typedExpr_congr (h : SameMeanings env env') (e : Surface.Expr) :
    typedExpr env' e = typedExpr env e := by
  match e with
  | .ternary guard yes no =>
    simp only [typedExpr, typedExpr_congr h guard, typedExpr_congr h yes, typedExpr_congr h no]
  | .binary op left right =>
    simp only [typedExpr, typedExpr_congr h left, typedExpr_congr h right]
  | .unary s op operand =>
    by_cases hneg : Rules.IsNegative op operand
    · obtain ⟨text, span, rfl, rfl⟩ := hneg.inv
      rfl
    · rw [Rules.typedExpr_unary s hneg, Rules.typedExpr_unary s hneg, typedExpr_congr h operand]
  | .call callee arguments close =>
    simp only [typedExpr, h callee.name, typedExprs_congr h arguments]
  | .name identifier => simp only [typedExpr, nameType, h identifier.name]
  | .paren s inner => exact typedExpr_congr h inner
  | .literal v => rfl

theorem typedExprs_congr (h : SameMeanings env env') (es : List Surface.Expr) :
    typedExprs env' es = typedExprs env es := by
  match es with
  | [] => rfl
  | e :: rest => rw [typedExprs, typedExprs, typedExpr_congr h e, typedExprs_congr h rest]

end

theorem typedCall_congr (h : SameMeanings env env') (callee : Identifier)
    (arguments : List Surface.Expr) :
    typedCall env' callee arguments = typedCall env callee arguments := by
  simp only [typedCall, h callee.name, typedExprs_congr h arguments]

theorem SameMeanings.envAfter (h : SameMeanings env env') (s : Surface.Stmt) :
    SameMeanings (envAfter env s) (envAfter env' s) := by
  cases s with
  | declare access identifier value =>
    simp only [Analysis.envAfter, typedExpr_congr h value]
    exact h.insert identifier.name _
  | _ => exact h

end

theorem SameMeanings.envAfterAll (body : List Surface.Stmt) {env env' : Env}
    (h : SameMeanings env env') : SameMeanings (envAfterAll env body) (envAfterAll env' body) := by
  induction body generalizing env env' with
  | nil => exact h
  | cons s rest ih => exact ih (h.envAfter s)

mutual

theorem typedStmt_congr {env env' : Env} (h : SameMeanings env env') (s : Surface.Stmt) :
    typedStmt env' s = typedStmt env s := by
  match s with
  | .assign target value => rw [typedStmt, typedStmt, typedExpr_congr h value]
  | .declare access identifier value => rw [typedStmt, typedStmt, typedExpr_congr h value]
  | .ifThen guard yes =>
    rw [typedStmt, typedStmt, typedExpr_congr h guard, typedStmt_congr h.openScope yes]
  | .ifElse guard yes no =>
    rw [typedStmt, typedStmt, typedExpr_congr h guard, typedStmt_congr h.openScope yes,
      typedStmt_congr h.openScope no]
  | .whileDo guard body =>
    rw [typedStmt, typedStmt, typedExpr_congr h guard, typedStmt_congr h.openScope body]
  | .block body => rw [typedStmt, typedStmt, typedStmts_congr h.openScope body]
  | .call callee arguments => exact typedCall_congr h callee arguments
  | .empty => rfl

theorem typedStmts_congr {env env' : Env} (h : SameMeanings env env') (body : List Surface.Stmt) :
    typedStmts env' body = typedStmts env body := by
  match body with
  | [] => rfl
  | s :: rest =>
    rw [typedStmts, typedStmts, typedStmt_congr h s, typedStmts_congr (h.envAfter s) rest]

end

/-! ## Declarations -/

section
variable {env env' : Env}

theorem SameMeanings.bodyEnv (h : SameMeanings env env')
    (parameters : List (Identifier × Surface.TypeName)) :
    SameMeanings (bodyEnv env parameters) (bodyEnv env' parameters) := by
  have hinsert : ∀ {inner inner' : Env}, SameMeanings inner inner' →
      SameMeanings (parameters.foldl (fun env p => env.insert p.1.name (.var p.2.ty)) inner)
        (parameters.foldl (fun env p => env.insert p.1.name (.var p.2.ty)) inner') := by
    induction parameters with
    | nil => exact id
    | cons p parameters ih => exact fun hinner => ih (hinner.insert p.1.name (.var p.2.ty))
  exact hinsert h.openScope

theorem typedDecl_congr (h : SameMeanings env env') (d : Surface.Decl) :
    typedDecl env' d = typedDecl env d := by
  cases d with
  | global access identifier value => rfl
  | function identifier parameters body result =>
    have hbody := h.bodyEnv parameters
    simp only [typedDecl, typedStmts_congr hbody body,
      typedExpr_congr (SameMeanings.envAfterAll body hbody)]

theorem diagnoseStmts_congr (h : SameMeanings env env') (body : List Surface.Stmt) :
    diagnoseStmts env' body = diagnoseStmts env body :=
  (diagnoseStmts_sublist h.fades body).antisymm (diagnoseStmts_sublist h.symm.fades body)

theorem diagnoseResult_congr (h : SameMeanings env env') (identifier : Identifier)
    (result : Option (Surface.TypeName × Surface.Expr)) :
    diagnoseResult env' identifier result = diagnoseResult env identifier result :=
  (diagnoseResult_sublist h.fades identifier result).antisymm
    (diagnoseResult_sublist h.symm.fades identifier result)

theorem diagnoseDecl_congr (h : SameMeanings env env') (d : Surface.Decl) :
    diagnoseDecl env' d = diagnoseDecl env d := by
  cases d with
  | global access identifier value => rfl
  | function identifier parameters body result =>
    have hbody := h.bodyEnv parameters
    simp only [diagnoseDecl, diagnoseStmts_congr hbody body,
      diagnoseResult_congr (SameMeanings.envAfterAll body hbody)]

theorem diagnoseEntry_congr (h : SameMeanings env env') (entry : Entry) :
    diagnoseEntry env' entry = diagnoseEntry env entry := by
  cases entry with
  | absent => rfl
  | body statements => exact diagnoseStmts_congr h.openScope statements
  | invalid identifier => rfl

end

end PZero.Analysis
