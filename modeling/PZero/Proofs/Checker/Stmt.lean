import PZero.Analysis.Stmt
import PZero.Proofs.Checker.Expr

/-! # Statements are checked by the rules

As for expressions, with the tables of names behind a statement in agreement again.
-/
namespace PZero.Rules
open Analysis Bytecode

theorem compatible_bool {t : FieldType} : (typeOf t).compatible .bool = true ↔ t = .bool := by
  cases t <;> decide

mutual

theorem HasStmt.checked {Γ Δ : Context} {s : Surface.Stmt} {s' : Typed.Stmt}
    (h : HasStmt Γ s s' Δ) {env : Env} (ha : Agrees env Γ) :
    diagnoseStmt env s = [] ∧ typedStmt env s = s' ∧ Agrees (envAfter env s) Δ :=
  match h with
  | .assign hx he => by
    obtain ⟨hed, rfl, het⟩ := he.checked ha
    refine ⟨?_, rfl, ha⟩
    simp [diagnoseStmt, hed, diagnoseAssignment, ha.get?_value hx, Binding.ofAccess, placed, het,
      compatible_typeOf]
  | .declare he => by
    obtain ⟨hed, rfl, het⟩ := he.checked ha
    refine ⟨hed, rfl, ?_⟩
    rw [envAfter, het]
    exact ha.declare _ _ _
  | .ifThen hg hy => by
    obtain ⟨hgd, rfl, hgt⟩ := hg.checked ha
    obtain ⟨hyd, rfl, -⟩ := hy.checked ha.openScope
    refine ⟨?_, rfl, ha⟩
    simp [diagnoseStmt, diagnoseIfGuard, hgd, hyd, hgt, compatible_bool.mpr]
  | .ifElse hg hy hn => by
    obtain ⟨hgd, rfl, hgt⟩ := hg.checked ha
    obtain ⟨hyd, rfl, -⟩ := hy.checked ha.openScope
    obtain ⟨hnd, rfl, -⟩ := hn.checked ha.openScope
    refine ⟨?_, rfl, ha⟩
    simp [diagnoseStmt, diagnoseIfGuard, hgd, hyd, hnd, hgt, compatible_bool.mpr]
  | .whileDo hg hb => by
    obtain ⟨hgd, rfl, hgt⟩ := hg.checked ha
    obtain ⟨hbd, rfl, -⟩ := hb.checked ha.openScope
    refine ⟨?_, rfl, ha⟩
    simp [diagnoseStmt, hgd, hbd, hgt, compatible_bool.mpr]
  | .block hb => by
    obtain ⟨hbd, rfl, -⟩ := hb.checked ha.openScope
    exact ⟨hbd, rfl, ha⟩
  | .call hf hs => by
    obtain ⟨hsd, rfl, hst⟩ := hs.checked ha
    have hargs := fun callee => (diagnoseArguments_iff callee _ ((map_placed _).trans hst)).mpr rfl
    refine ⟨?_, ?_, ha⟩
    · simp [diagnoseStmt, diagnoseCall, ha.get?_function hf, hsd, hargs]
    · simp [typedStmt, typedCall, ha.get?_function hf]
  | .print hf hname hs => by
    obtain ⟨hsd, rfl, -⟩ := hs.checked ha
    rw [hname] at hf
    refine ⟨?_, ?_, ha⟩
    · simp [diagnoseStmt, diagnoseCall, hname, ha.get?_none hf, builtin?, hsd]
    · simp [typedStmt, typedCall, hname, ha.get?_none hf, builtin?]
  | .println hf hname hs => by
    obtain ⟨hsd, rfl, -⟩ := hs.checked ha
    rw [hname] at hf
    refine ⟨?_, ?_, ha⟩
    · simp [diagnoseStmt, diagnoseCall, hname, ha.get?_none hf, builtin?, hsd]
    · simp [typedStmt, typedCall, hname, ha.get?_none hf, builtin?]
  | .empty => ⟨rfl, rfl, ha⟩

theorem HasStmts.checked {Γ Δ : Context} {body : List Surface.Stmt} {body' : List Typed.Stmt}
    (h : HasStmts Γ body body' Δ) {env : Env} (ha : Agrees env Γ) :
    diagnoseStmts env body = [] ∧ typedStmts env body = body' ∧ Agrees (envAfterAll env body) Δ :=
  match h with
  | .nil => ⟨rfl, rfl, ha⟩
  | .cons hs hrest => by
    obtain ⟨hsd, rfl, hafter⟩ := hs.checked ha
    obtain ⟨hrestd, rfl, hlast⟩ := hrest.checked hafter
    exact ⟨by rw [diagnoseStmts, hsd, hrestd]; rfl, by rw [typedStmts], hlast⟩

end

section
variable {env : Env} {Γ : Context}

theorem builtin?_eq_some {name : String} {callee : Typed.Callee} (h : builtin? name = some callee) :
    name = "print" ∧ callee = .print ∨ name = "println" ∧ callee = .println := by
  unfold builtin? at h
  split at h
  · exact .inl ⟨rfl, (Option.some.inj h).symm⟩
  · exact .inr ⟨rfl, (Option.some.inj h).symm⟩
  · exact nomatch h

/-- A guard without diagnostics is a truth value. -/
theorem hasType_guard (ha : Agrees env Γ) {guard : Surface.Expr} {ds : List Diagnostic}
    (hd : diagnoseExpr env guard = [])
    (ht : (if (typedExpr env guard).ty.compatible .bool then [] else ds) = []) (hds : ds ≠ []) :
    HasType Γ guard (typedExpr env guard) .bool := by
  obtain ⟨t, hg⟩ := hasType_typedExpr ha guard hd
  rw [(hg.checked ha).2.2] at ht
  by_cases hc : (typeOf t).compatible .bool = true
  · exact compatible_bool.mp hc ▸ hg
  · rw [if_neg hc] at ht
    exact (hds ht).elim

theorem hasStmt_typedCall (ha : Agrees env Γ) (callee : Surface.Identifier)
    (arguments : List Surface.Expr) (h : diagnoseCall env callee arguments = []) :
    HasStmt Γ (.call callee arguments) (typedCall env callee arguments) Γ := by
  cases hf : Γ.get? callee.name with
  | none =>
    simp only [diagnoseCall, ha.get?_none hf] at h
    simp only [typedCall, ha.get?_none hf]
    cases hb : builtin? callee.name with
    | none => simp [hb] at h
    | some builtin =>
      rw [hb] at h
      obtain ⟨ts, hs⟩ := hasTypes_typedExprs ha arguments h
      rcases builtin?_eq_some hb with ⟨hname, rfl⟩ | ⟨hname, rfl⟩
      · exact .print hf hname hs
      · exact .println hf hname hs
  | some m =>
    cases m with
    | value access t =>
      cases access <;> simp [diagnoseCall, ha.get?_value hf, Binding.ofAccess] at h
    | function parameters result =>
      simp only [diagnoseCall, ha.get?_function hf, List.append_eq_nil_iff] at h
      obtain ⟨⟨hs, harguments⟩, hresult⟩ := h
      obtain ⟨ts, hs⟩ := hasTypes_typedExprs ha arguments hs
      obtain rfl := (diagnoseArguments_iff callee parameters
        ((map_placed _).trans (hs.checked ha).2.2)).mp harguments
      cases result with
      | none =>
        simp only [typedCall, ha.get?_function hf]
        exact .call hf hs
      | some t => simp at hresult

end

mutual

theorem hasStmt_typedStmt {env : Env} {Γ : Context} (ha : Agrees env Γ) (s : Surface.Stmt)
    (h : diagnoseStmt env s = []) : ∃ Δ, HasStmt Γ s (typedStmt env s) Δ := by
  cases s with
  | assign target value =>
    simp only [diagnoseStmt, List.append_eq_nil_iff] at h
    obtain ⟨t, he⟩ := hasType_typedExpr ha value h.1
    have ht := h.2
    simp only [placed, (he.checked ha).2.2, diagnoseAssignment] at ht
    cases hx : Γ.get? target.name with
    | none => simp [ha.get?_none hx] at ht
    | some m =>
      cases m with
      | function parameters result => simp [ha.get?_function hx] at ht
      | value access u =>
        cases access with
        | readOnly => simp [ha.get?_value hx, Binding.ofAccess] at ht
        | readWrite =>
          have hu : u = t := by
            simpa [ha.get?_value hx, Binding.ofAccess, compatible_typeOf] using ht
          exact ⟨Γ, .assign (hu ▸ hx) he⟩
  | declare access i value =>
    obtain ⟨t, he⟩ := hasType_typedExpr ha value h
    exact ⟨_, .declare he⟩
  | ifThen guard yes =>
    simp only [diagnoseStmt, diagnoseIfGuard, List.append_eq_nil_iff] at h
    obtain ⟨⟨hgd, hgt⟩, hyd⟩ := h
    obtain ⟨Δ, hy⟩ := hasStmt_typedStmt ha.openScope yes hyd
    exact ⟨Γ, .ifThen (hasType_guard ha hgd hgt (by simp)) hy⟩
  | ifElse guard yes no =>
    simp only [diagnoseStmt, diagnoseIfGuard, List.append_eq_nil_iff] at h
    obtain ⟨⟨⟨hgd, hgt⟩, hyd⟩, hnd⟩ := h
    obtain ⟨Δ, hy⟩ := hasStmt_typedStmt ha.openScope yes hyd
    obtain ⟨Θ, hn⟩ := hasStmt_typedStmt ha.openScope no hnd
    exact ⟨Γ, .ifElse (hasType_guard ha hgd hgt (by simp)) hy hn⟩
  | whileDo guard body =>
    simp only [diagnoseStmt, List.append_eq_nil_iff] at h
    obtain ⟨⟨hgd, hgt⟩, hbd⟩ := h
    obtain ⟨Δ, hb⟩ := hasStmt_typedStmt ha.openScope body hbd
    exact ⟨Γ, .whileDo (hasType_guard ha hgd hgt (by simp)) hb⟩
  | block body =>
    obtain ⟨Δ, hb⟩ := hasStmts_typedStmts ha.openScope body h
    exact ⟨Γ, .block hb⟩
  | call callee arguments => exact ⟨Γ, hasStmt_typedCall ha callee arguments h⟩
  | empty => exact ⟨Γ, .empty⟩

theorem hasStmts_typedStmts {env : Env} {Γ : Context} (ha : Agrees env Γ)
    (body : List Surface.Stmt) (h : diagnoseStmts env body = []) :
    ∃ Δ, HasStmts Γ body (typedStmts env body) Δ := by
  cases body with
  | nil => exact ⟨Γ, .nil⟩
  | cons s rest =>
    simp only [diagnoseStmts, List.append_eq_nil_iff] at h
    obtain ⟨Δ, hs⟩ := hasStmt_typedStmt ha s h.1
    obtain ⟨Θ, hrest⟩ := hasStmts_typedStmts (hs.checked ha).2.2 rest h.2
    exact ⟨Θ, .cons hs hrest⟩

end

end PZero.Rules
