import PZero.Proofs.Analysis.Context
import PZero.Proofs.Analysis.Fading
import PZero.Proofs.Analysis.Names

/-! # One mistake is reported once

An unknown name in the place of an expression is reported where it stands. Its type
is the error type, which only lets the types around it fade, so that nothing else is
reported that was not reported before.
-/
namespace PZero.Analysis
open Surface

/-! ## One diagnostic more -/

/-- A diagnostic is added to a list, from which others may go. -/
def Adds (d : Diagnostic) (ds ds' : List Diagnostic) : Prop :=
  ∃ before after, ds' = before ++ d :: after ∧ (before ++ after).Sublist ds

namespace Adds
variable {d : Diagnostic} {ds ds' others others' : List Diagnostic}

theorem single (d : Diagnostic) (ds : List Diagnostic) : Adds d ds [d] :=
  ⟨[], [], rfl, List.nil_sublist ds⟩

theorem append (h : Adds d ds ds') (ho : others'.Sublist others) :
    Adds d (ds ++ others) (ds' ++ others') := by
  obtain ⟨before, after, rfl, hsub⟩ := h
  refine ⟨before, after ++ others', ?_, ?_⟩
  · rw [List.append_assoc, List.cons_append]
  · rw [← List.append_assoc]
    exact hsub.append ho

theorem append_right (h : Adds d ds ds') (others : List Diagnostic) :
    Adds d (ds ++ others) (ds' ++ others) :=
  h.append (List.Sublist.refl others)

theorem append_left (h : Adds d ds ds') (others : List Diagnostic) :
    Adds d (others ++ ds) (others ++ ds') := by
  obtain ⟨before, after, rfl, hsub⟩ := h
  refine ⟨others ++ before, after, ?_, ?_⟩
  · rw [List.append_assoc]
  · rw [List.append_assoc]
    exact hsub.append_left others

/-- With a name that is new, the added diagnostic can be told from the others. -/
theorem isolated {x : String} (h : Adds d ds ds') (hd : d.name? = some x) (hds : Avoids x ds) :
    ds'.filter (·.name? == some x) = [d] ∧ (ds'.erase d).Sublist ds := by
  obtain ⟨before, after, rfl, hsub⟩ := h
  have hothers : ∀ d' ∈ before ++ after, d'.name? ≠ some x := fun d' hd' => hds d' (hsub.subset hd')
  have hbefore : ∀ d' ∈ before, d'.name? ≠ some x := fun d' hd' =>
    hothers d' (List.mem_append_left after hd')
  have hafter : ∀ d' ∈ after, d'.name? ≠ some x := fun d' hd' =>
    hothers d' (List.mem_append_right before hd')
  have hmem : d ∉ before := fun hmem => hbefore d hmem hd
  constructor
  · rw [List.filter_append, List.filter_eq_nil_iff.mpr (by simpa using hbefore),
      List.filter_cons_of_pos (by rw [hd, beq_self_eq_true]), List.filter_eq_nil_iff.mpr (by simpa using hafter),
      List.nil_append]
  · rw [List.erase_append_right _ hmem, List.erase_cons_head]
    exact hsub

end Adds

/-! ## Lists of expressions and statements -/

theorem diagnoseExprs_append (env : Env) (l r : List Expr) :
    diagnoseExprs env (l ++ r) = diagnoseExprs env l ++ diagnoseExprs env r := by
  induction l with
  | nil => rfl
  | cons e l ih => rw [List.cons_append, diagnoseExprs, ih, diagnoseExprs, List.append_assoc]

theorem typedExprs_append (env : Env) (l r : List Expr) :
    typedExprs env (l ++ r) = typedExprs env l ++ typedExprs env r := by
  induction l with
  | nil => rfl
  | cons e l ih => rw [List.cons_append, typedExprs, ih, typedExprs, List.cons_append]

theorem envAfterAll_cons (env : Env) (s : Stmt) (rest : List Stmt) :
    envAfterAll env (s :: rest) = envAfterAll (envAfter env s) rest := rfl

theorem envAfterAll_append (env : Env) (l r : List Stmt) :
    envAfterAll env (l ++ r) = envAfterAll (envAfterAll env l) r :=
  List.foldl_append

theorem diagnoseStmts_append (env : Env) (l r : List Stmt) :
    diagnoseStmts env (l ++ r) = diagnoseStmts env l ++ diagnoseStmts (envAfterAll env l) r := by
  induction l generalizing env with
  | nil => rfl
  | cons s l ih =>
    rw [List.cons_append, diagnoseStmts, ih, diagnoseStmts, List.append_assoc]
    rfl

section
variable {env : Env} {d : Diagnostic}

theorem map_placed_around {a a' : Expr} (h : PlacedFades (placed env a) (placed env a'))
    (before after : List Expr) :
    List.Forall₂ PlacedFades ((before ++ a :: after).map (placed env))
      ((before ++ a' :: after).map (placed env)) := by
  induction before with
  | nil => exact .cons h (map_placed_fades (.refl env) after)
  | cons e before ih => exact .cons (.refl _) ih

theorem Adds.arguments {a a' : Expr} (h : Adds d (diagnoseExpr env a) (diagnoseExpr env a'))
    (before after : List Expr) :
    Adds d (diagnoseExprs env (before ++ a :: after)) (diagnoseExprs env (before ++ a' :: after)) := by
  rw [diagnoseExprs_append, diagnoseExprs_append]
  exact (h.append_right _).append_left _

/-- The statements behind are analysed with types that have faded. -/
theorem Adds.statements {before : List Stmt} {s s' : Stmt}
    (h : Adds d (diagnoseStmt (envAfterAll env before) s) (diagnoseStmt (envAfterAll env before) s'))
    (hs : EnvFades (envAfter (envAfterAll env before) s) (envAfter (envAfterAll env before) s'))
    (after : List Stmt) :
    Adds d (diagnoseStmts env (before ++ s :: after)) (diagnoseStmts env (before ++ s' :: after)) := by
  rw [diagnoseStmts_append, diagnoseStmts_append]
  exact (h.append (diagnoseStmts_sublist hs after)).append_left _

end

/-! ## Expressions around the hole -/

section
variable {env : Env} {x : String}

theorem typedExpr_standIn (hx : env.get? x = none) (e : Expr) :
    (typedExpr env (e.standIn x)).ty = .error := by
  simp only [Expr.standIn, typedExpr, Typed.Expr.ty, nameType, hx]

theorem diagnoseExpr_standIn (hx : env.get? x = none) (e : Expr) :
    diagnoseExpr env (e.standIn x) = [.unknownIdentifier x e.span] := by
  simp only [Expr.standIn, diagnoseExpr, diagnoseName, hx]

/-- Only a literal itself can be the operand that a minus is folded into. -/
theorem eq_hole_of_isNegative {c : ExprContext} {op : UnOp} {e : Expr}
    (h : Rules.IsNegative op (c.fill e)) : c = .hole := by
  obtain ⟨text, span, -, heq⟩ := h.inv
  cases c with
  | hole => rfl
  | _ => cases heq

theorem not_isNegative_standIn (c : ExprContext) (op : UnOp) (e : Expr) :
    ¬ Rules.IsNegative op (c.fill (e.standIn x)) := by
  intro h
  obtain rfl := eq_hole_of_isNegative h
  obtain ⟨text, span, -, heq⟩ := h.inv
  cases heq

theorem typedExpr_fill_fades (hx : env.get? x = none) (e : Expr) (c : ExprContext) :
    (typedExpr env (c.fill e)).ty.Fades (typedExpr env (c.fill (e.standIn x))).ty := by
  induction c with
  | hole => exact .inr (typedExpr_standIn hx e)
  | ternaryGuard guard yes no ih => exact .refl _
  | ternaryYes guard yes no ih => exact ih
  | ternaryNo guard yes no ih => exact .refl _
  | binaryLeft op left right ih => exact ih.resultType op (.refl _)
  | binaryRight op left right ih => exact (Ty.Fades.refl _).resultType op ih
  | unary span op operand ih =>
    simp only [ExprContext.fill]
    rw [Rules.typedExpr_unary span (not_isNegative_standIn operand op e)]
    by_cases hneg : Rules.IsNegative op (operand.fill e)
    · obtain rfl := eq_hole_of_isNegative hneg
      obtain ⟨text, s, rfl, -⟩ := hneg.inv
      exact .inr (typedExpr_standIn hx e)
    · rw [Rules.typedExpr_unary span hneg]
      exact ih.unaryType op
  | argument callee before a after close ih =>
    simp only [ExprContext.fill, typedExpr]
    split <;> exact .refl _
  | paren span inner ih => exact ih

theorem placed_fill_fades (hx : env.get? x = none) (e : Expr) (c : ExprContext) :
    PlacedFades (placed env (c.fill e)) (placed env (c.fill (e.standIn x))) :=
  ⟨c.span_fill rfl, typedExpr_fill_fades hx e c⟩

theorem diagnoseExpr_fill_adds (hx : env.get? x = none) (e : Expr) {c : ExprContext}
    (hc : ReachesExpr env c) :
    Adds (.unknownIdentifier x e.span) (diagnoseExpr env (c.fill e))
      (diagnoseExpr env (c.fill (e.standIn x))) := by
  have hspan : ∀ c : ExprContext, (c.fill (e.standIn x)).span = (c.fill e).span :=
    fun c => c.span_fill rfl
  have hfades : ∀ c : ExprContext,
      (typedExpr env (c.fill e)).ty.Fades (typedExpr env (c.fill (e.standIn x))).ty :=
    typedExpr_fill_fades hx e
  induction c with
  | hole =>
    rw [ExprContext.fill, ExprContext.fill, diagnoseExpr_standIn hx]
    exact .single _ _
  | ternaryGuard guard yes no ih =>
    have hguard := report_compatible_sublist (hfades guard) (.refl .bool)
    simp only [ExprContext.fill, diagnoseExpr, Expr.span, hspan]
    exact ((((ih hc).append_right _).append_right _).append (hguard _)).append_right _
  | ternaryYes guard yes no ih =>
    have hbranches := report_compatible_sublist (hfades yes) (.refl (typedExpr env no).ty)
    simp only [ExprContext.fill, diagnoseExpr, Expr.span, hspan]
    exact ((((ih hc).append_left _).append_right _).append_right _).append (hbranches _)
  | ternaryNo guard yes no ih =>
    have hbranches := report_compatible_sublist (.refl (typedExpr env yes).ty) (hfades no)
    simp only [ExprContext.fill, diagnoseExpr, Expr.span, hspan]
    exact (((ih hc).append_left _).append_right _).append (hbranches _)
  | binaryLeft op left right ih =>
    simp only [ExprContext.fill, diagnoseExpr, placed, hspan]
    exact ((ih hc).append_right _).append
      (diagnoseOperands_sublist op _ _ (hfades left) (.refl _))
  | binaryRight op left right ih =>
    simp only [ExprContext.fill, diagnoseExpr, placed, hspan]
    exact ((ih hc).append_left _).append
      (diagnoseOperands_sublist op _ _ (.refl _) (hfades right))
  | unary span op operand ih =>
    simp only [ExprContext.fill]
    rw [Rules.diagnoseExpr_unary span (not_isNegative_standIn operand op e)]
    by_cases hneg : Rules.IsNegative op (operand.fill e)
    · -- What was one negative literal is now an operator and its operand.
      obtain rfl := eq_hole_of_isNegative hneg
      obtain ⟨text, s, rfl, -⟩ := hneg.inv
      have hplaced : placed env (e.standIn x) = (e.span, .error) :=
        Prod.ext rfl (typedExpr_standIn hx e)
      simp only [ExprContext.fill, hplaced, diagnoseExpr_standIn hx]
      exact .single _ _
    · rw [Rules.diagnoseExpr_unary span hneg]
      simp only [placed, hspan]
      exact (ih hc).append (diagnoseOperand_sublist op _ (hfades operand))
  | argument callee before a after close ih =>
    obtain ⟨⟨parameters, result, hb⟩, hc⟩ := hc
    simp only [ExprContext.fill, diagnoseExpr, hb]
    exact (((ih hc).arguments before after).append (diagnoseArguments_sublist callee parameters
      (map_placed_around (placed_fill_fades hx e a) before after))).append_right _
  | paren span inner ih => exact ih hc

/-- A hole that is not reached leaves no trace in the typed form. -/
theorem fill_of_not_reachesExpr {a a' : Expr} (hspan : a'.span = a.span) {c : ExprContext}
    (hc : ¬ ReachesExpr env c) :
    typedExpr env (c.fill a') = typedExpr env (c.fill a) ∧
      diagnoseExpr env (c.fill a') = diagnoseExpr env (c.fill a) := by
  have hspan : ∀ c : ExprContext, (c.fill a').span = (c.fill a).span := fun c => c.span_fill hspan
  induction c with
  | hole => exact (hc trivial).elim
  | ternaryGuard guard yes no ih | ternaryYes guard yes no ih | ternaryNo guard yes no ih =>
    obtain ⟨ht, hd⟩ := ih hc
    simp only [ExprContext.fill, typedExpr, diagnoseExpr, Expr.span, ht, hd, hspan, and_self]
  | binaryLeft op left right ih | binaryRight op left right ih =>
    obtain ⟨ht, hd⟩ := ih hc
    simp only [ExprContext.fill, typedExpr, diagnoseExpr, placed, ht, hd, hspan, and_self]
  | unary span op operand ih =>
    obtain ⟨ht, hd⟩ := ih hc
    have hneg : ∀ a : Expr, ¬ Rules.IsNegative op (operand.fill a) := by
      intro a h
      obtain rfl := eq_hole_of_isNegative h
      exact hc trivial
    simp only [ExprContext.fill, Rules.typedExpr_unary span (hneg _),
      Rules.diagnoseExpr_unary span (hneg _), placed, ht, hd, hspan, and_self]
  | argument callee before a after close ih =>
    simp only [ExprContext.fill, typedExpr, diagnoseExpr]
    cases hb : env.get? callee.name with
    | none => exact ⟨rfl, rfl⟩
    | some b =>
      cases b with
      | const t => exact ⟨rfl, rfl⟩
      | var t => exact ⟨rfl, rfl⟩
      | function parameters result =>
        obtain ⟨ht, hd⟩ := ih fun h => hc ⟨⟨parameters, result, hb⟩, h⟩
        simp only [typedExprs_append, typedExprs, diagnoseExprs_append, diagnoseExprs,
          List.map_append, List.map_cons, placed, ht, hd, hspan, and_self]
  | paren span inner ih => exact ih hc

/-! ## Statements around the hole -/

theorem envAfter_fill_fades (hx : env.get? x = none) (e : Expr) (s : StmtContext) :
    EnvFades (envAfter env (s.fill e)) (envAfter env (s.fill (e.standIn x))) := by
  cases s with
  | declare access i value =>
    exact (EnvFades.refl env).insert i.name (.ofAccess access (typedExpr_fill_fades hx e value))
  | _ => exact .refl env

theorem diagnoseIfGuard_fill_adds (hx : env.get? x = none) (e : Expr) {c : ExprContext}
    (hc : ReachesExpr env c) :
    Adds (.unknownIdentifier x e.span) (diagnoseIfGuard env (c.fill e))
      (diagnoseIfGuard env (c.fill (e.standIn x))) := by
  have hreport := report_type_sublist (typedExpr_fill_fades hx e c) .bool
    fun t => .ifGuardNotBool t (c.fill e).span
  have hspan : (c.fill (e.standIn x)).span = (c.fill e).span := c.span_fill rfl
  simp only [diagnoseIfGuard, hspan]
  exact (diagnoseExpr_fill_adds hx e hc).append hreport

theorem diagnoseCall_fill_adds (hx : env.get? x = none) (e : Expr) {callee : Identifier}
    (hcallee : IsFunction env callee.name ∨ IsBuiltin env callee.name) {c : ExprContext}
    (hc : ReachesExpr env c) (before after : List Expr) :
    Adds (.unknownIdentifier x e.span) (diagnoseCall env callee (before ++ c.fill e :: after))
      (diagnoseCall env callee (before ++ c.fill (e.standIn x) :: after)) := by
  have hadds := (diagnoseExpr_fill_adds hx e hc).arguments before after
  rcases hcallee with ⟨parameters, result, hb⟩ | ⟨hb, hbuiltin⟩
  · simp only [diagnoseCall, hb]
    exact (hadds.append (diagnoseArguments_sublist callee parameters
      (map_placed_around (placed_fill_fades hx e c) before after))).append_right _
  · obtain ⟨builtin, hbuiltin⟩ := Option.isSome_iff_exists.mp hbuiltin
    simp only [diagnoseCall, hb, hbuiltin]
    exact hadds

end

section
variable {x : String}

theorem diagnoseStmt_fill_adds (e : Expr) (s : StmtContext) {env : Env} (hx : env.get? x = none)
    (hnames : x ∉ (s.fill e).names) (hs : ReachesStmt env s) :
    Adds (.unknownIdentifier x e.span) (diagnoseStmt env (s.fill e))
      (diagnoseStmt env (s.fill (e.standIn x))) := by
  have hopen : ∀ {env : Env}, env.get? x = none → env.openScope.get? x = none := fun {env} h => by
    rw [Scope.get?_openScope, h]
  induction s generalizing env with
  | assign target value =>
    exact (diagnoseExpr_fill_adds hx e hs).append
      (diagnoseAssignment_sublist (.refl env) target (placed_fill_fades hx e value))
  | declare access i value => exact diagnoseExpr_fill_adds hx e hs
  | ifThenGuard guard yes =>
    exact (diagnoseIfGuard_fill_adds hx e hs).append_right _
  | ifThen guard yes ih =>
    simp only [StmtContext.fill, Stmt.names, List.mem_append, not_or] at hnames
    exact (ih (hopen hx) hnames.2 hs).append_left _
  | ifElseGuard guard yes no =>
    exact ((diagnoseIfGuard_fill_adds hx e hs).append_right _).append_right _
  | ifElseYes guard yes no ih =>
    simp only [StmtContext.fill, Stmt.names, List.mem_append, not_or] at hnames
    exact ((ih (hopen hx) hnames.1.2 hs).append_left _).append_right _
  | ifElseNo guard yes no ih =>
    simp only [StmtContext.fill, Stmt.names, List.mem_append, not_or] at hnames
    exact (ih (hopen hx) hnames.2 hs).append_left _
  | whileGuard guard body =>
    have hreport := report_type_sublist (typedExpr_fill_fades hx e guard) .bool
      fun t => .whileGuardNotBool t (guard.fill e).span
    have hspan : (guard.fill (e.standIn x)).span = (guard.fill e).span := guard.span_fill rfl
    simp only [StmtContext.fill, diagnoseStmt, hspan]
    exact ((diagnoseExpr_fill_adds hx e hs).append hreport).append_right _
  | whileBody guard body ih =>
    simp only [StmtContext.fill, Stmt.names, List.mem_append, not_or] at hnames
    exact (ih (hopen hx) hnames.2 hs).append_left _
  | block before s after ih =>
    simp only [StmtContext.fill, Stmt.names, stmtsNames_append, stmtsNames, List.mem_append,
      not_or] at hnames
    have hinner := get?_envAfterAll_eq_none hnames.1 (hopen hx)
    exact (ih hinner hnames.2.1 hs).statements (envAfter_fill_fades hinner e s) after
  | argument callee before a after => exact diagnoseCall_fill_adds hx e hs.1 hs.2 before after

theorem fill_of_not_reachesStmt {a a' : Expr} (hspan : a'.span = a.span) (s : StmtContext)
    {env : Env} (hs : ¬ ReachesStmt env s) :
    diagnoseStmt env (s.fill a') = diagnoseStmt env (s.fill a) ∧
      envAfter env (s.fill a') = envAfter env (s.fill a) := by
  have hfill : ∀ {env : Env} {c : ExprContext}, ¬ ReachesExpr env c →
      typedExpr env (c.fill a') = typedExpr env (c.fill a) ∧
        diagnoseExpr env (c.fill a') = diagnoseExpr env (c.fill a) :=
    fun hc => fill_of_not_reachesExpr hspan hc
  have hspan : ∀ c : ExprContext, (c.fill a').span = (c.fill a).span := fun c => c.span_fill hspan
  induction s generalizing env with
  | assign target value | declare access i value | ifThenGuard guard yes
  | ifElseGuard guard yes no | whileGuard guard body =>
    obtain ⟨ht, hd⟩ := hfill hs
    simp only [StmtContext.fill, diagnoseStmt, diagnoseIfGuard, envAfter, placed, ht, hd, hspan,
      and_self]
  | ifThen guard yes ih | ifElseYes guard yes no ih | ifElseNo guard yes no ih
  | whileBody guard body ih =>
    simp only [StmtContext.fill, diagnoseStmt, envAfter, (ih hs).1, and_self]
  | block before s after ih =>
    obtain ⟨hd, henv⟩ := ih hs
    refine ⟨?_, rfl⟩
    simp only [StmtContext.fill, diagnoseStmt, diagnoseStmts_append, diagnoseStmts, hd, henv]
  | argument callee before c after =>
    simp only [StmtContext.fill, diagnoseStmt, diagnoseCall, envAfter, and_true]
    cases hb : env.get? callee.name with
    | none =>
      cases hbuiltin : builtin? callee.name with
      | none => rfl
      | some builtin =>
        obtain ⟨-, hd⟩ := hfill fun h => hs ⟨.inr ⟨hb, by rw [hbuiltin]; rfl⟩, h⟩
        simp only [diagnoseExprs_append, diagnoseExprs, hd]
    | some b =>
      cases b with
      | const t => rfl
      | var t => rfl
      | function parameters result =>
        obtain ⟨ht, hd⟩ := hfill fun h => hs ⟨.inl ⟨parameters, result, hb⟩, h⟩
        simp only [diagnoseExprs_append, diagnoseExprs, List.map_append, List.map_cons, placed, ht,
          hd, hspan]

/-! ## Functions around the hole -/

theorem diagnoseStmts_fill_adds (e : Expr) {env : Env} (hx : env.get? x = none)
    {before after : List Stmt} {s : StmtContext}
    (hnames : x ∉ stmtsNames (before ++ s.fill e :: after))
    (hs : ReachesStmt (envAfterAll env before) s) :
    Adds (.unknownIdentifier x e.span) (diagnoseStmts env (before ++ s.fill e :: after))
      (diagnoseStmts env (before ++ s.fill (e.standIn x) :: after)) := by
  simp only [stmtsNames_append, stmtsNames, List.mem_append, not_or] at hnames
  have hinner := get?_envAfterAll_eq_none hnames.1 hx
  exact (diagnoseStmt_fill_adds e s hinner hnames.2.1 hs).statements
    (envAfter_fill_fades hinner e s) after

theorem envAfterAll_fill_fades (e : Expr) {env : Env} (hx : env.get? x = none)
    {before after : List Stmt} {s : StmtContext}
    (hnames : x ∉ stmtsNames (before ++ s.fill e :: after)) :
    EnvFades (envAfterAll env (before ++ s.fill e :: after))
      (envAfterAll env (before ++ s.fill (e.standIn x) :: after)) := by
  simp only [stmtsNames_append, List.mem_append, not_or] at hnames
  have hinner := get?_envAfterAll_eq_none hnames.1 hx
  rw [envAfterAll_append, envAfterAll_append]
  exact envAfterAll_fades after (envAfter_fill_fades hinner e s)

theorem diagnoseDecl_fill_adds {env : Env} (hx : env.get? x = none) (e : Expr) {c : DeclContext}
    (hnames : x ∉ (c.fill e).names) (hc : ReachesDecl env c) :
    Adds (.unknownIdentifier x e.span) (diagnoseDecl env (c.fill e))
      (diagnoseDecl env (c.fill (e.standIn x))) := by
  cases c with
  | body i parameters before s after tail =>
    simp only [DeclContext.fill, Decl.names, List.mem_cons, List.mem_append, not_or] at hnames
    obtain ⟨-, ⟨hparameters, hbody⟩, -⟩ := hnames
    have hinner := get?_bodyEnv_eq_none hx hparameters
    simp only [DeclContext.fill, diagnoseDecl, declared_fill e (e.standIn x)]
    exact ((diagnoseStmts_fill_adds e hinner hbody hc).append_left _).append
      (diagnoseResult_sublist (envAfterAll_fill_fades e hinner hbody) i tail)
  | result i parameters statements type tail =>
    simp only [DeclContext.fill, Decl.names, resultNames, List.mem_cons, List.mem_append,
      not_or] at hnames
    obtain ⟨-, ⟨hparameters, hstatements⟩, -⟩ := hnames
    have hinner := get?_envAfterAll_eq_none hstatements (get?_bodyEnv_eq_none hx hparameters)
    have hreport := report_type_sublist (typedExpr_fill_fades hinner e tail) type.ty
      fun t => .resultMismatch i.name type.ty t i.span
    exact ((diagnoseExpr_fill_adds hinner e hc).append hreport).append_left _

theorem fill_of_not_reachesDecl {env : Env} {a a' : Expr} (hspan : a'.span = a.span)
    {c : DeclContext} (hc : ¬ ReachesDecl env c) :
    diagnoseDecl env (c.fill a') = diagnoseDecl env (c.fill a) := by
  cases c with
  | body i parameters before s after tail =>
    obtain ⟨hd, henv⟩ := fill_of_not_reachesStmt hspan s hc
    simp only [DeclContext.fill, diagnoseDecl, declared_fill a a', diagnoseStmts_append,
      diagnoseStmts, envAfterAll_append, envAfterAll_cons, hd, henv]
  | result i parameters statements type tail =>
    obtain ⟨ht, hd⟩ := fill_of_not_reachesExpr hspan hc
    simp only [DeclContext.fill, diagnoseDecl, diagnoseResult, ht, hd]

/-! ## Programs around the hole -/

theorem diagnoseProgram_fill_adds {c : ProgramContext} {e : Expr} (hmain : x ≠ entryName)
    (hnames : x ∉ (c.fill e).names) (hc : Reaches c e) :
    Adds (.unknownIdentifier x e.span) (diagnoseProgram (c.fill e))
      (diagnoseProgram (c.fill (e.standIn x))) := by
  have hx := get?_programEnv_eq_none hmain hnames
  have hdecl : x ∉ (c.decl.fill e).names := fun hmem => hnames (List.mem_flatMap.mpr
    ⟨_, List.mem_append_right c.before List.mem_cons_self, hmem⟩)
  obtain ⟨hkept, hreaches⟩ := hc
  simp only [diagnoseProgram, programEnv_fill c e (e.standIn x), identifiers_fill c e (e.standIn x)]
  cases site c e (e.standIn x) with
  | declaration _ hentry hothers hothers' =>
    simp only [hentry, hothers, hothers', List.flatMap_append, List.flatMap_cons]
    have hadds := diagnoseDecl_fill_adds hx e hdecl hreaches
    exact ((hadds.append_right _).append_left _).append_left _
  | @entry i before s after _ hbody hentry hentry' hothers =>
    rw [hbody] at hdecl hreaches
    simp only [DeclContext.fill, Decl.names, List.mem_cons, List.mem_append, not_or] at hdecl
    have hopen : (programEnv (c.fill e)).openScope.get? x = none := by
      rw [Scope.get?_openScope, hx]
    have hadds := diagnoseStmts_fill_adds e hopen hdecl.2.1.2 hreaches
    simp only [hentry, hentry', hothers, diagnoseEntry]
    exact (hadds.append_left _).append_right _
  | nowhere hdropped => exact (hkept hdropped).elim

theorem diagnoseProgram_fill_eq {c : ProgramContext} {a a' : Expr} (hspan : a'.span = a.span)
    (hc : ¬ Reaches c a) : diagnoseProgram (c.fill a') = diagnoseProgram (c.fill a) := by
  simp only [diagnoseProgram, programEnv_fill c a a', identifiers_fill c a a']
  cases site c a a' with
  | declaration hkept hentry hothers hothers' =>
    have hdecl := fill_of_not_reachesDecl hspan fun h => hc ⟨hkept, h⟩
    simp only [hentry, hothers, hothers', List.flatMap_append, List.flatMap_cons, hdecl]
  | @entry i before s after hkept hbody hentry hentry' hothers =>
    have hs : ¬ ReachesStmt (envAfterAll (programEnv (c.fill a)).openScope before) s := by
      intro h
      refine hc ⟨hkept, ?_⟩
      rw [hbody]
      exact h
    obtain ⟨hd, henv⟩ := fill_of_not_reachesStmt hspan s hs
    simp only [hentry, hentry', hothers, diagnoseEntry, diagnoseStmts_append, diagnoseStmts, hd, henv]
  | nowhere hdropped hentry hothers => rw [hentry, hothers]

end

/-- Cascade suppression. A new name in the place of an expression is reported just once, where it
stands, and nothing is reported besides that was not reported before. Where the analysis does not
come to the place, the diagnostics stay the same. -/
theorem diagnoseProgram_standIn (c : ProgramContext) (e : Expr) (x : String)
    (hmain : x ≠ entryName) (hnames : x ∉ (c.fill e).names) :
    (¬ Reaches c e ∧ diagnoseProgram (c.fill (e.standIn x)) = diagnoseProgram (c.fill e)) ∨
    (Reaches c e ∧
      (diagnoseProgram (c.fill (e.standIn x))).filter (·.name? == some x) =
        [.unknownIdentifier x e.span] ∧
      ((diagnoseProgram (c.fill (e.standIn x))).erase (.unknownIdentifier x e.span)).Sublist
        (diagnoseProgram (c.fill e))) := by
  by_cases hc : Reaches c e
  · have hadds := diagnoseProgram_fill_adds hmain hnames hc
    exact .inr ⟨hc, hadds.isolated rfl (avoids_diagnoseProgram hnames)⟩
  · exact .inl ⟨hc, diagnoseProgram_fill_eq rfl hc⟩

/-- Assigns a truth value to a variable that is declared with the expression in the hole. -/
def assigning : ProgramContext where
  before := []
  decl := .body ⟨"main", {}⟩ [] [] (.declare .readWrite ⟨"n", {}⟩ (.unary {} .minus .hole))
    [.assign ⟨"n", {}⟩ (.literal (.bool true {})), .assign ⟨"k", {}⟩ (.name ⟨"n", {}⟩)] none
  after := []

def one : Expr := .literal (.int "1" {})

theorem diagnoseProgram_standIn_assigning :
    "x" ≠ entryName ∧ "x" ∉ (assigning.fill one).names ∧
      diagnoseProgram (assigning.fill one) =
        [.assignIncompatible .int {} .bool {}, .unknownIdentifier "k" {}] ∧
      Reaches assigning one ∧
      (diagnoseProgram (assigning.fill (one.standIn "x"))).filter (·.name? == some "x") =
        [.unknownIdentifier "x" {}] ∧
      ((diagnoseProgram (assigning.fill (one.standIn "x"))).erase (.unknownIdentifier "x" {})).Sublist
        (diagnoseProgram (assigning.fill one)) := by
  have hmain : "x" ≠ entryName := by decide
  have hnames : "x" ∉ (assigning.fill one).names := by decide +kernel
  refine ⟨hmain, hnames, by decide +kernel, ?_⟩
  rcases diagnoseProgram_standIn assigning one "x" hmain hnames with ⟨hc, -⟩ | h
  · exact (hc ⟨fun hdropped => by simp [Dropped, assigning] at hdropped, trivial⟩).elim
  · exact h

end PZero.Analysis
