import PZero.Proofs.Checker.Program

/-! # The analysis step by step

The analysis has a table of names and a list of diagnostics, which change while it
goes through a program. The log of a program says what it does in which order:
which expression it takes up, what it reports, which name it binds, and where a
scope begins and ends. Replaying the log gives the diagnostics of the program, and
replaying a part from its front gives what the analysis has at that point.
-/
namespace PZero.Analysis
open Surface (Identifier)

/-! ## Events -/

inductive Event
  /-- The analysis takes up an expression. -/
  | analyse (e : Surface.Expr)
  | report (d : Diagnostic)
  | bind (name : String) (b : Binding)
  | openScope
  | closeScope

structure State where
  env : Env := {}
  reported : List Diagnostic := []

def State.after (σ : State) : Event → State
  | .analyse _ => σ
  | .report d => { σ with reported := σ.reported ++ [d] }
  | .bind name b => { σ with env := σ.env.insert name b }
  | .openScope => { σ with env := σ.env.openScope }
  | .closeScope => { σ with env := σ.env.closeScope }

def replay (σ : State) (log : List Event) : State := log.foldl State.after σ

theorem replay_cons (σ : State) (event : Event) (log : List Event) :
    replay σ (event :: log) = replay (σ.after event) log := rfl

theorem replay_append (σ : State) (log log' : List Event) :
    replay σ (log ++ log') = replay (replay σ log) log' :=
  List.foldl_append

def reports (ds : List Diagnostic) : List Event := ds.map .report

theorem replay_reports (env : Env) (before ds : List Diagnostic) :
    replay ⟨env, before⟩ (reports ds) = ⟨env, before ++ ds⟩ := by
  induction ds generalizing before with
  | nil => rw [List.append_nil]; rfl
  | cons d ds ih =>
    have hstep := ih (before ++ [d])
    rw [List.append_assoc] at hstep
    exact hstep

/-! ## Expressions -/

/-- What is reported about an expression itself, its parts apart. -/
def complaints (env : Env) : Surface.Expr → List Diagnostic
  | .ternary guard yes no =>
    (if (typedExpr env guard).ty.compatible .bool then []
      else [.ternaryGuardNotBool guard.span (Surface.Expr.ternary guard yes no).span]) ++
    if (typedExpr env yes).ty.compatible (typedExpr env no).ty then []
      else [.branchesIncompatible yes.span no.span]
  | .binary op left right => diagnoseOperands op (placed env left) (placed env right)
  | .unary s .minus (.literal (.int text span)) =>
    diagnoseLiteral (.int ("-" ++ text) (s + span))
  | .unary _ op operand => diagnoseOperand op (placed env operand)
  | .call callee arguments _ =>
    match env.get? callee.name with
    | some (.const _) => [.callConstant callee.name callee.span]
    | some (.var _) => [.callVariable callee.name callee.span]
    | some (.function parameters result) =>
      diagnoseArguments callee parameters (arguments.map (placed env)) ++
      if result.isSome then [] else [.unitFunctionAsValue callee.name callee.span]
    | none => [.unknownIdentifier callee.name callee.span]
  | .name identifier => diagnoseName env identifier
  | .paren .. => []
  | .literal v => diagnoseLiteral v

/-- An expression is taken up, its parts are analysed, and then it is reported what is wrong with
the expression itself. -/
def nodeLog (env : Env) (e : Surface.Expr) (parts : List Event) : List Event :=
  .analyse e :: (parts ++ reports (complaints env e))

mutual

def exprLog (env : Env) : Surface.Expr → List Event
  | .ternary guard yes no =>
    nodeLog env (.ternary guard yes no) (exprLog env guard ++ exprLog env yes ++ exprLog env no)
  | .binary op left right => nodeLog env (.binary op left right) (exprLog env left ++ exprLog env right)
  | .unary s .minus (.literal (.int text span)) =>
    nodeLog env (.unary s .minus (.literal (.int text span))) []
  | .unary s op operand => nodeLog env (.unary s op operand) (exprLog env operand)
  | .call callee arguments close =>
    nodeLog env (.call callee arguments close)
      (match env.get? callee.name with
      | some (.function ..) => exprsLog env arguments
      | _ => [])
  | .name identifier => nodeLog env (.name identifier) []
  | .paren s inner => nodeLog env (.paren s inner) (exprLog env inner)
  | .literal v => nodeLog env (.literal v) []

def exprsLog (env : Env) : List Surface.Expr → List Event
  | [] => []
  | e :: rest => exprLog env e ++ exprsLog env rest

end

theorem exprLog_unary (env : Env) (s : Span) {op : UnOp} {e : Surface.Expr}
    (h : ¬ Rules.IsNegative op e) :
    exprLog env (.unary s op e) = nodeLog env (.unary s op e) (exprLog env e) := by
  rw [exprLog]
  rintro text span rfl rfl
  exact h trivial

theorem complaints_unary (env : Env) (s : Span) {op : UnOp} {e : Surface.Expr}
    (h : ¬ Rules.IsNegative op e) :
    complaints env (.unary s op e) = diagnoseOperand op (placed env e) := by
  rw [complaints]
  rintro text span rfl rfl
  exact h trivial

theorem replay_nodeLog {env : Env} {before ds : List Diagnostic} {parts : List Event}
    (h : replay ⟨env, before⟩ parts = ⟨env, before ++ ds⟩) (e : Surface.Expr) :
    replay ⟨env, before⟩ (nodeLog env e parts) = ⟨env, before ++ (ds ++ complaints env e)⟩ := by
  rw [nodeLog, replay_cons, State.after, replay_append, h, replay_reports, List.append_assoc]

theorem replay_leafLog (env : Env) (before : List Diagnostic) (e : Surface.Expr) :
    replay ⟨env, before⟩ (nodeLog env e []) = ⟨env, before ++ complaints env e⟩ := by
  rw [nodeLog, replay_cons, State.after, List.nil_append, replay_reports]

mutual

theorem replay_exprLog (env : Env) (before : List Diagnostic) (e : Surface.Expr) :
    replay ⟨env, before⟩ (exprLog env e) = ⟨env, before ++ diagnoseExpr env e⟩ := by
  match e with
  | .ternary guard yes no =>
    have hparts : replay ⟨env, before⟩ (exprLog env guard ++ exprLog env yes ++ exprLog env no) =
        ⟨env, before ++ (diagnoseExpr env guard ++ diagnoseExpr env yes ++ diagnoseExpr env no)⟩ := by
      rw [replay_append, replay_append, replay_exprLog env before guard, replay_exprLog env _ yes,
        replay_exprLog env _ no]
      simp only [List.append_assoc]
    rw [exprLog, replay_nodeLog hparts, diagnoseExpr, complaints]
    simp only [List.append_assoc]
  | .binary op left right =>
    have hparts : replay ⟨env, before⟩ (exprLog env left ++ exprLog env right) =
        ⟨env, before ++ (diagnoseExpr env left ++ diagnoseExpr env right)⟩ := by
      rw [replay_append, replay_exprLog env before left, replay_exprLog env _ right,
        List.append_assoc]
    rw [exprLog, replay_nodeLog hparts, diagnoseExpr, complaints]
  | .unary s op operand =>
    by_cases hneg : Rules.IsNegative op operand
    · obtain ⟨text, span, rfl, rfl⟩ := hneg.inv
      exact replay_leafLog env before _
    · rw [exprLog_unary env s hneg, replay_nodeLog (replay_exprLog env before operand),
        complaints_unary env s hneg, Rules.diagnoseExpr_unary s hneg]
  | .call callee arguments close =>
    rw [exprLog, diagnoseExpr]
    cases hb : env.get? callee.name with
    | none => exact (replay_leafLog env before _).trans (by simp only [complaints, hb])
    | some b =>
      cases b with
      | const t => exact (replay_leafLog env before _).trans (by simp only [complaints, hb])
      | var t => exact (replay_leafLog env before _).trans (by simp only [complaints, hb])
      | function parameters result =>
        exact (replay_nodeLog (replay_exprsLog env before arguments) _).trans
          (by simp only [complaints, hb, List.append_assoc])
  | .name identifier => exact replay_leafLog env before _
  | .paren s inner =>
    rw [exprLog, replay_nodeLog (replay_exprLog env before inner), diagnoseExpr, complaints,
      List.append_nil]
  | .literal v => exact replay_leafLog env before _

theorem replay_exprsLog (env : Env) (before : List Diagnostic) (es : List Surface.Expr) :
    replay ⟨env, before⟩ (exprsLog env es) = ⟨env, before ++ diagnoseExprs env es⟩ := by
  match es with
  | [] =>
    rw [diagnoseExprs, List.append_nil]
    rfl
  | e :: rest =>
    rw [exprsLog, replay_append, replay_exprLog env before e, replay_exprsLog env _ rest,
      diagnoseExprs, List.append_assoc]

end

/-! ## Statements -/

def scopeLog (log : List Event) : List Event := .openScope :: (log ++ [.closeScope])

/-- What a call statement leads to; the arguments of what is no function are not analysed. -/
def callLog (env : Env) (callee : Identifier) (arguments : List Surface.Expr) : List Event :=
  match env.get? callee.name, builtin? callee.name with
  | some (.const _), _ => [.report (.callConstant callee.name callee.span)]
  | some (.var _), _ => [.report (.callVariable callee.name callee.span)]
  | some (.function parameters result), _ =>
    exprsLog env arguments ++
    reports (diagnoseArguments callee parameters (arguments.map (placed env)) ++
      if result.isSome then [.valueFunctionAsStatement callee.name callee.span] else [])
  | none, some _ => exprsLog env arguments
  | none, none => [.report (.unknownIdentifier callee.name callee.span)]

/-- What is reported about the guard of a statement, with the diagnostic of the statement. -/
def guardComplaint (env : Env) (guard : Surface.Expr) (d : Ty → Diagnostic) : List Diagnostic :=
  let t := (typedExpr env guard).ty
  if t.compatible .bool then [] else [d t]

def guardLog (env : Env) (guard : Surface.Expr) (d : Ty → Diagnostic) : List Event :=
  exprLog env guard ++ reports (guardComplaint env guard d)

mutual

def stmtLog (env : Env) : Surface.Stmt → List Event
  | .assign target value =>
    exprLog env value ++ reports (diagnoseAssignment env target (placed env value))
  | .declare access identifier value =>
    exprLog env value ++ [.bind identifier.name (.ofAccess access (typedExpr env value).ty)]
  | .ifThen guard yes =>
    guardLog env guard (.ifGuardNotBool · guard.span) ++ scopeLog (stmtLog env.openScope yes)
  | .ifElse guard yes no =>
    guardLog env guard (.ifGuardNotBool · guard.span) ++ scopeLog (stmtLog env.openScope yes) ++
      scopeLog (stmtLog env.openScope no)
  | .whileDo guard body =>
    guardLog env guard (.whileGuardNotBool · guard.span) ++ scopeLog (stmtLog env.openScope body)
  | .block body => scopeLog (stmtsLog env.openScope body)
  | .call callee arguments => callLog env callee arguments
  | .empty => []

def stmtsLog (env : Env) : List Surface.Stmt → List Event
  | [] => []
  | s :: rest => stmtLog env s ++ stmtsLog (envAfter env s) rest

end

theorem envAfter_enclosing (env : Env) (s : Surface.Stmt) :
    (envAfter env s).enclosing = env.enclosing := by
  cases s <;> rfl

theorem envAfterAll_enclosing (env : Env) (body : List Surface.Stmt) :
    (envAfterAll env body).enclosing = env.enclosing := by
  induction body generalizing env with
  | nil => rfl
  | cons s rest ih => exact (ih (envAfter env s)).trans (envAfter_enclosing env s)

/-- The frame that a scope has added is the one that is forgotten. -/
theorem closeScope_of_enclosing {env inner : Env}
    (h : inner.enclosing = env.openScope.enclosing) : inner.closeScope = env := by
  unfold Scope.closeScope
  rw [h]
  rfl

theorem replay_scopeLog {env inner : Env} {before ds : List Diagnostic} {log : List Event}
    (h : replay ⟨env.openScope, before⟩ log = ⟨inner, before ++ ds⟩)
    (hinner : inner.enclosing = env.openScope.enclosing) :
    replay ⟨env, before⟩ (scopeLog log) = ⟨env, before ++ ds⟩ := by
  rw [scopeLog, replay_cons, State.after, replay_append, h, replay_cons, State.after,
    closeScope_of_enclosing hinner]
  rfl

theorem replay_callLog (env : Env) (before : List Diagnostic) (callee : Identifier)
    (arguments : List Surface.Expr) :
    replay ⟨env, before⟩ (callLog env callee arguments) =
      ⟨env, before ++ diagnoseCall env callee arguments⟩ := by
  cases hb : env.get? callee.name with
  | none =>
    cases hbuiltin : builtin? callee.name with
    | none => simp only [callLog, diagnoseCall, hb, hbuiltin, replay_cons, State.after]; rfl
    | some builtin => simp only [callLog, diagnoseCall, hb, hbuiltin, replay_exprsLog]
  | some b =>
    cases b with
    | const t => simp only [callLog, diagnoseCall, hb, replay_cons, State.after]; rfl
    | var t => simp only [callLog, diagnoseCall, hb, replay_cons, State.after]; rfl
    | function parameters result =>
      simp only [callLog, diagnoseCall, hb, replay_append, replay_exprsLog, replay_reports,
        List.append_assoc]

theorem replay_guardLog (env : Env) (before : List Diagnostic) (guard : Surface.Expr)
    (d : Ty → Diagnostic) :
    replay ⟨env, before⟩ (guardLog env guard d) =
      ⟨env, before ++ (diagnoseExpr env guard ++ guardComplaint env guard d)⟩ := by
  rw [guardLog, replay_append, replay_exprLog, replay_reports, List.append_assoc]

mutual

theorem replay_stmtLog (env : Env) (before : List Diagnostic) (s : Surface.Stmt) :
    replay ⟨env, before⟩ (stmtLog env s) = ⟨envAfter env s, before ++ diagnoseStmt env s⟩ := by
  match s with
  | .assign target value =>
    rw [stmtLog, replay_append, replay_exprLog, replay_reports, List.append_assoc]
    rfl
  | .declare access identifier value =>
    rw [stmtLog, replay_append, replay_exprLog]
    rfl
  | .ifThen guard yes =>
    rw [stmtLog, replay_append, replay_guardLog,
      replay_scopeLog (replay_stmtLog env.openScope _ yes) (envAfter_enclosing _ _),
      List.append_assoc]
    rfl
  | .ifElse guard yes no =>
    rw [stmtLog, replay_append, replay_append, replay_guardLog,
      replay_scopeLog (replay_stmtLog env.openScope _ yes) (envAfter_enclosing _ _),
      replay_scopeLog (replay_stmtLog env.openScope _ no) (envAfter_enclosing _ _),
      List.append_assoc before, List.append_assoc before]
    rfl
  | .whileDo guard body =>
    rw [stmtLog, replay_append, replay_guardLog,
      replay_scopeLog (replay_stmtLog env.openScope _ body) (envAfter_enclosing _ _),
      List.append_assoc]
    rfl
  | .block body =>
    exact replay_scopeLog (replay_stmtsLog env.openScope before body) (envAfterAll_enclosing _ _)
  | .call callee arguments => exact replay_callLog env before callee arguments
  | .empty =>
    rw [diagnoseStmt, List.append_nil]
    rfl

theorem replay_stmtsLog (env : Env) (before : List Diagnostic) (body : List Surface.Stmt) :
    replay ⟨env, before⟩ (stmtsLog env body) =
      ⟨envAfterAll env body, before ++ diagnoseStmts env body⟩ := by
  match body with
  | [] =>
    rw [diagnoseStmts, List.append_nil]
    rfl
  | s :: rest =>
    rw [stmtsLog, replay_append, replay_stmtLog env before s,
      replay_stmtsLog (envAfter env s) _ rest, diagnoseStmts, List.append_assoc]
    rfl

end

/-! ## Programs -/

def parametersLog (parameters : List (Identifier × Surface.TypeName)) : List Event :=
  parameters.map fun p => .bind p.1.name (.var p.2.ty)

def resultLog (env : Env) (identifier : Identifier) :
    Option (Surface.TypeName × Surface.Expr) → List Event
  | none => []
  | some (declared, tail) =>
    let found := (typedExpr env tail).ty
    exprLog env tail ++ reports (if found.compatible declared.ty then []
      else [.resultMismatch identifier.name declared.ty found identifier.span])

def declLog (env : Env) : Surface.Decl → List Event
  | .global _ _ value => reports (diagnoseLiteralExpr value)
  | .function identifier parameters body result =>
    let inner := bodyEnv env parameters
    reports (redefinitions [] (parameters.map (·.1)) ++ redefinitions [] (declared body)) ++
      scopeLog (parametersLog parameters ++ stmtsLog inner body ++
        resultLog (envAfterAll inner body) identifier result)

def declsLog (env : Env) (ds : List Surface.Decl) : List Event := ds.flatMap (declLog env)

/-- The first declaration of a global name binds it, the others are reported. -/
def globalsLog (env : Env) : List Surface.Decl → List Event
  | [] => []
  | d :: rest =>
    (if env.inCurrent d.identifier.name then
      .report (.redefinition d.identifier.name d.identifier.span)
    else .bind d.identifier.name (.ofDecl d)) :: globalsLog (bindGlobal env d) rest

def entryLog (env : Env) : Entry → List Event
  | .absent => [.bind entryName (.function [] none)]
  | .body statements => scopeLog (stmtsLog env.openScope statements)
  | .invalid identifier => [.report (.invalidMain identifier.span)]

/-- Everything that the analysis of a program does. -/
def programLog (p : Surface.Program) : List Event :=
  globalsLog {} p.declarations ++ entryLog (programEnv p) (entry p) ++
    declsLog (programEnv p) (otherDeclarations p)

theorem replay_parametersLog (env : Env) (before : List Diagnostic)
    (parameters : List (Identifier × Surface.TypeName)) :
    replay ⟨env.openScope, before⟩ (parametersLog parameters) = ⟨bodyEnv env parameters, before⟩ := by
  unfold bodyEnv
  generalize env.openScope = inner
  induction parameters generalizing inner with
  | nil => rfl
  | cons p parameters ih => exact ih (inner.insert p.1.name (.var p.2.ty))

theorem replay_resultLog (env : Env) (before : List Diagnostic) (identifier : Identifier)
    (result : Option (Surface.TypeName × Surface.Expr)) :
    replay ⟨env, before⟩ (resultLog env identifier result) =
      ⟨env, before ++ diagnoseResult env identifier result⟩ := by
  cases result with
  | none =>
    rw [diagnoseResult, List.append_nil]
    rfl
  | some r =>
    rw [resultLog, replay_append, replay_exprLog, replay_reports, List.append_assoc]
    rfl

theorem bodyEnv_enclosing (env : Env) (parameters : List (Identifier × Surface.TypeName)) :
    (bodyEnv env parameters).enclosing = env.openScope.enclosing := by
  unfold bodyEnv
  generalize env.openScope = inner
  induction parameters generalizing inner with
  | nil => rfl
  | cons p parameters ih => exact ih (inner.insert p.1.name (.var p.2.ty))

theorem replay_declLog (env : Env) (before : List Diagnostic) (d : Surface.Decl) :
    replay ⟨env, before⟩ (declLog env d) = ⟨env, before ++ diagnoseDecl env d⟩ := by
  cases d with
  | «global» access identifier value => exact replay_reports env before _
  | function identifier parameters body result =>
    have hinner : (envAfterAll (bodyEnv env parameters) body).enclosing =
        env.openScope.enclosing :=
      (envAfterAll_enclosing _ _).trans (bodyEnv_enclosing env parameters)
    have hbody : ∀ before : List Diagnostic, replay ⟨env.openScope, before⟩
        (parametersLog parameters ++ stmtsLog (bodyEnv env parameters) body ++
          resultLog (envAfterAll (bodyEnv env parameters) body) identifier result) =
        ⟨envAfterAll (bodyEnv env parameters) body,
          before ++ (diagnoseStmts (bodyEnv env parameters) body ++
            diagnoseResult (envAfterAll (bodyEnv env parameters) body) identifier result)⟩ := by
      intro before
      rw [replay_append, replay_append, replay_parametersLog, replay_stmtsLog, replay_resultLog,
        List.append_assoc]
    rw [declLog, replay_append, replay_reports, replay_scopeLog (hbody _) hinner]
    simp only [diagnoseDecl, List.append_assoc]

theorem replay_declsLog (env : Env) (before : List Diagnostic) (ds : List Surface.Decl) :
    replay ⟨env, before⟩ (declsLog env ds) = ⟨env, before ++ ds.flatMap (diagnoseDecl env)⟩ := by
  induction ds generalizing before with
  | nil =>
    rw [List.flatMap_nil, List.append_nil]
    rfl
  | cons d ds ih =>
    rw [declsLog, List.flatMap_cons, replay_append, replay_declLog]
    refine (ih _).trans ?_
    rw [List.flatMap_cons, List.append_assoc]

/-- The names seen so far are those that the outermost frame has. -/
theorem replay_globalsLog (ds : List Surface.Decl) {env : Env} {seen : List String}
    (h : ∀ name, env.inCurrent name = seen.contains name) (before : List Diagnostic) :
    replay ⟨env, before⟩ (globalsLog env ds) =
      ⟨ds.foldl bindGlobal env, before ++ redefinitions seen (ds.map (·.identifier))⟩ := by
  induction ds generalizing env seen before with
  | nil =>
    rw [List.map_nil, redefinitions, List.append_nil]
    rfl
  | cons d ds ih =>
    have hseen : ∀ name, (bindGlobal env d).inCurrent name =
        (d.identifier.name :: seen).contains name := by
      intro name
      unfold bindGlobal
      by_cases hbound : env.inCurrent d.identifier.name = true
      · rw [if_pos hbound, h, List.contains_cons]
        by_cases hname : name = d.identifier.name
        · rw [hname, ← h, hbound, Bool.or_true]
        · rw [beq_eq_false_iff_ne.mpr hname, Bool.false_or]
      · rw [if_neg hbound, List.contains_cons, ← h]
        by_cases hname : name = d.identifier.name
        · simp [Scope.inCurrent, Scope.insert, hname]
        · simp [Scope.inCurrent, Scope.insert, lookup_cons_ite, hname]
    have hstep : replay ⟨env, before⟩ (globalsLog env (d :: ds)) =
        replay ⟨bindGlobal env d, before ++ if seen.contains d.identifier.name then
          [.redefinition d.identifier.name d.identifier.span] else []⟩
          (globalsLog (bindGlobal env d) ds) := by
      rw [globalsLog, replay_cons, ← h]
      congr 1
      unfold bindGlobal
      by_cases hbound : env.inCurrent d.identifier.name = true
      · rw [if_pos hbound, if_pos hbound, if_pos hbound, State.after]
      · rw [if_neg hbound, if_neg hbound, if_neg hbound, State.after, List.append_nil]
    rw [hstep, ih hseen, List.append_assoc]
    rfl

theorem replay_globals (p : Surface.Program) :
    replay {} (globalsLog {} p.declarations) =
      ⟨globalEnv p.declarations, redefinitions [] (p.declarations.map (·.identifier))⟩ :=
  replay_globalsLog p.declarations (fun _ => rfl) []

theorem replay_entryLog (p : Surface.Program) (before : List Diagnostic) :
    replay ⟨globalEnv p.declarations, before⟩ (entryLog (programEnv p) (entry p)) =
      ⟨programEnv p, before ++ diagnoseEntry (programEnv p) (entry p)⟩ := by
  cases hp : entry p with
  | absent =>
    simp only [programEnv, hp, diagnoseEntry, List.append_nil]
    rfl
  | body statements =>
    simp only [programEnv, hp]
    exact replay_scopeLog (replay_stmtsLog _ before statements) (envAfterAll_enclosing _ _)
  | invalid identifier =>
    simp only [programEnv, hp]
    rfl

/-- Faithfulness of the log. -/
theorem replay_programLog (p : Surface.Program) :
    replay {} (programLog p) = ⟨programEnv p, diagnoseProgram p⟩ := by
  rw [programLog, replay_append, replay_append, replay_globals, replay_entryLog, replay_declsLog]
  rfl

end PZero.Analysis
