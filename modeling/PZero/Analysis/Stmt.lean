import PZero.Analysis.Expr

/-! # Analysis of statements

A declaration is seen by the later statements of its block. Blocks, branches and
loop bodies have a scope of their own.
-/
namespace PZero.Analysis
open Surface (Identifier)

/-- The names that are printing statements unless the program binds them. -/
def builtin? : String → Option Typed.Callee
  | "print" => some .print
  | "println" => some .println
  | _ => none

/-- What the names mean behind a statement. -/
def envAfter (env : Env) : Surface.Stmt → Env
  | .declare access identifier value =>
    env.insert identifier.name (.ofAccess access (typedExpr env value).ty)
  | _ => env

/-- What the names mean behind a list of statements. -/
def envAfterAll (env : Env) (body : List Surface.Stmt) : Env := body.foldl envAfter env

/-- The typed form of a call statement; what is called without being a function gets no
arguments. -/
def typedCall (env : Env) (callee : Identifier) (arguments : List Surface.Expr) : Typed.Stmt :=
  match env.get? callee.name, builtin? callee.name with
  | some (.const _), _ | some (.var _), _ => .call (.function callee.name) []
  | some (.function ..), _ => .call (.function callee.name) (typedExprs env arguments)
  | none, some builtin => .call builtin (typedExprs env arguments)
  | none, none => .call (.function callee.name) []

mutual

/-- The typed form of a statement. -/
def typedStmt (env : Env) : Surface.Stmt → Typed.Stmt
  | .assign target value => .assign target.name (typedExpr env value)
  | .declare access identifier value => .declare access identifier.name (typedExpr env value)
  | .ifThen guard yes => .ifThen (typedExpr env guard) (typedStmt env.openScope yes)
  | .ifElse guard yes no =>
    .ifElse (typedExpr env guard) (typedStmt env.openScope yes) (typedStmt env.openScope no)
  | .whileDo guard body => .whileDo (typedExpr env guard) (typedStmt env.openScope body)
  | .block body => .block (typedStmts env.openScope body)
  | .call callee arguments => typedCall env callee arguments
  | .empty => .empty

def typedStmts (env : Env) : List Surface.Stmt → List Typed.Stmt
  | [] => []
  | s :: rest => typedStmt env s :: typedStmts (envAfter env s) rest

end

/-- What is wrong with the target of an assignment. -/
def diagnoseAssignment (env : Env) (target : Identifier) (value : Span × Ty) : List Diagnostic :=
  match env.get? target.name with
  | none => [.unknownIdentifier target.name target.span]
  | some (.const _) => [.assignToConstant target.name target.span]
  | some (.function ..) => [.assignToFunction target.name target.span]
  | some (.var t) =>
    if t.compatible value.2 then [] else [.assignIncompatible t target.span value.2 value.1]

def diagnoseCall (env : Env) (callee : Identifier) (arguments : List Surface.Expr) :
    List Diagnostic :=
  match env.get? callee.name, builtin? callee.name with
  | some (.const _), _ => [.callConstant callee.name callee.span]
  | some (.var _), _ => [.callVariable callee.name callee.span]
  | some (.function parameters result), _ =>
    diagnoseExprs env arguments ++
    diagnoseArguments callee parameters (arguments.map (placed env)) ++
    if result.isSome then [.valueFunctionAsStatement callee.name callee.span] else []
  | none, some _ => diagnoseExprs env arguments
  | none, none => [.unknownIdentifier callee.name callee.span]

def diagnoseIfGuard (env : Env) (guard : Surface.Expr) : List Diagnostic :=
  let t := (typedExpr env guard).ty
  diagnoseExpr env guard ++ if t.compatible .bool then [] else [.ifGuardNotBool t guard.span]

mutual

/-- What is wrong in a statement. -/
def diagnoseStmt (env : Env) : Surface.Stmt → List Diagnostic
  | .assign target value =>
    diagnoseExpr env value ++ diagnoseAssignment env target (placed env value)
  | .declare _ _ value => diagnoseExpr env value
  | .ifThen guard yes => diagnoseIfGuard env guard ++ diagnoseStmt env.openScope yes
  | .ifElse guard yes no =>
    diagnoseIfGuard env guard ++ diagnoseStmt env.openScope yes ++ diagnoseStmt env.openScope no
  | .whileDo guard body =>
    let t := (typedExpr env guard).ty
    diagnoseExpr env guard ++
    (if t.compatible .bool then [] else [.whileGuardNotBool t guard.span]) ++
    diagnoseStmt env.openScope body
  | .block body => diagnoseStmts env.openScope body
  | .call callee arguments => diagnoseCall env callee arguments
  | .empty => []

def diagnoseStmts (env : Env) : List Surface.Stmt → List Diagnostic
  | [] => []
  | s :: rest => diagnoseStmt env s ++ diagnoseStmts (envAfter env s) rest

end

end PZero.Analysis
