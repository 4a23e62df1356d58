import PZero.Analysis.Stmt

/-! # Analysis of programs

First every global name is bound, so that functions can use each other in any
order; then the body of the entry function and the other declarations are
analysed. The typed program is handed out only when nothing is wrong.
-/
namespace PZero.Analysis
open Surface (Identifier)

def entryName : String := "main"

/-- Reports every identifier whose name was seen before. -/
def redefinitions (seen : List String) : List Identifier → List Diagnostic
  | [] => []
  | i :: rest =>
    (if seen.contains i.name then [.redefinition i.name i.span] else []) ++
      redefinitions (i.name :: seen) rest

/-- The first declaration of a global name is the one that counts. -/
def bindGlobal (env : Env) (d : Surface.Decl) : Env :=
  if env.inCurrent d.identifier.name then env else env.insert d.identifier.name (.ofDecl d)

def globalEnv (declarations : List Surface.Decl) : Env := declarations.foldl bindGlobal {}

/-- What a program has in the way of an entry function. -/
inductive Entry
  | absent
  | body (statements : List Surface.Stmt)
  | invalid (identifier : Identifier)

/-- The first declaration of the entry name has to be a function without parameters and result. -/
def entry (p : Surface.Program) : Entry :=
  match p.declarations.find? (·.identifier.name == entryName) with
  | none => .absent
  | some (.function _ [] statements none) => .body statements
  | some d => .invalid d.identifier

/-- What names mean outside of functions; an entry function can be called even when it is
absent. -/
def programEnv (p : Surface.Program) : Env :=
  match entry p with
  | .absent => (globalEnv p.declarations).insert entryName (.function [] none)
  | .body _ | .invalid _ => globalEnv p.declarations

/-- The declarations besides a proper entry function. -/
def otherDeclarations (p : Surface.Program) : List Surface.Decl :=
  match entry p with
  | .body _ => p.declarations.filter (·.identifier.name != entryName)
  | .absent | .invalid _ => p.declarations

/-- The identifiers that a list of statements itself declares. -/
def declared (body : List Surface.Stmt) : List Identifier :=
  body.filterMap fun
    | .declare _ identifier _ => some identifier
    | _ => none

/-- The scope of a function's body: its parameters are variables. -/
def bodyEnv (env : Env) (parameters : List (Identifier × Surface.TypeName)) : Env :=
  parameters.foldl (fun env p => env.insert p.1.name (.var p.2.ty)) env.openScope

def typedDecl (env : Env) : Surface.Decl → Typed.Decl
  | .global access identifier value => .global access identifier.name (typedLiteralExpr value)
  | .function identifier parameters body result =>
    let inner := bodyEnv env parameters
    .function
      { name := identifier.name
        parameters := parameters.map fun p => (p.1.name, p.2.ty)
        body := typedStmts inner body
        result := result.map fun r => typedExpr (envAfterAll inner body) r.2 }

/-- What is wrong with the result of a function. -/
def diagnoseResult (env : Env) (identifier : Identifier) :
    Option (Surface.TypeName × Surface.Expr) → List Diagnostic
  | none => []
  | some (declared, tail) =>
    let found := (typedExpr env tail).ty
    diagnoseExpr env tail ++
    if found.compatible declared.ty then []
    else [.resultMismatch identifier.name declared.ty found identifier.span]

def diagnoseDecl (env : Env) : Surface.Decl → List Diagnostic
  | .global _ _ value => diagnoseLiteralExpr value
  | .function identifier parameters body result =>
    let inner := bodyEnv env parameters
    redefinitions [] (parameters.map (·.1)) ++ redefinitions [] (declared body) ++
    diagnoseStmts inner body ++ diagnoseResult (envAfterAll inner body) identifier result

/-- A body of one statement is that statement. -/
def programStatement (body : List Typed.Stmt) : Typed.Stmt :=
  match body with
  | [s] => s
  | body => .block body

/-- The typed form of a program, whatever is wrong with it. -/
def typedProgram (p : Surface.Program) : Typed.Program :=
  let env := programEnv p
  { declarations := (otherDeclarations p).map (typedDecl env)
    statement := match entry p with
      | .body statements => programStatement (typedStmts env.openScope statements)
      | .absent | .invalid _ => .empty }

def diagnoseEntry (env : Env) : Entry → List Diagnostic
  | .absent => []
  | .body statements => diagnoseStmts env.openScope statements
  | .invalid identifier => [.invalidMain identifier.span]

/-- Everything that is wrong with a program, in the order of analysis. -/
def diagnoseProgram (p : Surface.Program) : List Diagnostic :=
  let env := programEnv p
  redefinitions [] (p.declarations.map (·.identifier)) ++ diagnoseEntry env (entry p) ++
    (otherDeclarations p).flatMap (diagnoseDecl env)

/-- The typed form of a program without mistakes. -/
def check (p : Surface.Program) : Except (List Diagnostic) Typed.Program :=
  match diagnoseProgram p with
  | [] => .ok (typedProgram p)
  | ds => .error ds

end PZero.Analysis
