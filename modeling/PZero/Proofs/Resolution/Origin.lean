import PZero.Analysis.Program
import PZero.Proofs.Resolution.Trace

/-! # What analysis does with names

The analysis looks names up in a table that says what they mean. Here the table also says
where a name was declared: every parameter and every local declaration has a number, in the
order of the typed program, and global names have none. Besides the typed form, a pass over
a part of a program gives what was done with names on the way.
-/
namespace PZero

def Scope.map {α β : Type} (f : α → β) (s : Scope α) : Scope β where
  current := s.current.map (Prod.map id f)
  enclosing := s.enclosing.map (List.map (Prod.map id f))

theorem Scope.map_map_cancel {α β : Type} {f : α → β} {g : β → α} (h : ∀ a, g (f a) = a)
    (s : Scope α) : (s.map f).map g = s := by
  have hframe : ∀ frame : List (String × α),
      (frame.map (Prod.map id f)).map (Prod.map id g) = frame := by
    intro frame
    simp [Function.comp_def, Prod.map, h]
  obtain ⟨current, enclosing⟩ := s
  simp only [Scope.map, hframe, List.map_map, Function.comp_def, List.map_id']

namespace Typed

mutual

/-- The names that an expression refers to, in the order of evaluation. -/
def Expr.references : Expr → List String
  | .ternary guard yes no => guard.references ++ yes.references ++ no.references
  | .binary _ left right => left.references ++ right.references
  | .unary _ _ operand => operand.references
  | .call _ _ arguments => exprsReferences arguments
  | .name _ name => [name]
  | .literal _ => []

def exprsReferences : List Expr → List String
  | [] => []
  | e :: rest => e.references ++ exprsReferences rest

end

def Stmt.arguments : Stmt → List Expr
  | .call _ arguments => arguments
  | _ => []

end Typed

namespace Resolution
open Analysis
open Surface (Identifier)

/-- What a name means, and the number of the declaration that it has its meaning from. -/
structure Known where
  binding : Binding
  site : Option Nat

/-- The table without the numbers. -/
def erase (env : Scope Known) : Env := env.map Known.binding

/-- A table of global names. -/
def ofGlobals (env : Env) : Scope Known := env.map fun binding => ⟨binding, none⟩

@[simp] theorem erase_openScope (env : Scope Known) : erase env.openScope = (erase env).openScope :=
  rfl

@[simp] theorem erase_insert (env : Scope Known) (name : String) (known : Known) :
    erase (env.insert name known) = (erase env).insert name known.binding :=
  rfl

@[simp] theorem erase_ofGlobals (env : Env) : erase (ofGlobals env) = env :=
  env.map_map_cancel fun _ => rfl

def Event.isDeclare {α : Type} : Event α → Bool
  | .declare .. => true
  | .refer .. | .assign .. => false

/-- How many names are declared. -/
def declarations {α : Type} (events : List (Event α)) : Nat := events.countP Event.isDeclare

/-- The look-ups for the names of expressions. -/
def lookups (env : Scope Known) (names : List String) : List (Event Known) :=
  names.map (.refer · env)

/-! ## Passes -/

/-- The typed form of a part of a program, what was done with names, and the table behind it. -/
structure Passage (α : Type) where
  tree : α
  events : List (Event Known)
  env : Scope Known

mutual

/-- The pass over a statement that has `n` declarations in front of it. -/
def passStmt (env : Scope Known) (n : Nat) : Surface.Stmt → Passage Typed.Stmt
  | .assign target value =>
    let value := typedExpr (erase env) value
    ⟨.assign target.name value, lookups env value.references ++ [.assign target.name env], env⟩
  | .declare access identifier value =>
    let value := typedExpr (erase env) value
    let known := ⟨.ofAccess access value.ty, some n⟩
    ⟨.declare access identifier.name value,
      lookups env value.references ++ [.declare identifier.name known],
      env.insert identifier.name known⟩
  | .ifThen guard yes =>
    let guard := typedExpr (erase env) guard
    let yes := passStmt env.openScope n yes
    ⟨.ifThen guard yes.tree, lookups env guard.references ++ yes.events, env⟩
  | .ifElse guard yes no =>
    let guard := typedExpr (erase env) guard
    let yes := passStmt env.openScope n yes
    let no := passStmt env.openScope (n + declarations yes.events) no
    ⟨.ifElse guard yes.tree no.tree, lookups env guard.references ++ (yes.events ++ no.events), env⟩
  | .whileDo guard body =>
    let guard := typedExpr (erase env) guard
    let body := passStmt env.openScope n body
    ⟨.whileDo guard body.tree, lookups env guard.references ++ body.events, env⟩
  | .block body =>
    let body := passStmts env.openScope n body
    ⟨.block body.tree, body.events, env⟩
  | .call callee arguments =>
    let call := typedCall (erase env) callee arguments
    ⟨call, lookups env (Typed.exprsReferences call.arguments), env⟩
  | .empty => ⟨.empty, [], env⟩

def passStmts (env : Scope Known) (n : Nat) : List Surface.Stmt → Passage (List Typed.Stmt)
  | [] => ⟨[], [], env⟩
  | s :: rest =>
    let s := passStmt env n s
    let rest := passStmts s.env (n + declarations s.events) rest
    ⟨s.tree :: rest.tree, s.events ++ rest.events, rest.env⟩

end

def passParameters (env : Scope Known) (n : Nat) :
    List (Identifier × Surface.TypeName) → Passage (List (String × Ty))
  | [] => ⟨[], [], env⟩
  | p :: rest =>
    let known := ⟨.var p.2.ty, some n⟩
    let rest := passParameters (env.insert p.1.name known) (n + 1) rest
    ⟨(p.1.name, p.2.ty) :: rest.tree, .declare p.1.name known :: rest.events, rest.env⟩

def passDecl (env : Scope Known) (n : Nat) : Surface.Decl → Typed.Decl × List (Event Known)
  | .global access identifier value =>
    (.global access identifier.name (typedLiteralExpr value), [])
  | .function identifier parameters body result =>
    let parameters := passParameters env.openScope n parameters
    let body := passStmts parameters.env (n + declarations parameters.events) body
    let result := result.map fun r => typedExpr (erase body.env) r.2
    (.function
      { name := identifier.name, parameters := parameters.tree, body := body.tree, result },
      parameters.events ++
        (body.events ++ lookups body.env (Typed.exprsReferences result.toList)))

def passDecls (env : Scope Known) (n : Nat) :
    List Surface.Decl → List Typed.Decl × List (Event Known)
  | [] => ([], [])
  | d :: rest =>
    let d := passDecl env n d
    let rest := passDecls env (n + declarations d.2) rest
    (d.1 :: rest.1, d.2 ++ rest.2)

/-- The pass over a program: its declarations and then its statement. -/
def passProgram (p : Surface.Program) : Typed.Program × List (Event Known) :=
  let env := ofGlobals (programEnv p)
  let decls := passDecls env 0 (otherDeclarations p)
  match entry p with
  | .body statements =>
    let body := passStmts env.openScope (declarations decls.2) statements
    (⟨decls.1, programStatement body.tree⟩, decls.2 ++ body.events)
  | .absent | .invalid _ => (⟨decls.1, .empty⟩, decls.2)

/-! ## Without the numbers and events -/

theorem passStmt_env (env : Scope Known) (n : Nat) (s : Surface.Stmt) :
    erase (passStmt env n s).env = envAfter (erase env) s := by
  cases s <;> simp only [passStmt, envAfter, erase_insert]

mutual

theorem passStmt_tree (env : Scope Known) (n : Nat) (s : Surface.Stmt) :
    (passStmt env n s).tree = typedStmt (erase env) s := by
  match s with
  | .assign target value => simp only [passStmt, typedStmt]
  | .declare access identifier value => simp only [passStmt, typedStmt]
  | .ifThen guard yes =>
    simp only [passStmt, typedStmt, passStmt_tree env.openScope _ yes, erase_openScope]
  | .ifElse guard yes no =>
    simp only [passStmt, typedStmt, passStmt_tree env.openScope _ yes,
      passStmt_tree env.openScope _ no, erase_openScope]
  | .whileDo guard body =>
    simp only [passStmt, typedStmt, passStmt_tree env.openScope _ body, erase_openScope]
  | .block body =>
    simp only [passStmt, typedStmt, passStmts_tree env.openScope _ body, erase_openScope]
  | .call callee arguments => simp only [passStmt, typedStmt]
  | .empty => simp only [passStmt, typedStmt]

theorem passStmts_tree (env : Scope Known) (n : Nat) (body : List Surface.Stmt) :
    (passStmts env n body).tree = typedStmts (erase env) body := by
  match body with
  | [] => simp only [passStmts, typedStmts]
  | s :: rest =>
    simp only [passStmts, typedStmts, passStmt_tree env n s, passStmts_tree _ _ rest, passStmt_env]

end

theorem passStmts_env (env : Scope Known) (n : Nat) (body : List Surface.Stmt) :
    erase (passStmts env n body).env = envAfterAll (erase env) body := by
  induction body generalizing env n with
  | nil => simp only [passStmts, envAfterAll, List.foldl_nil]
  | cons s rest ih =>
    simp only [passStmts, ih, passStmt_env, envAfterAll, List.foldl_cons]

theorem passParameters_tree (env : Scope Known) (n : Nat)
    (parameters : List (Identifier × Surface.TypeName)) :
    (passParameters env n parameters).tree = parameters.map fun p => (p.1.name, p.2.ty) := by
  induction parameters generalizing env n with
  | nil => rfl
  | cons p rest ih => simp only [passParameters, ih, List.map_cons]

theorem passParameters_env (env : Scope Known) (n : Nat)
    (parameters : List (Identifier × Surface.TypeName)) :
    erase (passParameters env.openScope n parameters).env = bodyEnv (erase env) parameters := by
  have hinner : ∀ (inner : Scope Known) (n : Nat), erase (passParameters inner n parameters).env =
      parameters.foldl (fun env p => env.insert p.1.name (.var p.2.ty)) (erase inner) := by
    induction parameters with
    | nil => exact fun _ _ => rfl
    | cons p rest ih =>
      intro inner n
      simp only [passParameters, ih, erase_insert, List.foldl_cons]
  exact hinner env.openScope n

theorem passDecl_fst (env : Scope Known) (n : Nat) (d : Surface.Decl) :
    (passDecl env n d).1 = typedDecl (erase env) d := by
  cases d with
  | global access identifier value => rfl
  | function identifier parameters body result =>
    simp only [passDecl, typedDecl, passParameters_tree, passStmts_tree, passStmts_env,
      passParameters_env]

theorem passDecls_fst (env : Scope Known) (n : Nat) (ds : List Surface.Decl) :
    (passDecls env n ds).1 = ds.map (typedDecl (erase env)) := by
  induction ds generalizing n with
  | nil => rfl
  | cons d rest ih => simp only [passDecls, passDecl_fst, ih, List.map_cons]

/-- The pass over a program gives its typed form. -/
theorem passProgram_fst (p : Surface.Program) : (passProgram p).1 = typedProgram p := by
  simp only [passProgram, typedProgram]
  cases entry p with
  | absent => simp only [passDecls_fst, erase_ofGlobals]
  | invalid identifier => simp only [passDecls_fst, erase_ofGlobals]
  | body statements =>
    simp only [passDecls_fst, passStmts_tree, erase_openScope, erase_ofGlobals]

end Resolution
end PZero
