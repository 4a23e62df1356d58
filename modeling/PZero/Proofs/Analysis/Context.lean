import PZero.Analysis.Program

/-! # Occurrences of expressions

A context is a program with a hole for an expression, so that an occurrence of an
expression in a program is a context that gives the program when it is filled. The
analysis does not reach every hole: the arguments of what is no function are left
alone, and so is a second declaration of the entry name.
-/
namespace PZero.Surface

/-! ## Contexts -/

inductive ExprContext
  | hole
  | ternaryGuard (guard : ExprContext) (yes no : Expr)
  | ternaryYes (guard : Expr) (yes : ExprContext) (no : Expr)
  | ternaryNo (guard yes : Expr) (no : ExprContext)
  | binaryLeft (op : BinOp) (left : ExprContext) (right : Expr)
  | binaryRight (op : BinOp) (left : Expr) (right : ExprContext)
  | unary (span : Span) (op : UnOp) (operand : ExprContext)
  | argument (callee : Identifier) (before : List Expr) (argument : ExprContext)
      (after : List Expr) (close : Span)
  | paren (span : Span) (inner : ExprContext)

def ExprContext.fill (e : Expr) : ExprContext → Expr
  | hole => e
  | ternaryGuard guard yes no => .ternary (guard.fill e) yes no
  | ternaryYes guard yes no => .ternary guard (yes.fill e) no
  | ternaryNo guard yes no => .ternary guard yes (no.fill e)
  | binaryLeft op left right => .binary op (left.fill e) right
  | binaryRight op left right => .binary op left (right.fill e)
  | unary span op operand => .unary span op (operand.fill e)
  | argument callee before a after close => .call callee (before ++ a.fill e :: after) close
  | paren span inner => .paren span (inner.fill e)

inductive StmtContext
  | assign (target : Identifier) (value : ExprContext)
  | declare (access : Access) (identifier : Identifier) (value : ExprContext)
  | ifThenGuard (guard : ExprContext) (yes : Stmt)
  | ifThen (guard : Expr) (yes : StmtContext)
  | ifElseGuard (guard : ExprContext) (yes no : Stmt)
  | ifElseYes (guard : Expr) (yes : StmtContext) (no : Stmt)
  | ifElseNo (guard : Expr) (yes : Stmt) (no : StmtContext)
  | whileGuard (guard : ExprContext) (body : Stmt)
  | whileBody (guard : Expr) (body : StmtContext)
  | block (before : List Stmt) (s : StmtContext) (after : List Stmt)
  | argument (callee : Identifier) (before : List Expr) (argument : ExprContext)
      (after : List Expr)

def StmtContext.fill (e : Expr) : StmtContext → Stmt
  | assign target value => .assign target (value.fill e)
  | declare access identifier value => .declare access identifier (value.fill e)
  | ifThenGuard guard yes => .ifThen (guard.fill e) yes
  | ifThen guard yes => .ifThen guard (yes.fill e)
  | ifElseGuard guard yes no => .ifElse (guard.fill e) yes no
  | ifElseYes guard yes no => .ifElse guard (yes.fill e) no
  | ifElseNo guard yes no => .ifElse guard yes (no.fill e)
  | whileGuard guard body => .whileDo (guard.fill e) body
  | whileBody guard body => .whileDo guard (body.fill e)
  | block before s after => .block (before ++ s.fill e :: after)
  | argument callee before a after => .call callee (before ++ a.fill e :: after)

/-- The initial values of global names are literals, which leaves the functions. -/
inductive DeclContext
  | body (identifier : Identifier) (parameters : List (Identifier × TypeName))
      (before : List Stmt) (s : StmtContext) (after : List Stmt)
      (tail : Option (TypeName × Expr))
  | result (identifier : Identifier) (parameters : List (Identifier × TypeName))
      (statements : List Stmt) (type : TypeName) (tail : ExprContext)

namespace DeclContext

def identifier : DeclContext → Identifier
  | .body i .. | .result i .. => i

def fill (e : Expr) : DeclContext → Decl
  | .body i parameters before s after tail =>
    .function i parameters (before ++ s.fill e :: after) tail
  | .result i parameters statements type tail =>
    .function i parameters statements (some (type, tail.fill e))

@[simp] theorem identifier_fill (c : DeclContext) (e : Expr) :
    (c.fill e).identifier = c.identifier := by
  cases c with
  | body i parameters before s after tail => rfl
  | result i parameters statements type tail => rfl

end DeclContext

structure ProgramContext where
  before : List Decl
  decl : DeclContext
  after : List Decl

def ProgramContext.fill (e : Expr) (c : ProgramContext) : Program :=
  ⟨c.before ++ c.decl.fill e :: c.after⟩

/-- A name where an expression stood. -/
def Expr.standIn (x : String) (e : Expr) : Expr := .name ⟨x, e.span⟩

/-! ## Spans -/

theorem joinSpans_append (s : Span) (l r : List Expr) :
    joinSpans s (l ++ r) = joinSpans (joinSpans s l) r := by
  induction l generalizing s with
  | nil => rfl
  | cons e l ih => exact ih (s + e.span)

theorem ExprContext.span_fill (c : ExprContext) {a a' : Expr} (h : a'.span = a.span) :
    (c.fill a').span = (c.fill a).span := by
  induction c with
  | hole => exact h
  | ternaryGuard guard yes no ih => simp only [fill, Expr.span, ih]
  | ternaryYes guard yes no ih => simp only [fill, Expr.span]
  | ternaryNo guard yes no ih => simp only [fill, Expr.span, ih]
  | binaryLeft op left right ih => simp only [fill, Expr.span, ih]
  | binaryRight op left right ih => simp only [fill, Expr.span, ih]
  | unary span op operand ih => simp only [fill, Expr.span, ih]
  | argument callee before a after close ih =>
    simp only [fill, Expr.span, joinSpans_append, joinSpans, ih]
  | paren span inner ih => simp only [fill, Expr.span]

end PZero.Surface

namespace PZero.Analysis
open Surface

/-! ## Holes that are reached -/

/-- The name of a function, whose calls have their arguments analysed. -/
def IsFunction (env : Env) (name : String) : Prop :=
  ∃ parameters result, env.get? name = some (.function parameters result)

/-- A name that only a call statement can call, as long as it is unbound. -/
def IsBuiltin (env : Env) (name : String) : Prop :=
  env.get? name = none ∧ (builtin? name).isSome

/-- The analysis gets to the hole of an expression. The operand of a minus counts, although an int
literal there is taken together with the minus. -/
def ReachesExpr (env : Env) : ExprContext → Prop
  | .hole => True
  | .ternaryGuard c _ _ | .ternaryYes _ c _ | .ternaryNo _ _ c | .binaryLeft _ c _
  | .binaryRight _ _ c | .unary _ _ c | .paren _ c => ReachesExpr env c
  | .argument callee _ c _ _ => IsFunction env callee.name ∧ ReachesExpr env c

def ReachesStmt (env : Env) : StmtContext → Prop
  | .assign _ c | .declare _ _ c | .ifThenGuard c _ | .ifElseGuard c _ _ | .whileGuard c _ =>
    ReachesExpr env c
  | .ifThen _ s | .ifElseYes _ s _ | .ifElseNo _ _ s | .whileBody _ s =>
    ReachesStmt env.openScope s
  | .block before s _ => ReachesStmt (envAfterAll env.openScope before) s
  | .argument callee _ c _ =>
    (IsFunction env callee.name ∨ IsBuiltin env callee.name) ∧ ReachesExpr env c

def ReachesDecl (env : Env) : DeclContext → Prop
  | .body _ parameters before s _ _ => ReachesStmt (envAfterAll (bodyEnv env parameters) before) s
  | .result _ parameters statements _ c =>
    ReachesExpr (envAfterAll (bodyEnv env parameters) statements) c

/-- The program has a proper entry function in front of a declaration of the same name. -/
def Dropped (c : ProgramContext) (e : Expr) : Prop :=
  c.decl.identifier.name = entryName ∧ (∃ d ∈ c.before, d.identifier.name = entryName) ∧
    ∃ statements, entry (c.fill e) = .body statements

/-- The analysis of the program gets to the hole. -/
def Reaches (c : ProgramContext) (e : Expr) : Prop :=
  ¬ Dropped c e ∧ ReachesDecl (programEnv (c.fill e)) c.decl

/-! ## What does not depend on the expression in the hole -/

theorem declared_fill (a a' : Expr) (before : List Stmt) (s : StmtContext) (after : List Stmt) :
    declared (before ++ s.fill a' :: after) = declared (before ++ s.fill a :: after) := by
  simp only [declared, List.filterMap_append, List.filterMap_cons]
  cases s <;> rfl

theorem ofDecl_fill (c : DeclContext) (a a' : Expr) :
    Binding.ofDecl (c.fill a') = Binding.ofDecl (c.fill a) := by
  cases c with
  | body i parameters before s after tail => rfl
  | result i parameters statements type tail => rfl

theorem globalEnv_fill (c : ProgramContext) (a a' : Expr) :
    globalEnv (c.fill a').declarations = globalEnv (c.fill a).declarations := by
  have hbind : ∀ env : Env, bindGlobal env (c.decl.fill a') = bindGlobal env (c.decl.fill a) := by
    intro env
    unfold bindGlobal
    rw [ofDecl_fill c.decl a a', DeclContext.identifier_fill, DeclContext.identifier_fill]
  simp only [globalEnv, ProgramContext.fill, List.foldl_append, List.foldl_cons, hbind]

/-- A declaration that is not the first of the entry name has no part in the entry function. -/
theorem entry_fill_eq {c : ProgramContext} (a a' : Expr)
    (h : c.decl.identifier.name ≠ entryName ∨ ∃ d ∈ c.before, d.identifier.name = entryName) :
    entry (c.fill a') = entry (c.fill a) := by
  have hfind : (c.fill a').declarations.find? (·.identifier.name == entryName) =
      (c.fill a).declarations.find? (·.identifier.name == entryName) := by
    simp only [ProgramContext.fill, List.find?_append]
    rcases h with hname | ⟨d, hd, hname⟩
    · simp only [List.find?_cons, DeclContext.identifier_fill, beq_eq_false_iff_ne.mpr hname]
    · have hsome : (c.before.find? (·.identifier.name == entryName)).isSome :=
        List.find?_isSome.mpr ⟨d, hd, by simpa using hname⟩
      obtain ⟨d', hd'⟩ := Option.isSome_iff_exists.mp hsome
      rw [hd', Option.some_or, Option.some_or]
  simp only [entry, hfind]

theorem otherDeclarations_of_entry_ne {p : Program} (h : ∀ statements, entry p ≠ .body statements) :
    otherDeclarations p = p.declarations := by
  unfold otherDeclarations
  split
  · exact (h _ ‹_›).elim
  · rfl
  · rfl

theorem otherDeclarations_of_entry_eq {p : Program} {statements : List Stmt}
    (h : entry p = .body statements) :
    otherDeclarations p = p.declarations.filter (·.identifier.name != entryName) := by
  simp only [otherDeclarations, h]

/-- Where the analysis of a program comes to the declaration with the hole. -/
inductive Site (c : ProgramContext) (a a' : Expr) : Prop
  | declaration {before after} : ¬ Dropped c a → entry (c.fill a') = entry (c.fill a) →
      otherDeclarations (c.fill a) = before ++ c.decl.fill a :: after →
      otherDeclarations (c.fill a') = before ++ c.decl.fill a' :: after → Site c a a'
  | entry {i before s after} : ¬ Dropped c a → c.decl = .body i [] before s after none →
      Analysis.entry (c.fill a) = .body (before ++ s.fill a :: after) →
      Analysis.entry (c.fill a') = .body (before ++ s.fill a' :: after) →
      otherDeclarations (c.fill a') = otherDeclarations (c.fill a) → Site c a a'
  | nowhere : Dropped c a → Analysis.entry (c.fill a') = Analysis.entry (c.fill a) →
      otherDeclarations (c.fill a') = otherDeclarations (c.fill a) → Site c a a'

/-- Without a proper entry function every declaration is analysed. -/
theorem Site.of_entry_ne {c : ProgramContext} {a a' : Expr}
    (hentry : Analysis.entry (c.fill a') = Analysis.entry (c.fill a))
    (h : ∀ statements, Analysis.entry (c.fill a) ≠ .body statements) : Site c a a' := by
  refine .declaration (fun hdropped => ?_) hentry (otherDeclarations_of_entry_ne h)
    (otherDeclarations_of_entry_ne (hentry ▸ h))
  obtain ⟨-, -, statements, hs⟩ := hdropped
  exact h statements hs

theorem Site.of_invalid {c : ProgramContext} {a a' : Expr} {i : Identifier}
    (h : ∀ a : Expr, Analysis.entry (c.fill a) = .invalid i) : Site c a a' := by
  refine .of_entry_ne ((h a').trans (h a).symm) fun statements => ?_
  rw [h a]
  nofun

/-- Next to a proper entry function no declaration of its name is analysed. -/
theorem filter_fill {c : ProgramContext} (a : Expr) (hname : c.decl.identifier.name = entryName) :
    (c.fill a).declarations.filter (·.identifier.name != entryName) =
      (c.before ++ c.after).filter (·.identifier.name != entryName) := by
  simp [ProgramContext.fill, hname]

theorem site_of_ne {c : ProgramContext} (a a' : Expr)
    (hname : c.decl.identifier.name ≠ entryName) : Site c a a' := by
  have hentry : entry (c.fill a') = entry (c.fill a) := entry_fill_eq a a' (.inl hname)
  have hkept : ¬ Dropped c a := fun hdropped => hname hdropped.1
  by_cases h : ∃ statements, entry (c.fill a) = .body statements
  · obtain ⟨statements, hs⟩ := h
    have hfilter : ∀ a : Expr, (c.fill a).declarations.filter (·.identifier.name != entryName) =
        c.before.filter (·.identifier.name != entryName) ++
          c.decl.fill a :: c.after.filter (·.identifier.name != entryName) := by
      intro a
      simp [ProgramContext.fill, hname]
    exact .declaration hkept hentry ((otherDeclarations_of_entry_eq hs).trans (hfilter a))
      ((otherDeclarations_of_entry_eq (hentry.trans hs)).trans (hfilter a'))
  · exact .of_entry_ne hentry fun statements hs => h ⟨statements, hs⟩

theorem site_of_later {c : ProgramContext} (a a' : Expr)
    (hname : c.decl.identifier.name = entryName)
    (hbefore : ∃ d ∈ c.before, d.identifier.name = entryName) : Site c a a' := by
  have hentry : entry (c.fill a') = entry (c.fill a) := entry_fill_eq a a' (.inr hbefore)
  by_cases h : ∃ statements, entry (c.fill a) = .body statements
  · obtain ⟨statements, hs⟩ := h
    refine .nowhere ⟨hname, hbefore, statements, hs⟩ hentry ?_
    rw [otherDeclarations_of_entry_eq hs, otherDeclarations_of_entry_eq (hentry.trans hs),
      filter_fill a hname, filter_fill a' hname]
  · exact .of_entry_ne hentry fun statements hs => h ⟨statements, hs⟩

theorem site_of_first {c : ProgramContext} (a a' : Expr)
    (hname : c.decl.identifier.name = entryName)
    (hbefore : ¬ ∃ d ∈ c.before, d.identifier.name = entryName) : Site c a a' := by
  have hfind : ∀ a : Expr, (c.fill a).declarations.find? (·.identifier.name == entryName) =
      some (c.decl.fill a) := by
    intro a
    have hnone : c.before.find? (·.identifier.name == entryName) = none := by
      rw [List.find?_eq_none]
      intro d hd hmain
      exact hbefore ⟨d, hd, by simpa using hmain⟩
    simp [ProgramContext.fill, List.find?_append, hnone, hname]
  obtain ⟨front, decl, back⟩ := c
  match decl with
  | .body i [] before s after none =>
    have hbody : ∀ a : Expr, entry (ProgramContext.fill a
        ⟨front, .body i [] before s after none, back⟩) = .body (before ++ s.fill a :: after) := by
      intro a
      simp only [entry, hfind a, DeclContext.fill]
    refine .entry (fun hdropped => hbefore hdropped.2.1) rfl (hbody a) (hbody a') ?_
    rw [otherDeclarations_of_entry_eq (hbody a), otherDeclarations_of_entry_eq (hbody a'),
      filter_fill a hname, filter_fill a' hname]
  | .body i [] before s after (some r) =>
    exact .of_invalid (i := i) fun a => by simp only [entry, hfind a]; rfl
  | .body i (p :: ps) before s after tail =>
    exact .of_invalid (i := i) fun a => by simp only [entry, hfind a]; rfl
  | .result i parameters statements type tail =>
    cases parameters with
    | nil => exact .of_invalid (i := i) fun a => by simp only [entry, hfind a]; rfl
    | cons p ps => exact .of_invalid (i := i) fun a => by simp only [entry, hfind a]; rfl

theorem site (c : ProgramContext) (a a' : Expr) : Site c a a' := by
  by_cases hname : c.decl.identifier.name = entryName
  · by_cases hbefore : ∃ d ∈ c.before, d.identifier.name = entryName
    · exact site_of_later a a' hname hbefore
    · exact site_of_first a a' hname hbefore
  · exact site_of_ne a a' hname

theorem programEnv_fill (c : ProgramContext) (a a' : Expr) :
    programEnv (c.fill a') = programEnv (c.fill a) := by
  unfold programEnv
  rw [globalEnv_fill c a a']
  cases site c a a' with
  | declaration _ hentry => rw [hentry]
  | entry _ _ hbody hbody' => rw [hbody, hbody']
  | nowhere _ hentry => rw [hentry]

theorem identifiers_fill (c : ProgramContext) (a a' : Expr) :
    (c.fill a').declarations.map (·.identifier) = (c.fill a).declarations.map (·.identifier) := by
  simp [ProgramContext.fill]

end PZero.Analysis
