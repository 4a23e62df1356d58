import PZero.Proofs.Checker.Program

/-! # The names in a program and in its diagnostics

Whatever a diagnostic names stands in the program. A name that a program does not
have is therefore unbound at every place of it, the name of the entry function
apart, and no diagnostic is about it.
-/
namespace PZero

/-! ## Names of trees -/

namespace Surface

mutual

/-- The names in an expression, called or referred to. -/
def Expr.names : Expr → List String
  | .ternary guard yes no => guard.names ++ yes.names ++ no.names
  | .binary _ left right => left.names ++ right.names
  | .unary _ _ operand => operand.names
  | .call callee arguments _ => callee.name :: exprsNames arguments
  | .name identifier => [identifier.name]
  | .paren _ inner => inner.names
  | .literal _ => []

def exprsNames : List Expr → List String
  | [] => []
  | e :: rest => e.names ++ exprsNames rest

end

mutual

/-- The names in a statement; those that it declares and assigns to belong to them. -/
def Stmt.names : Stmt → List String
  | .assign target value => target.name :: value.names
  | .declare _ identifier value => identifier.name :: value.names
  | .ifThen guard yes => guard.names ++ yes.names
  | .ifElse guard yes no => guard.names ++ yes.names ++ no.names
  | .whileDo guard body => guard.names ++ body.names
  | .block body => stmtsNames body
  | .call callee arguments => callee.name :: exprsNames arguments
  | .empty => []

def stmtsNames : List Stmt → List String
  | [] => []
  | s :: rest => s.names ++ stmtsNames rest

end

def resultNames : Option (TypeName × Expr) → List String
  | none => []
  | some r => r.2.names

def Decl.names : Decl → List String
  | .global _ identifier _ => [identifier.name]
  | .function identifier parameters body result =>
    identifier.name :: (parameters.map (·.1.name) ++ stmtsNames body ++ resultNames result)

def Program.names (p : Program) : List String := p.declarations.flatMap Decl.names

theorem Decl.identifier_mem_names (d : Decl) : d.identifier.name ∈ d.names := by
  cases d with
  | «global» access i value => exact List.mem_cons_self
  | function i parameters body result => exact List.mem_cons_self

theorem stmtsNames_append (l r : List Stmt) :
    stmtsNames (l ++ r) = stmtsNames l ++ stmtsNames r := by
  induction l with
  | nil => rfl
  | cons s l ih => rw [List.cons_append, stmtsNames, ih, stmtsNames, List.append_assoc]

end Surface

/-- The name that a diagnostic is about. -/
def Diagnostic.name? : Diagnostic → Option String
  | redefinition name _ | resultMismatch name _ _ _ | assignToConstant name _
  | assignToFunction name _ | unitFunctionAsValue name _ | callConstant name _
  | callVariable name _ | referenceFunction name _ | valueFunctionAsStatement name _
  | unknownIdentifier name _ => some name
  | _ => none

namespace Analysis
open Surface (Identifier)

/-- Holds of all diagnostics in a list. -/
def Every (P : Diagnostic → Prop) (ds : List Diagnostic) : Prop := ∀ d ∈ ds, P d

namespace Every
variable {P : Diagnostic → Prop} {ds ds' : List Diagnostic}

theorem nil : Every P [] := by
  intro d hd
  cases hd

theorem append (h : Every P ds) (h' : Every P ds') : Every P (ds ++ ds') :=
  List.forall_mem_append.mpr ⟨h, h'⟩

theorem singleton {d : Diagnostic} (h : P d) : Every P [d] :=
  List.forall_mem_singleton.mpr h

/-- A report that is made unless a condition holds. -/
theorem guarded {d : Diagnostic} {c : Bool} (h : c = false → P d) :
    Every P (if c then [] else [d]) := by
  cases c with
  | true => exact nil
  | false => exact singleton (h rfl)

/-- A report that is made when a condition holds. -/
theorem conditional {d : Diagnostic} {c : Bool} (h : c = true → P d) :
    Every P (if c then [d] else []) := by
  cases c with
  | true => exact singleton (h rfl)
  | false => exact nil

theorem flatMap {α : Type} {l : List α} {f : α → List Diagnostic} (h : ∀ a ∈ l, Every P (f a)) :
    Every P (l.flatMap f) := by
  intro d hd
  obtain ⟨a, ha, hd⟩ := List.mem_flatMap.mp hd
  exact h a ha d hd

end Every

/-- None of the diagnostics is about the name. -/
def Avoids (x : String) (ds : List Diagnostic) : Prop := Every (fun d => d.name? ≠ some x) ds

/-! ## Expressions -/

theorem avoids_diagnoseLiteral (x : String) (v : Surface.Literal) : Avoids x (diagnoseLiteral v) := by
  cases v with
  | bool b span => exact .nil
  | int text span => exact .guarded fun _ => by nofun
  | float text span =>
    rw [diagnoseLiteral]
    cases Single.ofText? text with
    | none => exact .singleton nofun
    | some f => exact Every.conditional fun _ => by nofun
  | string text span => exact .nil

theorem avoids_diagnoseOperands (x : String) (op : BinOp) (left right : Span × Ty) :
    Avoids x (diagnoseOperands op left right) :=
  .append (.append (.guarded fun _ => by nofun) (.guarded fun _ => by nofun))
    (.conditional fun _ => by nofun)

theorem avoids_diagnoseOperand (x : String) (op : UnOp) (operand : Span × Ty) :
    Avoids x (diagnoseOperand op operand) :=
  .guarded fun _ => by nofun

theorem avoids_diagnoseArgumentTypes (x : String) (parameters : List Ty)
    (arguments : List (Span × Ty)) : Avoids x (diagnoseArgumentTypes parameters arguments) := by
  induction parameters generalizing arguments with
  | nil => exact .nil
  | cons p parameters ih =>
    cases arguments with
    | nil => exact .nil
    | cons a arguments => exact .append (.guarded fun _ => by nofun) (ih arguments)

theorem avoids_diagnoseArguments (x : String) (callee : Identifier) (parameters : List Ty)
    (arguments : List (Span × Ty)) : Avoids x (diagnoseArguments callee parameters arguments) := by
  unfold diagnoseArguments
  split
  · exact avoids_diagnoseArgumentTypes x parameters arguments
  · exact .singleton nofun

section
variable {x : String}

theorem avoids_diagnoseName (env : Env) {i : Identifier} (h : x ≠ i.name) :
    Avoids x (diagnoseName env i) := by
  unfold diagnoseName
  cases env.get? i.name with
  | none => exact .singleton (by simpa [Diagnostic.name?] using h.symm)
  | some b =>
    cases b with
    | const t => exact .nil
    | var t => exact .nil
    | function parameters result => exact .singleton (by simpa [Diagnostic.name?] using h.symm)

mutual

theorem avoids_diagnoseExpr (env : Env) (e : Surface.Expr) (h : x ∉ e.names) :
    Avoids x (diagnoseExpr env e) := by
  match e with
  | .ternary guard yes no =>
    simp only [Surface.Expr.names, List.mem_append, not_or] at h
    obtain ⟨⟨hguard, hyes⟩, hno⟩ := h
    exact .append (.append (.append (.append (avoids_diagnoseExpr env guard hguard)
      (avoids_diagnoseExpr env yes hyes)) (avoids_diagnoseExpr env no hno))
      (.guarded fun _ => by nofun)) (.guarded fun _ => by nofun)
  | .binary op left right =>
    simp only [Surface.Expr.names, List.mem_append, not_or] at h
    exact .append (.append (avoids_diagnoseExpr env left h.1) (avoids_diagnoseExpr env right h.2))
      (avoids_diagnoseOperands x op _ _)
  | .unary s op operand =>
    by_cases hneg : Rules.IsNegative op operand
    · obtain ⟨text, span, rfl, rfl⟩ := hneg.inv
      exact avoids_diagnoseLiteral x _
    · rw [Rules.diagnoseExpr_unary s hneg]
      exact .append (avoids_diagnoseExpr env operand h) (avoids_diagnoseOperand x op _)
  | .call callee arguments close =>
    simp only [Surface.Expr.names, List.mem_cons, not_or] at h
    have hcallee : some callee.name ≠ some x := fun heq => h.1 (Option.some.inj heq).symm
    rw [diagnoseExpr]
    cases env.get? callee.name with
    | none => exact .singleton hcallee
    | some b =>
      cases b with
      | const t => exact .singleton hcallee
      | var t => exact .singleton hcallee
      | function parameters result =>
        exact .append (.append (avoids_diagnoseExprs env arguments h.2)
          (avoids_diagnoseArguments x callee parameters _))
          (.guarded fun _ => hcallee)
  | .name identifier => exact avoids_diagnoseName env (by simpa [Surface.Expr.names] using h)
  | .paren s inner => exact avoids_diagnoseExpr env inner h
  | .literal v => exact avoids_diagnoseLiteral x v

theorem avoids_diagnoseExprs (env : Env) (es : List Surface.Expr) (h : x ∉ Surface.exprsNames es) :
    Avoids x (diagnoseExprs env es) := by
  match es with
  | [] => exact .nil
  | e :: rest =>
    simp only [Surface.exprsNames, List.mem_append, not_or] at h
    exact .append (avoids_diagnoseExpr env e h.1) (avoids_diagnoseExprs env rest h.2)

end

/-! ## Statements -/

theorem avoids_diagnoseAssignment (env : Env) {target : Identifier} (value : Span × Ty)
    (h : x ≠ target.name) : Avoids x (diagnoseAssignment env target value) := by
  have htarget : some target.name ≠ some x := fun heq => h (Option.some.inj heq).symm
  unfold diagnoseAssignment
  cases env.get? target.name with
  | none => exact .singleton htarget
  | some b =>
    cases b with
    | const t => exact .singleton htarget
    | var t => exact .guarded fun _ => by nofun
    | function parameters result => exact .singleton htarget

theorem avoids_diagnoseCall (env : Env) {callee : Identifier} {arguments : List Surface.Expr}
    (h : x ≠ callee.name) (ha : x ∉ Surface.exprsNames arguments) :
    Avoids x (diagnoseCall env callee arguments) := by
  have hcallee : some callee.name ≠ some x := fun heq => h (Option.some.inj heq).symm
  unfold diagnoseCall
  cases env.get? callee.name with
  | none =>
    cases builtin? callee.name with
    | none => exact .singleton hcallee
    | some builtin => exact avoids_diagnoseExprs env arguments ha
  | some b =>
    cases b with
    | const t => exact .singleton hcallee
    | var t => exact .singleton hcallee
    | function parameters result =>
      exact .append (.append (avoids_diagnoseExprs env arguments ha)
        (avoids_diagnoseArguments x callee parameters _)) (.conditional fun _ => hcallee)

theorem avoids_diagnoseIfGuard (env : Env) {guard : Surface.Expr} (h : x ∉ guard.names) :
    Avoids x (diagnoseIfGuard env guard) :=
  .append (avoids_diagnoseExpr env guard h) (.guarded fun _ => by nofun)

mutual

theorem avoids_diagnoseStmt (env : Env) (s : Surface.Stmt) (h : x ∉ s.names) :
    Avoids x (diagnoseStmt env s) := by
  match s with
  | .assign target value =>
    simp only [Surface.Stmt.names, List.mem_cons, not_or] at h
    exact .append (avoids_diagnoseExpr env value h.2) (avoids_diagnoseAssignment env _ h.1)
  | .declare access identifier value =>
    simp only [Surface.Stmt.names, List.mem_cons, not_or] at h
    exact avoids_diagnoseExpr env value h.2
  | .ifThen guard yes =>
    simp only [Surface.Stmt.names, List.mem_append, not_or] at h
    exact .append (avoids_diagnoseIfGuard env h.1) (avoids_diagnoseStmt env.openScope yes h.2)
  | .ifElse guard yes no =>
    simp only [Surface.Stmt.names, List.mem_append, not_or] at h
    exact .append (.append (avoids_diagnoseIfGuard env h.1.1)
      (avoids_diagnoseStmt env.openScope yes h.1.2)) (avoids_diagnoseStmt env.openScope no h.2)
  | .whileDo guard body =>
    simp only [Surface.Stmt.names, List.mem_append, not_or] at h
    exact .append (.append (avoids_diagnoseExpr env guard h.1)
      (.guarded fun _ => by nofun)) (avoids_diagnoseStmt env.openScope body h.2)
  | .block body => exact avoids_diagnoseStmts env.openScope body h
  | .call callee arguments =>
    simp only [Surface.Stmt.names, List.mem_cons, not_or] at h
    exact avoids_diagnoseCall env h.1 h.2
  | .empty => exact .nil

theorem avoids_diagnoseStmts (env : Env) (body : List Surface.Stmt)
    (h : x ∉ Surface.stmtsNames body) : Avoids x (diagnoseStmts env body) := by
  match body with
  | [] => exact .nil
  | s :: rest =>
    simp only [Surface.stmtsNames, List.mem_append, not_or] at h
    exact .append (avoids_diagnoseStmt env s h.1) (avoids_diagnoseStmts (envAfter env s) rest h.2)

end

/-! ## Functions and programs -/

theorem avoids_redefinitions (seen : List String) {ids : List Identifier}
    (h : ∀ i ∈ ids, x ≠ i.name) : Avoids x (redefinitions seen ids) := by
  induction ids generalizing seen with
  | nil => exact .nil
  | cons i rest ih =>
    have hi : some i.name ≠ some x := fun heq => h i (.head _) (Option.some.inj heq).symm
    exact .append (.conditional fun _ => hi) (ih _ fun j hj => h j (.tail _ hj))

theorem declared_names {body : List Surface.Stmt} (h : x ∉ Surface.stmtsNames body) :
    ∀ i ∈ declared body, x ≠ i.name := by
  induction body with
  | nil =>
    intro i hi
    cases hi
  | cons s rest ih =>
    simp only [Surface.stmtsNames, List.mem_append, not_or] at h
    intro i hi
    cases s with
    | declare access identifier value =>
      rcases List.mem_cons.mp hi with rfl | hi
      · simp only [Surface.Stmt.names, List.mem_cons, not_or] at h
        exact h.1.1
      · exact ih h.2 i hi
    | _ => exact ih h.2 i hi

theorem avoids_diagnoseResult (env : Env) {i : Identifier}
    {result : Option (Surface.TypeName × Surface.Expr)} (hi : x ≠ i.name)
    (h : x ∉ Surface.resultNames result) : Avoids x (diagnoseResult env i result) := by
  cases result with
  | none => exact .nil
  | some r =>
    have hname : some i.name ≠ some x := fun heq => hi (Option.some.inj heq).symm
    exact .append (avoids_diagnoseExpr env r.2 h)
      (.guarded fun _ => hname)

theorem avoids_diagnoseDecl (env : Env) {d : Surface.Decl} (h : x ∉ d.names) :
    Avoids x (diagnoseDecl env d) := by
  cases d with
  | «global» access i value =>
    simp only [diagnoseDecl, diagnoseLiteralExpr]
    split
    · exact avoids_diagnoseLiteral x _
    · exact avoids_diagnoseLiteral x _
    · exact .append (.singleton (Option.some_ne_none x).symm) (avoids_diagnoseLiteral x _)
  | function i parameters body result =>
    simp only [Surface.Decl.names, List.mem_cons, List.mem_append, not_or] at h
    obtain ⟨hi, ⟨hparameters, hbody⟩, hresult⟩ := h
    have hids : ∀ j ∈ parameters.map (·.1), x ≠ j.name := by
      rintro j hj rfl
      obtain ⟨p, hp, rfl⟩ := List.mem_map.mp hj
      exact hparameters (List.mem_map_of_mem hp)
    exact .append (.append (.append (avoids_redefinitions [] hids)
      (avoids_redefinitions [] (declared_names hbody))) (avoids_diagnoseStmts _ body hbody))
      (avoids_diagnoseResult _ hi hresult)

theorem mem_of_entry_eq_body {p : Surface.Program} {statements : List Surface.Stmt}
    (h : entry p = .body statements) :
    ∃ i, .function i [] statements none ∈ p.declarations := by
  cases hfind : p.declarations.find? (·.identifier.name == entryName) with
  | none => simp only [entry, hfind, reduceCtorEq] at h
  | some d =>
    simp only [entry, hfind] at h
    split at h
    · cases h
    · rename_i i body heq
      cases h
      cases heq
      exact ⟨i, List.mem_of_find?_eq_some hfind⟩
    · cases h

theorem otherDeclarations_subset (p : Surface.Program) : otherDeclarations p ⊆ p.declarations := by
  unfold otherDeclarations
  split
  · exact List.filter_sublist.subset
  · exact List.Subset.refl _
  · exact List.Subset.refl _

theorem avoids_diagnoseProgram {p : Surface.Program} (h : x ∉ p.names) :
    Avoids x (diagnoseProgram p) := by
  have hdecl : ∀ d ∈ p.declarations, x ∉ d.names := fun d hd hmem =>
    h (List.mem_flatMap.mpr ⟨d, hd, hmem⟩)
  have hids : ∀ i ∈ p.declarations.map (·.identifier), x ≠ i.name := by
    rintro i hi rfl
    obtain ⟨d, hd, rfl⟩ := List.mem_map.mp hi
    exact hdecl d hd d.identifier_mem_names
  have hentry : Avoids x (diagnoseEntry (programEnv p) (entry p)) := by
    cases hp : entry p with
    | absent => exact .nil
    | body statements =>
      obtain ⟨i, hd⟩ := mem_of_entry_eq_body hp
      have hnames := hdecl _ hd
      simp only [Surface.Decl.names, List.mem_cons, List.mem_append, not_or] at hnames
      exact avoids_diagnoseStmts _ statements hnames.2.1.2
    | invalid i => exact .singleton nofun
  exact .append (.append (avoids_redefinitions [] hids) hentry)
    (.flatMap fun d hd => avoids_diagnoseDecl _ (hdecl d (otherDeclarations_subset p hd)))

/-! ## Unbound names -/

theorem get?_envAfter_eq_none {env : Env} (h : env.get? x = none) {s : Surface.Stmt}
    (hs : x ∉ s.names) : (envAfter env s).get? x = none := by
  cases s with
  | declare access identifier value =>
    simp only [Surface.Stmt.names, List.mem_cons, not_or] at hs
    rw [envAfter, Scope.get?_insert, if_neg hs.1, h]
  | _ => exact h

theorem get?_envAfterAll_eq_none {body : List Surface.Stmt} (hbody : x ∉ Surface.stmtsNames body)
    {env : Env} (h : env.get? x = none) : (envAfterAll env body).get? x = none := by
  induction body generalizing env with
  | nil => exact h
  | cons s rest ih =>
    simp only [Surface.stmtsNames, List.mem_append, not_or] at hbody
    exact ih hbody.2 (get?_envAfter_eq_none h hbody.1)

theorem get?_bodyEnv_eq_none {env : Env} (h : env.get? x = none)
    {parameters : List (Identifier × Surface.TypeName)} (hp : x ∉ parameters.map (·.1.name)) :
    (bodyEnv env parameters).get? x = none := by
  have hopen : env.openScope.get? x = none := by rw [Scope.get?_openScope, h]
  unfold bodyEnv
  generalize env.openScope = inner at hopen
  induction parameters generalizing inner with
  | nil => exact hopen
  | cons p parameters ih =>
    simp only [List.map_cons, List.mem_cons, not_or] at hp
    exact ih hp.2 _ (by rw [Scope.get?_insert, if_neg hp.1, hopen])

theorem get?_programEnv_eq_none {p : Surface.Program} (hmain : x ≠ entryName) (h : x ∉ p.names) :
    (programEnv p).get? x = none := by
  have hlookup : (Rules.globals p.declarations).lookup x = none := by
    rw [List.lookup_eq_none_iff]
    intro b hb
    obtain ⟨d, hd, rfl⟩ := List.mem_map.mp hb
    have hne : x ≠ d.identifier.name := fun heq =>
      h (List.mem_flatMap.mpr ⟨d, hd, heq ▸ d.identifier_mem_names⟩)
    simpa using hne
  have hglobal : (globalEnv p.declarations).get? x = none := by
    rw [Rules.get?_globalEnv, hlookup, Option.map_none]
  unfold programEnv
  cases entry p with
  | absent => rw [Scope.get?_insert, if_neg hmain, hglobal]
  | body statements => exact hglobal
  | invalid i => exact hglobal

end

end Analysis
end PZero
