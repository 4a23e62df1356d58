import PZero.Proofs.Checker.Program

/-! # Types of typed trees

The rules give a program its typed form; here it is said of a typed tree by itself
that it follows them. The local names are one list with the innermost first, for
which opening a scope changes nothing, and a statement puts at most one name in
front.
-/
namespace PZero.Rules
open Analysis Bytecode

abbrev Globals := List (String × Meaning)

abbrev Locals := List (String × Access × FieldType)

/-- What a name means: a local name hides a global one. -/
def meaningOf (G : Globals) (L : Locals) (name : String) : Option Meaning :=
  match L.lookup name with
  | some (access, t) => some (.value access t)
  | none => G.lookup name

theorem meaningOf_bindings (Γ : Context) (name : String) :
    meaningOf Γ.globals Γ.locals.bindings name = Γ.get? name := by
  rw [Context.get?, Scope.get?_eq_lookup]
  unfold meaningOf
  cases Γ.locals.bindings.lookup name <;> rfl

theorem meaningOf_eq_function {G : Globals} {L : Locals} {name : String}
    {parameters : List FieldType} {result : Option FieldType}
    (h : meaningOf G L name = some (.function parameters result)) :
    G.lookup name = some (.function parameters result) := by
  unfold meaningOf at h
  split at h
  · cases h
  · exact h

def valueType : Typed.Literal → FieldType
  | .bool _ => .bool
  | .int _ => .int
  | .float _ => .float
  | .string _ => .string

theorem LiteralValue.valueType_eq {v : Surface.Literal} {v' : Typed.Literal} {t : FieldType}
    (h : LiteralValue v v' t) : valueType v' = t := by
  cases h <;> rfl

theorem InitialValue.valueType_eq {e : Surface.LiteralExpr} {v : Typed.Literal}
    (h : InitialValue e v) : valueType v = initialType e := by
  cases h with
  | value hv | plus hv _ => exact hv.valueType_eq.trans (literalValue_iff.mp hv).2.2.symm
  | negativeInt | negativeFloat | not => rfl

/-! ## Expressions and statements -/

mutual

inductive ExprType (G : Globals) (L : Locals) : Typed.Expr → FieldType → Prop
  | ternary {guard yes no t} : ExprType G L guard .bool → ExprType G L yes t →
      ExprType G L no t → ExprType G L (.ternary guard yes no) t
  | binary {op left right t result} : ExprType G L left t → ExprType G L right t →
      BinaryType op t result → ExprType G L (.binary op left right) result
  | unary {op e t} : ExprType G L e t → UnaryType op t → ExprType G L (.unary (typeOf t) op e) t
  | call {name arguments parameters t} :
      meaningOf G L name = some (.function parameters (some t)) →
      ExprTypes G L arguments parameters → ExprType G L (.call (typeOf t) name arguments) t
  | name {name access t} : meaningOf G L name = some (.value access t) →
      ExprType G L (.name (typeOf t) name) t
  | literal {v} : ExprType G L (.literal v) (valueType v)

inductive ExprTypes (G : Globals) (L : Locals) : List Typed.Expr → List FieldType → Prop
  | nil : ExprTypes G L [] []
  | cons {e t es ts} : ExprType G L e t → ExprTypes G L es ts → ExprTypes G L (e :: es) (t :: ts)

end

mutual

/-- The last list holds the local names behind the statement. -/
inductive StmtType (G : Globals) : Locals → Typed.Stmt → Locals → Prop
  | assign {L name e t} : meaningOf G L name = some (.value .readWrite t) → ExprType G L e t →
      StmtType G L (.assign name e) L
  | declare {L access name e t} : ExprType G L e t →
      StmtType G L (.declare access name e) ((name, access, t) :: L)
  | ifThen {L L' guard yes} : ExprType G L guard .bool → StmtType G L yes L' →
      StmtType G L (.ifThen guard yes) L
  | ifElse {L L' L'' guard yes no} : ExprType G L guard .bool → StmtType G L yes L' →
      StmtType G L no L'' → StmtType G L (.ifElse guard yes no) L
  | whileDo {L L' guard body} : ExprType G L guard .bool → StmtType G L body L' →
      StmtType G L (.whileDo guard body) L
  | block {L L' body} : StmtTypes G L body L' → StmtType G L (.block body) L
  | call {L name arguments parameters} : meaningOf G L name = some (.function parameters none) →
      ExprTypes G L arguments parameters → StmtType G L (.call (.function name) arguments) L
  | print {L arguments ts} : ExprTypes G L arguments ts → StmtType G L (.call .print arguments) L
  | println {L arguments ts} : ExprTypes G L arguments ts →
      StmtType G L (.call .println arguments) L
  | empty {L} : StmtType G L .empty L

inductive StmtTypes (G : Globals) : Locals → List Typed.Stmt → Locals → Prop
  | nil {L} : StmtTypes G L [] L
  | cons {L L' L'' s rest} : StmtType G L s L' → StmtTypes G L' rest L'' →
      StmtTypes G L (s :: rest) L''

end

section
variable {G : Globals} {L : Locals}

theorem ExprType.ty_eq {e : Typed.Expr} {t : FieldType} (h : ExprType G L e t) :
    e.ty = typeOf t :=
  match h with
  | .ternary _ hy _ => hy.ty_eq
  | .binary hl hr ho => by rw [Typed.Expr.ty, hl.ty_eq, hr.ty_eq, resultType_typeOf ho]
  | .unary .. | .call .. | .name .. => rfl
  | @ExprType.literal _ _ v => by cases v <;> rfl

theorem ExprTypes.map_ty {es : List Typed.Expr} {ts : List FieldType} (h : ExprTypes G L es ts) :
    es.map (·.ty) = ts.map typeOf :=
  match h with
  | .nil => rfl
  | .cons he hs => by rw [List.map_cons, List.map_cons, he.ty_eq, hs.map_ty]

end

/-- A statement puts names in front of the others. -/
theorem StmtType.exists_append {G : Globals} {L L' : Locals} {s : Typed.Stmt}
    (h : StmtType G L s L') : ∃ added, L' = added ++ L := by
  cases h with
  | declare => exact ⟨[_], rfl⟩
  | assign | ifThen | ifElse | whileDo | block | call | print | println | empty => exact ⟨[], rfl⟩

theorem StmtTypes.exists_append {G : Globals} {body : List Typed.Stmt} {L L' : Locals}
    (h : StmtTypes G L body L') : ∃ added, L' = added ++ L := by
  induction body generalizing L with
  | nil =>
    cases h
    exact ⟨[], rfl⟩
  | cons s body ih =>
    cases h with
    | cons hs hrest =>
      obtain ⟨added, rfl⟩ := hs.exists_append
      obtain ⟨added', rfl⟩ := ih hrest
      exact ⟨added' ++ added, (List.append_assoc _ _ _).symm⟩

/-! ## Programs -/

inductive ResultType (G : Globals) (L : Locals) : Option Typed.Expr → Option FieldType → Prop
  | none : ResultType G L none none
  | some {e t} : ExprType G L e t → ResultType G L (some e) (some t)

/-- The last parameter is the innermost local name of the body. -/
def parameterLocals (parameters : List (String × FieldType)) : Locals :=
  (parameters.map fun p => (p.1, .readWrite, p.2)).reverse

/-- A function with the types of its parameters and its result. -/
inductive FunctionType (G : Globals) : Typed.Function → List FieldType → Option FieldType → Prop
  | intro {name body result t L} {parameters : List (String × FieldType)} :
      StmtTypes G (parameterLocals parameters) body L → ResultType G L result t →
      FunctionType G ⟨name, parameters.map fun p => (p.1, typeOf p.2), body, result⟩
        (parameters.map (·.2)) t

/-- The table of global names has the declarations of the program and its entry function. -/
structure ProgramType (G : Globals) (p : Typed.Program) : Prop where
  nodup : (p.declarations.map (·.name)).Nodup
  ne_main : ∀ d ∈ p.declarations, d.name ≠ "main"
  value : ∀ {name access t}, G.lookup name = some (.value access t) →
    ∃ v, .global access name v ∈ p.declarations ∧ valueType v = t
  function : ∀ {name parameters result}, G.lookup name = some (.function parameters result) →
    name = "main" ∧ parameters = [] ∧ result = none ∨
    ∃ f, .function f ∈ p.declarations ∧ f.name = name ∧ FunctionType G f parameters result
  declared : ∀ {f}, .function f ∈ p.declarations →
    ∃ parameters result, FunctionType G f parameters result
  statement : ∃ L, StmtType G [] p.statement L

/-! ## What the rules derive is typed -/

mutual

theorem HasType.exprType {Γ : Context} {e : Surface.Expr} {e' : Typed.Expr} {t : FieldType}
    (h : HasType Γ e e' t) : ExprType Γ.globals Γ.locals.bindings e' t :=
  match h with
  | .ternary hg hy hn => .ternary hg.exprType hy.exprType hn.exprType
  | .binary hl hr ho => .binary hl.exprType hr.exprType ho
  | .negative _ => .literal
  | .unary _ he ho => .unary he.exprType ho
  | .call hf hs => .call (by rw [meaningOf_bindings, hf]) hs.exprTypes
  | .name hn => .name (by rw [meaningOf_bindings, hn])
  | .paren he => he.exprType
  | .literal hv => hv.valueType_eq ▸ .literal

theorem HasTypes.exprTypes {Γ : Context} {es : List Surface.Expr} {es' : List Typed.Expr}
    {ts : List FieldType} (h : HasTypes Γ es es' ts) :
    ExprTypes Γ.globals Γ.locals.bindings es' ts :=
  match h with
  | .nil => .nil
  | .cons he hs => .cons he.exprType hs.exprTypes

end

theorem stmtType_openScope {Γ Δ : Context} {s : Typed.Stmt}
    (h : StmtType Γ.openScope.globals Γ.openScope.locals.bindings s Δ.locals.bindings) :
    StmtType Γ.globals Γ.locals.bindings s Δ.locals.bindings := by
  simpa only [Context.openScope, Scope.bindings_openScope] using h

mutual

theorem HasStmt.stmtType {Γ Δ : Context} {s : Surface.Stmt} {s' : Typed.Stmt}
    (h : HasStmt Γ s s' Δ) :
    Δ.globals = Γ.globals ∧ StmtType Γ.globals Γ.locals.bindings s' Δ.locals.bindings :=
  match h with
  | .assign hx he => ⟨rfl, .assign (by rw [meaningOf_bindings, hx]) he.exprType⟩
  | .declare he => ⟨rfl, .declare he.exprType⟩
  | .ifThen hg hy => ⟨rfl, .ifThen hg.exprType (stmtType_openScope hy.stmtType.2)⟩
  | .ifElse hg hy hn => ⟨rfl, .ifElse hg.exprType (stmtType_openScope hy.stmtType.2)
      (stmtType_openScope hn.stmtType.2)⟩
  | .whileDo hg hb => ⟨rfl, .whileDo hg.exprType (stmtType_openScope hb.stmtType.2)⟩
  | .block hb => by
    have hb := hb.stmtTypes.2
    simp only [Context.openScope, Scope.bindings_openScope] at hb
    exact ⟨rfl, .block hb⟩
  | .call hf hs => ⟨rfl, .call (by rw [meaningOf_bindings, hf]) hs.exprTypes⟩
  | .print _ _ hs => ⟨rfl, .print hs.exprTypes⟩
  | .println _ _ hs => ⟨rfl, .println hs.exprTypes⟩
  | .empty => ⟨rfl, .empty⟩

theorem HasStmts.stmtTypes {Γ Δ : Context} {body : List Surface.Stmt} {body' : List Typed.Stmt}
    (h : HasStmts Γ body body' Δ) :
    Δ.globals = Γ.globals ∧ StmtTypes Γ.globals Γ.locals.bindings body' Δ.locals.bindings :=
  match h with
  | .nil => ⟨rfl, .nil⟩
  | .cons hs hrest => by
    obtain ⟨hg, hs⟩ := hs.stmtType
    obtain ⟨hg', hrest⟩ := hrest.stmtTypes
    exact ⟨hg'.trans hg, .cons hs (hg ▸ hrest)⟩

end

theorem bindings_ofParameters (G : Globals) (parameters : List (String × FieldType)) :
    (Context.ofParameters G parameters).globals = G ∧
      (Context.ofParameters G parameters).locals.bindings = parameterLocals parameters := by
  have hfold : ∀ (ps : List (String × FieldType)) (Γ : Context),
      (ps.foldl (fun Γ p => Γ.declare p.1 .readWrite p.2) Γ).globals = Γ.globals ∧
      (ps.foldl (fun Γ p => Γ.declare p.1 .readWrite p.2) Γ).locals.bindings =
        parameterLocals ps ++ Γ.locals.bindings := by
    intro ps
    induction ps with
    | nil => exact fun Γ => ⟨rfl, rfl⟩
    | cons p ps ih =>
      intro Γ
      obtain ⟨hg, hl⟩ := ih (Γ.declare p.1 .readWrite p.2)
      refine ⟨hg, ?_⟩
      rw [List.foldl_cons, hl]
      simp [Context.declare, parameterLocals]
  obtain ⟨hg, hl⟩ := hfold parameters { globals := G }
  refine ⟨hg, hl.trans ?_⟩
  simp [Scope.bindings]

theorem HasResult.resultType {Γ : Context} {result : Option (Surface.TypeName × Surface.Expr)}
    {result' : Option Typed.Expr} (h : HasResult Γ result result') :
    ResultType Γ.globals Γ.locals.bindings result' (result.map fun r => written r.1) := by
  cases h with
  | none => exact .none
  | some he => exact .some he.exprType

theorem HasDecl.name_eq {G : Globals} {d : Surface.Decl} {d' : Typed.Decl} (h : HasDecl G d d') :
    d'.name = d.identifier.name := by
  cases h <;> rfl

/-- A declaration is bound to what its typed form is. -/
theorem HasDecl.typed {G : Globals} {d : Surface.Decl} {d' : Typed.Decl} (h : HasDecl G d d') :
    (∃ access name v, d' = .global access name v ∧ meaning d = .value access (valueType v)) ∨
    ∃ f parameters result, d' = .function f ∧ meaning d = .function parameters result ∧
      FunctionType G f parameters result := by
  cases h with
  | global hv => exact .inl ⟨_, _, _, rfl, by rw [meaning, hv.valueType_eq]⟩
  | @function i parameters body result body' result' Δ _ _ hbody hresult =>
    right
    obtain ⟨hg, hl⟩ := bindings_ofParameters G (parameters.map fun p => (p.1.name, written p.2))
    obtain ⟨hg', hbody⟩ := hbody.stmtTypes
    have hresult := hresult.resultType
    rw [hg', hg] at hresult
    rw [hg, hl] at hbody
    have hf := @FunctionType.intro G i.name _ _ _ _ _ hbody hresult
    simp only [List.map_map, Function.comp_def] at hf
    exact ⟨_, _, _, rfl, rfl, hf⟩

theorem lookup_globals {ds : List Surface.Decl} {name : String} {m : Meaning}
    (h : (globals ds).lookup name = some m) :
    ∃ d ∈ ds, d.identifier.name = name ∧ meaning d = m := by
  obtain ⟨before, after, heq, -⟩ := List.lookup_eq_some_iff.mp h
  have hmem : (name, m) ∈ globals ds := by rw [heq]; simp
  obtain ⟨d, hd, heq⟩ := List.mem_map.mp hmem
  exact ⟨d, hd, congrArg Prod.fst heq, congrArg Prod.snd heq⟩

theorem map_name_of_hasDecl {G : Globals} {ds : List Surface.Decl} {ds' : List Typed.Decl}
    (h : List.Forall₂ (HasDecl G) ds ds') : ds'.map (·.name) = ds.map (·.identifier.name) := by
  induction h with
  | nil => rfl
  | cons hd _ ih => rw [List.map_cons, List.map_cons, hd.name_eq, ih]

theorem exists_of_forall₂ {α β : Type} {R : α → β → Prop} {l : List α} {l' : List β}
    (h : List.Forall₂ R l l') {a : α} (ha : a ∈ l) : ∃ b ∈ l', R a b := by
  induction h with
  | nil => simp at ha
  | cons h _ ih =>
    rcases List.mem_cons.mp ha with rfl | ha
    · exact ⟨_, List.mem_cons_self, h⟩
    · obtain ⟨b, hb, h⟩ := ih ha
      exact ⟨b, List.mem_cons_of_mem _ hb, h⟩

theorem programType_of_hasDecl {G : Globals} {ds : List Surface.Decl} {p : Typed.Program}
    (h : List.Forall₂ (HasDecl G) ds p.declarations) (hnodup : (ds.map (·.identifier.name)).Nodup)
    (hmain : ∀ d ∈ ds, d.identifier.name ≠ "main")
    (hlookup : ∀ {name m}, G.lookup name = some m → name = "main" ∧ m = .function [] none ∨
      ∃ d ∈ ds, d.identifier.name = name ∧ meaning d = m)
    (hs : ∃ L, StmtType G [] p.statement L) : ProgramType G p := by
  have hnames := map_name_of_hasDecl h
  refine ⟨hnames ▸ hnodup, ?_, ?_, ?_, ?_, hs⟩
  · intro d' hd'
    have hmem : d'.name ∈ ds.map (·.identifier.name) := hnames ▸ List.mem_map_of_mem hd'
    obtain ⟨d, hd, heq⟩ := List.mem_map.mp hmem
    exact heq ▸ hmain d hd
  · intro name access t hv
    rcases hlookup hv with ⟨-, hm⟩ | ⟨d, hd, rfl, hm⟩
    · cases hm
    · obtain ⟨d', hd', hdecl⟩ := exists_of_forall₂ h hd
      have hname := hdecl.name_eq
      rcases hdecl.typed with ⟨_, _, v, rfl, hm'⟩ | ⟨_, _, _, _, hm', _⟩
      · rw [hm] at hm'
        cases hm'
        exact ⟨v, hname ▸ hd', rfl⟩
      · rw [hm] at hm'
        cases hm'
  · intro name parameters result hf
    rcases hlookup hf with ⟨rfl, hm⟩ | ⟨d, hd, rfl, hm⟩
    · cases hm
      exact .inl ⟨rfl, rfl, rfl⟩
    · obtain ⟨d', hd', hdecl⟩ := exists_of_forall₂ h hd
      have hname := hdecl.name_eq
      rcases hdecl.typed with ⟨_, _, _, _, hm'⟩ | ⟨f, _, _, rfl, hm', hf⟩
      · rw [hm] at hm'
        cases hm'
      · rw [hm] at hm'
        cases hm'
        exact .inr ⟨f, hd', hname, hf⟩
  · intro f hf
    obtain ⟨d, -, hdecl⟩ := exists_of_forall₂ h.flip hf
    rcases hdecl.typed with ⟨_, _, _, h, _⟩ | ⟨f', parameters, result, h, _, hf⟩
    · cases h
    · cases h
      exact ⟨parameters, result, hf⟩

/-- A well-formed program has a typed form that follows the rules by itself. -/
theorem WellFormed.programType {p : Surface.Program} {t : Typed.Program} (h : WellFormed p t) :
    ∃ G, ProgramType G t := by
  cases h with
  | @withoutEntry ds ds' hnodup hmain hds =>
    refine ⟨_, programType_of_hasDecl hds hnodup hmain ?_ ⟨[], .empty⟩⟩
    intro name m hm
    rw [lookup_cons_ite] at hm
    by_cases hname : name = "main"
    · rw [if_pos hname] at hm
      exact .inl ⟨hname, (Option.some.inj hm).symm⟩
    · rw [if_neg hname] at hm
      exact .inr (lookup_globals hm)
  | @withEntry before after ds' i body body' s Δ hi hnodup hbody hs hds =>
    obtain ⟨hbefore, hafter⟩ := ne_main_of_nodup (d := .function i [] body none) hi hnodup
    have hsub : (before ++ after).Sublist (before ++ .function i [] body none :: after) :=
      (List.sublist_cons_self _ _).append_left _
    refine ⟨_, programType_of_hasDecl hds (hnodup.sublist (hsub.map _)) ?_ ?_ ?_⟩
    · intro d hd
      rcases List.mem_append.mp hd with hd | hd
      · exact hbefore d hd
      · exact hafter d hd
    · intro name m hm
      obtain ⟨d, hd, hname, hm⟩ := lookup_globals hm
      rcases List.mem_append.mp hd with hd | hd
      · exact .inr ⟨d, List.mem_append_left _ hd, hname, hm⟩
      · rcases List.mem_cons.mp hd with rfl | hd
        · exact .inl ⟨hname.symm.trans hi, hm.symm⟩
        · exact .inr ⟨d, List.mem_append_right _ hd, hname, hm⟩
    · have hbody := hbody.stmtTypes.2
      cases hs with
      | one =>
        cases hbody with
        | cons hs _ => exact ⟨_, hs⟩
      | block _ => exact ⟨[], .block hbody⟩

end PZero.Rules
