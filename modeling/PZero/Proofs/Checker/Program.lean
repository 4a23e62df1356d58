import PZero.Analysis.Program
import PZero.Proofs.Checker.Stmt

/-! # Programs are checked by the rules

The checker binds the global names one after the other, the first declaration of a
name being the one that counts, while the rules look them up in a list. Once both
tables agree, a declaration has no diagnostics just when the rules derive it, and
so has a program.
-/
namespace PZero.Rules
open Analysis Bytecode

/-! ## Repeated names -/

theorem redefinitions_eq_nil {seen : List String} {ids : List Surface.Identifier} :
    redefinitions seen ids = [] ↔
      (ids.map (·.name)).Nodup ∧ ∀ i ∈ ids, i.name ∉ seen := by
  induction ids generalizing seen with
  | nil => simp [redefinitions]
  | cons i ids ih =>
    simp only [redefinitions, List.append_eq_nil_iff, ih, List.map_cons, List.nodup_cons,
      List.forall_mem_cons, List.mem_map, not_exists, not_and]
    have hseen : (if seen.contains i.name then [Diagnostic.redefinition i.name i.span] else []) = []
        ↔ i.name ∉ seen := by
      by_cases h : i.name ∈ seen <;> simp [h]
    rw [hseen]
    constructor
    · rintro ⟨hi, hnodup, hids⟩
      refine ⟨⟨fun j hj hij => (hids j hj) (hij ▸ List.mem_cons_self), hnodup⟩, hi, ?_⟩
      exact fun j hj hmem => hids j hj (List.mem_cons_of_mem _ hmem)
    · rintro ⟨⟨hfresh, hnodup⟩, hi, hids⟩
      refine ⟨hi, hnodup, fun j hj hmem => ?_⟩
      rcases List.mem_cons.mp hmem with hij | hmem
      · exact hfresh j hj hij
      · exact hids j hj hmem

theorem redefinitions_nil_iff {ids : List Surface.Identifier} :
    redefinitions [] ids = [] ↔ (ids.map (·.name)).Nodup := by
  simp [redefinitions_eq_nil]

theorem map_declared (body : List Surface.Stmt) :
    (declared body).map (·.name) = localNames body := by
  induction body with
  | nil => rfl
  | cons s body ih =>
    cases s <;> simp_all [declared, localNames]

/-! ## Tables of global names -/

theorem binding_meaning (d : Surface.Decl) : (meaning d).binding = .ofDecl d := by
  cases d with
  | global access i value =>
    have ht : typeOf (initialType value) = literalExprType value := by
      cases value with
      | value v => exact typeOf_literalType v
      | unary s op v =>
        cases op with
        | not => rfl
        | minus | plus => exact typeOf_literalType v
    simp [meaning, Meaning.binding, Binding.ofDecl, ht]
  | function i parameters body result =>
    simp [meaning, Meaning.binding, Binding.ofDecl, Function.comp_def, typeOf_written]

theorem get?_of_enclosing_nil {α : Type} {s : Scope α} (h : s.enclosing = []) (name : String) :
    s.get? name = s.current.lookup name := by
  cases hn : s.current.lookup name <;> simp [Scope.get?, h, hn]

/-- A name that is bound already keeps its meaning, a new one gets that of its first declaration. -/
theorem get?_foldl_bindGlobal (ds : List Surface.Decl) {env : Env} (h : env.enclosing = [])
    (name : String) :
    (ds.foldl bindGlobal env).get? name =
      (env.get? name).or (((globals ds).lookup name).map Meaning.binding) := by
  induction ds generalizing env with
  | nil => simp [globals]
  | cons d ds ih =>
    have hcurrent : env.inCurrent d.identifier.name = (env.get? d.identifier.name).isSome := by
      rw [get?_of_enclosing_nil h, Scope.inCurrent]
    simp only [List.foldl_cons, bindGlobal, hcurrent, globals, List.map_cons, lookup_cons_ite]
    cases hbound : env.get? d.identifier.name with
    | some b =>
      rw [Option.isSome_some, if_pos rfl, ih h]
      by_cases hname : name = d.identifier.name
      · simp [hname, hbound]
      · simp [globals, hname]
    | none =>
      have hinsert : (env.insert d.identifier.name (.ofDecl d)).enclosing = [] := h
      rw [Option.isSome_none, if_neg (by simp), ih hinsert, Scope.get?_insert]
      by_cases hname : name = d.identifier.name
      · simp [hname, hbound, binding_meaning]
      · simp [globals, hname]

theorem get?_globalEnv (ds : List Surface.Decl) (name : String) :
    (globalEnv ds).get? name = ((globals ds).lookup name).map Meaning.binding := by
  rw [globalEnv, get?_foldl_bindGlobal ds rfl]
  rfl

theorem agrees_globalEnv (ds : List Surface.Decl) : Agrees (globalEnv ds) { globals := globals ds } :=
  get?_globalEnv ds

theorem agrees_insert_globalEnv (ds : List Surface.Decl) (name : String) (m : Meaning) :
    Agrees ((globalEnv ds).insert name m.binding) { globals := (name, m) :: globals ds } := by
  intro other
  rw [Scope.get?_insert, get?_globalEnv]
  change _ = (((name, m) :: globals ds).lookup other).map Meaning.binding
  rw [lookup_cons_ite]
  by_cases h : other = name <;> simp [h]

section
variable {env : Env} {globals : List (String × Meaning)}

theorem Agrees.foldl_declare {Γ : Context} (ha : Agrees env Γ)
    (parameters : List (Surface.Identifier × Surface.TypeName)) :
    Agrees (parameters.foldl (fun env p => env.insert p.1.name (.var p.2.ty)) env)
      ((parameters.map fun p => (p.1.name, written p.2)).foldl
        (fun Γ p => Γ.declare p.1 .readWrite p.2) Γ) := by
  induction parameters generalizing env Γ with
  | nil => exact ha
  | cons p parameters ih =>
    have hp := ha.declare p.1.name .readWrite (written p.2)
    rw [typeOf_written] at hp
    exact ih hp

theorem agrees_bodyEnv (ha : Agrees env { globals })
    (parameters : List (Surface.Identifier × Surface.TypeName)) :
    Agrees (bodyEnv env parameters)
      (.ofParameters globals (parameters.map fun p => (p.1.name, written p.2))) := by
  have hopen : Agrees env.openScope { globals } := fun name => by
    rw [Scope.get?_openScope, ha]
  exact hopen.foldl_declare parameters

/-! ## Declarations -/

theorem initialValue_iff {e : Surface.LiteralExpr} {v : Typed.Literal} :
    InitialValue e v ↔ diagnoseLiteralExpr e = [] ∧ typedLiteralExpr e = v := by
  constructor
  · intro h
    cases h with
    | value hv =>
      obtain ⟨hd, rfl, -⟩ := literalValue_iff.mp hv
      exact ⟨hd, rfl⟩
    | @plus s v _ _ hv ht =>
      obtain ⟨hd, rfl, rfl⟩ := literalValue_iff.mp hv
      cases v <;> simp_all [literalType, IsNumeric, diagnoseLiteralExpr, typedLiteralExpr, folded?]
    | negativeInt hn => simp [diagnoseLiteralExpr, typedLiteralExpr, folded?, diagnoseLiteral,
        typedLiteral, hn]
    | negativeFloat hx hf => simp [diagnoseLiteralExpr, typedLiteralExpr, folded?, diagnoseLiteral,
        typedLiteral, hx, hf]
    | not => exact ⟨rfl, rfl⟩
  · rintro ⟨hd, rfl⟩
    cases e with
    | value v => exact .value (literalValue_iff.mpr ⟨hd, rfl, rfl⟩)
    | unary s op v =>
      cases op with
      | plus =>
        cases v with
        | int text span => exact .plus (literalValue_iff.mpr ⟨hd, rfl, rfl⟩) (.inl rfl)
        | float text span => exact .plus (literalValue_iff.mpr ⟨hd, rfl, rfl⟩) (.inr rfl)
        | bool | string => simp [diagnoseLiteralExpr, folded?] at hd
      | minus =>
        cases v with
        | int text span =>
          have hv := literalValue_iff (v := .int ("-" ++ text) (s + span)).mpr ⟨hd, rfl, rfl⟩
          change InitialValue _ (typedLiteral (.int ("-" ++ text) (s + span)))
          generalize typedLiteral (.int ("-" ++ text) (s + span)) = n at hv
          cases hv with
          | int hn => exact .negativeInt hn
        | float text span =>
          have hv := literalValue_iff (v := .float ("-" ++ text) (s + span)).mpr ⟨hd, rfl, rfl⟩
          change InitialValue _ (typedLiteral (.float ("-" ++ text) (s + span)))
          generalize typedLiteral (.float ("-" ++ text) (s + span)) = x at hv
          cases hv with
          | float hx hf => exact .negativeFloat hx hf
        | bool | string => simp [diagnoseLiteralExpr, folded?] at hd
      | not =>
        cases v with
        | bool b span => exact .not
        | int | float | string => simp [diagnoseLiteralExpr, folded?] at hd

theorem hasResult_iff {Γ : Context} (ha : Agrees env Γ) (i : Surface.Identifier)
    {result : Option (Surface.TypeName × Surface.Expr)} {result' : Option Typed.Expr} :
    HasResult Γ result result' ↔
      diagnoseResult env i result = [] ∧ (result.map fun r => typedExpr env r.2) = result' := by
  constructor
  · intro h
    cases h with
    | none => exact ⟨rfl, rfl⟩
    | some he =>
      obtain ⟨hd, rfl, ht⟩ := he.checked ha
      simp [diagnoseResult, hd, ht, ← typeOf_written, compatible_typeOf]
  · rintro ⟨hd, rfl⟩
    cases result with
    | none => exact .none
    | some r =>
      simp only [diagnoseResult, List.append_eq_nil_iff] at hd
      obtain ⟨t, he⟩ := hasType_typedExpr ha r.2 hd.1
      have ht : t = written r.1 := by
        simpa [(he.checked ha).2.2, ← typeOf_written, compatible_typeOf] using hd.2
      subst ht
      exact .some he

theorem hasDecl_iff (ha : Agrees env { globals }) {d : Surface.Decl} {d' : Typed.Decl} :
    HasDecl globals d d' ↔ diagnoseDecl env d = [] ∧ typedDecl env d = d' := by
  constructor
  · intro h
    cases h with
    | global hv =>
      obtain ⟨hd, rfl⟩ := initialValue_iff.mp hv
      exact ⟨hd, rfl⟩
    | @function i parameters body result body' result' Δ hp hl hbody hresult =>
      obtain ⟨hbodyd, rfl, hafter⟩ := hbody.checked (agrees_bodyEnv ha parameters)
      obtain ⟨hresultd, rfl⟩ := (hasResult_iff hafter i).mp hresult
      refine ⟨?_, ?_⟩
      · simp only [diagnoseDecl, List.append_eq_nil_iff, redefinitions_nil_iff, map_declared,
          List.map_map]
        exact ⟨⟨⟨hp, hl⟩, hbodyd⟩, hresultd⟩
      · simp [typedDecl, typeOf_written]
  · rintro ⟨hd, rfl⟩
    cases d with
    | global access i value => exact .global (initialValue_iff.mpr ⟨hd, rfl⟩)
    | function i parameters body result =>
      simp only [diagnoseDecl, List.append_eq_nil_iff, redefinitions_nil_iff, map_declared,
        List.map_map] at hd
      obtain ⟨⟨⟨hp, hl⟩, hbodyd⟩, hresultd⟩ := hd
      obtain ⟨Δ, hbody⟩ := hasStmts_typedStmts (agrees_bodyEnv ha parameters) body hbodyd
      have hafter := (hbody.checked (agrees_bodyEnv ha parameters)).2.2
      have hresult := (hasResult_iff hafter i).mpr ⟨hresultd, rfl⟩
      have hf := HasDecl.function (i := i) hp hl hbody hresult
      simpa only [typedDecl, typeOf_written] using hf

theorem hasDecls_iff (ha : Agrees env { globals }) {ds : List Surface.Decl}
    {ds' : List Typed.Decl} :
    List.Forall₂ (HasDecl globals) ds ds' ↔
      ds.flatMap (diagnoseDecl env) = [] ∧ ds.map (typedDecl env) = ds' := by
  induction ds generalizing ds' with
  | nil => simp [eq_comm]
  | cons d ds ih =>
    simp only [List.forall₂_cons_left_iff, ih, hasDecl_iff ha, List.flatMap_cons, List.map_cons,
      List.append_eq_nil_iff]
    constructor
    · rintro ⟨d', rest, ⟨hd, rfl⟩, ⟨hrest, rfl⟩, rfl⟩
      exact ⟨⟨hd, hrest⟩, rfl⟩
    · rintro ⟨⟨hd, hrest⟩, rfl⟩
      exact ⟨_, _, ⟨hd, rfl⟩, ⟨hrest, rfl⟩, rfl⟩

end

/-! ## Programs -/

theorem isStatement_iff {body : List Typed.Stmt} {s : Typed.Stmt} :
    IsStatement body s ↔ programStatement body = s := by
  constructor
  · intro h
    cases h with
    | one => rfl
    | block hl =>
      match body, hl with
      | [], _ => rfl
      | [_], hl => exact (hl rfl).elim
      | _ :: _ :: _, _ => rfl
  · rintro rfl
    match body with
    | [] => exact .block (by simp)
    | [_] => exact .one
    | _ :: _ :: _ => exact .block (by simp)

theorem entry_of_absent {ds : List Surface.Decl} (h : ∀ d ∈ ds, d.identifier.name ≠ "main") :
    entry ⟨ds⟩ = .absent := by
  have hfind : ds.find? (·.identifier.name == entryName) = none := by
    simpa [entryName] using h
  simp only [entry, hfind]

theorem entry_append {before after : List Surface.Decl} {i : Surface.Identifier}
    {body : List Surface.Stmt} (hb : ∀ d ∈ before, d.identifier.name ≠ "main")
    (hi : i.name = "main") :
    entry ⟨before ++ .function i [] body none :: after⟩ = .body body := by
  have hfind : (before ++ .function i [] body none :: after).find?
      (·.identifier.name == entryName) = some (.function i [] body none) := by
    rw [List.find?_append, List.find?_eq_none.mpr (by simpa [entryName] using hb)]
    simp [Surface.Decl.identifier, hi, entryName]
  simp only [entry, hfind]

theorem entry_cases (ds : List Surface.Decl) :
    (∀ d ∈ ds, d.identifier.name ≠ "main") ∨ (∃ i, entry ⟨ds⟩ = .invalid i) ∨
      ∃ before after i body, ds = before ++ .function i [] body none :: after ∧ i.name = "main" := by
  cases hfind : ds.find? (·.identifier.name == entryName) with
  | none => exact .inl (by simpa [entryName] using hfind)
  | some d =>
    right
    obtain ⟨hname, before, after, rfl, -⟩ := List.find?_eq_some_iff_append.mp hfind
    have hname : d.identifier.name = "main" := by simpa [entryName] using hname
    match d with
    | .function i [] body none => exact .inr ⟨before, after, i, body, rfl, hname⟩
    | .function i [] body (some r) => exact .inl ⟨i, by simp only [entry, hfind]; rfl⟩
    | .function i (p :: ps) body r => exact .inl ⟨i, by simp only [entry, hfind]; rfl⟩
    | .global access i value => exact .inl ⟨i, by simp only [entry, hfind]; rfl⟩

theorem filter_other {before after : List Surface.Decl} {d : Surface.Decl}
    (hd : d.identifier.name = "main")
    (hb : ∀ d ∈ before, d.identifier.name ≠ "main") (ha : ∀ d ∈ after, d.identifier.name ≠ "main") :
    (before ++ d :: after).filter (·.identifier.name != entryName) = before ++ after := by
  have hkeep : ∀ ds : List Surface.Decl, (∀ d ∈ ds, d.identifier.name ≠ "main") →
      ds.filter (·.identifier.name != entryName) = ds := fun ds h => by
    simpa [List.filter_eq_self, entryName] using h
  rw [List.filter_append, hkeep before hb, List.filter_cons_of_neg (by simp [hd, entryName]),
    hkeep after ha]

theorem check_eq_ok {p : Surface.Program} {t : Typed.Program} :
    check p = .ok t ↔ diagnoseProgram p = [] ∧ typedProgram p = t := by
  cases h : diagnoseProgram p <;> simp [check, h]

theorem check_eq_error {p : Surface.Program} :
    (∃ d ds, check p = .error (d :: ds)) ↔ diagnoseProgram p ≠ [] := by
  cases h : diagnoseProgram p <;> simp [check, h]

theorem checked_withoutEntry {ds : List Surface.Decl} (h : ∀ d ∈ ds, d.identifier.name ≠ "main")
    {t : Typed.Program} :
    diagnoseProgram ⟨ds⟩ = [] ∧ typedProgram ⟨ds⟩ = t ↔
      (ds.map (·.identifier.name)).Nodup ∧ ∃ ds',
        List.Forall₂ (HasDecl (("main", .function [] none) :: globals ds)) ds ds' ∧
        t = ⟨ds', .empty⟩ := by
  have ha := agrees_insert_globalEnv ds "main" (.function [] none)
  simp only [diagnoseProgram, typedProgram, programEnv, otherDeclarations, entry_of_absent h,
    diagnoseEntry, List.append_eq_nil_iff, redefinitions_nil_iff, List.map_map,
    hasDecls_iff ha]
  constructor
  · rintro ⟨⟨⟨hnodup, -⟩, hds⟩, rfl⟩
    exact ⟨hnodup, _, ⟨hds, rfl⟩, rfl⟩
  · rintro ⟨hnodup, _, ⟨hds, rfl⟩, rfl⟩
    exact ⟨⟨⟨hnodup, trivial⟩, hds⟩, rfl⟩

theorem checked_withEntry {before after : List Surface.Decl} {i : Surface.Identifier}
    {body : List Surface.Stmt} (hi : i.name = "main")
    (hb : ∀ d ∈ before, d.identifier.name ≠ "main") (ha : ∀ d ∈ after, d.identifier.name ≠ "main")
    {t : Typed.Program} :
    diagnoseProgram ⟨before ++ .function i [] body none :: after⟩ = [] ∧
        typedProgram ⟨before ++ .function i [] body none :: after⟩ = t ↔
      ((before ++ .function i [] body none :: after).map (·.identifier.name)).Nodup ∧
      ∃ body' Δ s ds',
        HasStmts { globals := globals (before ++ .function i [] body none :: after) } body body' Δ ∧
        IsStatement body' s ∧
        List.Forall₂ (HasDecl (globals (before ++ .function i [] body none :: after)))
          (before ++ after) ds' ∧
        t = ⟨ds', s⟩ := by
  have hglobal := agrees_globalEnv (before ++ .function i [] body none :: after)
  have hopen : Agrees (globalEnv (before ++ .function i [] body none :: after)).openScope
      { globals := globals (before ++ .function i [] body none :: after) } := fun name => by
    rw [Scope.get?_openScope, hglobal]
  simp only [diagnoseProgram, typedProgram, programEnv, otherDeclarations, entry_append hb hi,
    diagnoseEntry, List.append_eq_nil_iff, redefinitions_nil_iff, List.map_map,
    filter_other (d := .function i [] body none) hi hb ha, hasDecls_iff hglobal, isStatement_iff]
  constructor
  · rintro ⟨⟨⟨hnodup, hbody⟩, hds⟩, rfl⟩
    obtain ⟨Δ, hbody⟩ := hasStmts_typedStmts hopen body hbody
    exact ⟨hnodup, _, Δ, _, _, hbody, rfl, ⟨hds, rfl⟩, rfl⟩
  · rintro ⟨hnodup, _, Δ, _, _, hbody, rfl, ⟨hds, rfl⟩, rfl⟩
    obtain ⟨hbodyd, rfl, -⟩ := hbody.checked hopen
    exact ⟨⟨⟨hnodup, hbodyd⟩, hds⟩, rfl⟩

/-- Of distinct names only one is that of the entry function. -/
theorem ne_main_of_nodup {before after : List Surface.Decl} {d : Surface.Decl}
    (hd : d.identifier.name = "main")
    (h : ((before ++ d :: after).map (·.identifier.name)).Nodup) :
    (∀ d ∈ before, d.identifier.name ≠ "main") ∧ ∀ d ∈ after, d.identifier.name ≠ "main" := by
  rw [List.map_append, List.map_cons, List.nodup_append, List.nodup_cons] at h
  obtain ⟨-, ⟨hafter, -⟩, hbefore⟩ := h
  constructor
  · intro b hb heq
    exact hbefore _ (List.mem_map_of_mem hb) _ List.mem_cons_self (heq.trans hd.symm)
  · intro a ha heq
    exact hafter (List.mem_map.mpr ⟨a, ha, heq.trans hd.symm⟩)

theorem checked_iff {p : Surface.Program} {t : Typed.Program} :
    diagnoseProgram p = [] ∧ typedProgram p = t ↔ WellFormed p t := by
  constructor
  · intro h
    have hnodup : (p.declarations.map (·.identifier.name)).Nodup := by
      have hd := h.1
      simp only [diagnoseProgram, List.append_eq_nil_iff, redefinitions_nil_iff, List.map_map] at hd
      exact hd.1.1
    rcases entry_cases p.declarations with hno | ⟨i, hi⟩ | ⟨before, after, i, body, hds, hi⟩
    · obtain ⟨-, ds', hds, rfl⟩ := (checked_withoutEntry hno).mp h
      exact .withoutEntry hnodup hno hds
    · simp [diagnoseProgram, hi, diagnoseEntry] at h
    · obtain ⟨ds⟩ := p
      obtain rfl : ds = before ++ .function i [] body none :: after := hds
      obtain ⟨hb, ha⟩ := ne_main_of_nodup (d := .function i [] body none) hi hnodup
      obtain ⟨-, body', Δ, s, ds', hbody, hs, hds, rfl⟩ := (checked_withEntry hi hb ha).mp h
      exact .withEntry hi hnodup hbody hs hds
  · intro h
    cases h with
    | withoutEntry hnodup hno hds =>
      exact (checked_withoutEntry hno).mpr ⟨hnodup, _, hds, rfl⟩
    | withEntry hi hnodup hbody hs hds =>
      obtain ⟨hb, ha⟩ := ne_main_of_nodup (d := .function _ [] _ none) hi hnodup
      exact (checked_withEntry hi hb ha).mpr ⟨hnodup, _, _, _, _, hbody, hs, hds, rfl⟩

/-- The checker accepts a program just when the rules derive it, with the typed form that they give
it; to every other program it has at least one objection. -/
theorem check_iff_wellFormed (p : Surface.Program) :
    (∀ t, check p = .ok t ↔ WellFormed p t) ∧
      ((∃ d ds, check p = .error (d :: ds)) ↔ ∀ t, ¬ WellFormed p t) := by
  refine ⟨fun t => check_eq_ok.trans checked_iff, ?_⟩
  rw [check_eq_error]
  constructor
  · intro h t ht
    exact h (checked_iff.mpr ht).1
  · intro h hd
    exact h _ (checked_iff.mp ⟨hd, rfl⟩)

end PZero.Rules
