import PZero.Proofs.Analysis.Meanings
import PZero.Proofs.Totality.Program

/-! # Declarations in another order

Programs whose top-level names are distinct mean the same in whatever order they are
declared. Every global name is bound before anything is analysed, and neither the analysis
of a declaration nor the code of a function leaves anything behind for the next one.
-/
namespace PZero

/-! ## Lists in another order -/

section
variable {α : Type}

/-- Where keys are distinct, a search finds what has the key, wherever it stands. -/
theorem find?_key_eq_some_iff {key : α → String} {l : List α} (h : (l.map key).Nodup) {n : String}
    {a : α} : l.find? (key · == n) = some a ↔ a ∈ l ∧ key a = n := by
  constructor
  · intro hfind
    exact ⟨List.mem_of_find?_eq_some hfind, by simpa using List.find?_some hfind⟩
  · rintro ⟨ha, rfl⟩
    cases hfind : l.find? (key · == key a) with
    | none => simpa using List.find?_eq_none.mp hfind a ha
    | some b =>
      have hkey : key b = key a := by simpa using List.find?_some hfind
      exact congrArg some (List.inj_on_of_nodup_map h (List.mem_of_find?_eq_some hfind) ha hkey)

theorem find?_key_eq_of_perm {key : α → String} {l l' : List α} (h : (l.map key).Nodup)
    (hperm : l'.Perm l) (n : String) : l'.find? (key · == n) = l.find? (key · == n) := by
  have h' : (l'.map key).Nodup := (hperm.map key).nodup_iff.mpr h
  refine Option.ext fun a => ?_
  rw [find?_key_eq_some_iff h', find?_key_eq_some_iff h, hperm.mem_iff]

theorem lookup_eq_some_iff_mem {l : List (String × α)} (h : (l.map Prod.fst).Nodup) {x : String}
    {a : α} : l.lookup x = some a ↔ (x, a) ∈ l := by
  constructor
  · intro hlookup
    obtain ⟨before, after, rfl, -⟩ := List.lookup_eq_some_iff.mp hlookup
    exact List.mem_append_right before List.mem_cons_self
  · exact lookup_of_mem h

theorem lookup_eq_of_perm {l l' : List (String × α)} (h : (l.map Prod.fst).Nodup)
    (hperm : l'.Perm l) (x : String) : l'.lookup x = l.lookup x := by
  have h' : (l'.map Prod.fst).Nodup := (hperm.map Prod.fst).nodup_iff.mpr h
  refine Option.ext fun a => ?_
  rw [lookup_eq_some_iff_mem h', lookup_eq_some_iff_mem h, hperm.mem_iff]

end

namespace Lowering
open Bytecode

theorem mapM_of_forall₂ {ε α β : Type} {f : α → Except ε β} {l : List α} {bs : List β}
    (h : List.Forall₂ (fun a b => f a = .ok b) l bs) : l.mapM f = .ok bs := by
  induction h with
  | nil => rfl
  | cons hb _ ih =>
    rw [List.mapM_cons, hb, ih]
    rfl

theorem exists_mapM_of_perm {ε α β : Type} {f : α → Except ε β} {l l' : List α} {bs : List β}
    (hperm : l'.Perm l) (h : l.mapM f = .ok bs) : ∃ bs', l'.mapM f = .ok bs' ∧ bs'.Perm bs := by
  obtain ⟨bs', hbs', hperm'⟩ := List.perm_comp_forall₂ hperm (forall₂_of_mapM h)
  exact ⟨bs', mapM_of_forall₂ hbs', hperm'⟩

end Lowering

/-! ## Modules -/

/-- The modules differ at most in the order of their fields and routines. -/
structure Bytecode.Module.Reorders (m m' : Bytecode.Module) : Prop where
  name : m'.name = m.name
  fields : m'.fields.Perm m.fields
  routines : m'.routines.Perm m.routines

namespace Lowering
open Bytecode

theorem compile_reorders {p p' : Typed.Program} (hperm : p'.declarations.Perm p.declarations)
    (hstatement : p'.statement = p.statement) {name : String} {m : Module}
    (h : compile p name = .ok m) : ∃ m', compile p' name = .ok m' ∧ m.Reorders m' := by
  simp only [compile, bind_eq_ok, pure_eq_ok] at h
  obtain ⟨routines, hroutines, entry, hentry, rfl⟩ := h
  obtain ⟨routines', hroutines', hrperm⟩ :=
    exists_mapM_of_perm (hperm.filterMap _ : (functions p').Perm (functions p)) hroutines
  refine ⟨⟨name, fields p', initializer :: routines' ++ [entry]⟩, ?_, rfl, hperm.filterMap _, ?_⟩
  · simp only [compile, bind_eq_ok, pure_eq_ok]
    exact ⟨routines', hroutines', entry, hstatement ▸ hentry, rfl⟩
  · exact (hrperm.cons initializer).append_right [entry]

end Lowering

/-! ## Programs -/

namespace Analysis

/-- What becomes of a declaration; a proper entry function becomes the program's statement. -/
def declForm (p : Surface.Program) : Surface.Decl → Option Typed.Decl :=
  match entry p with
  | .body _ => fun d =>
    if d.identifier.name = entryName then none else some (typedDecl (programEnv p) d)
  | .absent | .invalid _ => fun d => some (typedDecl (programEnv p) d)

theorem typedDecl_name (env : Env) (d : Surface.Decl) :
    (typedDecl env d).name = d.identifier.name := by
  cases d <;> rfl

theorem declForm_name {p : Surface.Program} {d : Surface.Decl} {t : Typed.Decl}
    (h : declForm p d = some t) : t.name = d.identifier.name := by
  suffices ht : typedDecl (programEnv p) d = t from ht ▸ typedDecl_name _ d
  revert h
  unfold declForm
  cases entry p with
  | absent => exact Option.some.inj
  | invalid identifier => exact Option.some.inj
  | body statements =>
    intro h
    dsimp only at h
    split_ifs at h
    exact Option.some.inj h

theorem typedProgram_declarations (p : Surface.Program) :
    (typedProgram p).declarations = p.declarations.filterMap (declForm p) := by
  simp only [typedProgram, otherDeclarations, declForm]
  cases entry p with
  | absent => exact (congrFun List.filterMap_eq_map p.declarations).symm
  | invalid identifier => exact (congrFun List.filterMap_eq_map p.declarations).symm
  | body statements =>
    rw [← List.filterMap_eq_map, List.filterMap_filter]
    refine List.filterMap_congr fun d _ => ?_
    by_cases hd : d.identifier.name = entryName <;> simp [hd]

theorem check_succeeds_iff_nil {p : Surface.Program} :
    Totality.Succeeds (check p) ↔ diagnoseProgram p = [] := by
  simp only [Totality.Succeeds, Rules.check_eq_ok]
  constructor
  · rintro ⟨_, h, -⟩
    exact h
  · exact fun h => ⟨_, h, rfl⟩

section
variable {p p' : Surface.Program} (hnames : (p.declarations.map (·.identifier.name)).Nodup)
  (hperm : p'.declarations.Perm p.declarations)
include hnames hperm

theorem sameMeanings_globalEnv :
    SameMeanings (globalEnv p.declarations) (globalEnv p'.declarations) := by
  intro name
  have hkeys : ((Rules.globals p.declarations).map Prod.fst).Nodup := by
    rwa [Rules.globals, List.map_map]
  have hglobals : (Rules.globals p'.declarations).Perm (Rules.globals p.declarations) := hperm.map _
  rw [Rules.get?_globalEnv, Rules.get?_globalEnv, lookup_eq_of_perm hkeys hglobals]

theorem entry_eq_of_perm : entry p' = entry p := by
  rw [entry, entry, find?_key_eq_of_perm hnames hperm entryName]

theorem sameMeanings_programEnv :
    SameMeanings (programEnv p) (programEnv p') := by
  have hglobal := sameMeanings_globalEnv hnames hperm
  simp only [programEnv, entry_eq_of_perm hnames hperm]
  cases entry p with
  | absent => exact hglobal.insert entryName _
  | body statements => exact hglobal
  | invalid identifier => exact hglobal

theorem declForm_eq_of_perm : declForm p' = declForm p := by
  simp only [declForm, entry_eq_of_perm hnames hperm,
    typedDecl_congr (sameMeanings_programEnv hnames hperm)]

theorem otherDeclarations_perm :
    (otherDeclarations p').Perm (otherDeclarations p) := by
  simp only [otherDeclarations, entry_eq_of_perm hnames hperm]
  cases entry p with
  | absent => exact hperm
  | body statements => exact hperm.filter _
  | invalid identifier => exact hperm

theorem typedProgram_statement_eq_of_perm :
    (typedProgram p').statement = (typedProgram p).statement := by
  have henv := sameMeanings_programEnv hnames hperm
  simp only [typedProgram, entry_eq_of_perm hnames hperm]
  cases entry p with
  | absent => rfl
  | body statements => exact congrArg programStatement (typedStmts_congr henv.openScope statements)
  | invalid identifier => rfl

theorem typedProgram_declarations_perm :
    (typedProgram p').declarations.Perm (typedProgram p).declarations := by
  rw [typedProgram_declarations, typedProgram_declarations, declForm_eq_of_perm hnames hperm]
  exact hperm.filterMap _

theorem diagnoseProgram_perm :
    (diagnoseProgram p').Perm (diagnoseProgram p) := by
  have henv := sameMeanings_programEnv hnames hperm
  have hdecl : diagnoseDecl (programEnv p') = diagnoseDecl (programEnv p) :=
    funext fun d => diagnoseDecl_congr henv d
  have hredefined : ∀ q : Surface.Program, (q.declarations.map (·.identifier.name)).Nodup →
      redefinitions [] (q.declarations.map (·.identifier)) = [] := by
    intro q hq
    rw [Rules.redefinitions_nil_iff, List.map_map]
    exact hq
  have hnames' : (p'.declarations.map (·.identifier.name)).Nodup :=
    (hperm.map _).nodup_iff.mpr hnames
  simp only [diagnoseProgram, hredefined p hnames, hredefined p' hnames', List.nil_append, hdecl,
    diagnoseEntry_congr henv, entry_eq_of_perm hnames hperm]
  exact ((otherDeclarations_perm hnames hperm).flatMap_right _).append_left _

end

end Analysis

/-! ## The order of declarations -/

open Analysis Lowering Totality in
/-- The order of declarations does not matter: a program with distinct top-level names and one with
the same declarations in another order have the same typed forms, diagnostics and code. -/
theorem order_of_declarations {p p' : Surface.Program}
    (hnames : (p.declarations.map (·.identifier.name)).Nodup)
    (hperm : p'.declarations.Perm p.declarations) :
    (typedProgram p').statement = (typedProgram p).statement ∧
    (∃ form : Surface.Decl → Option Typed.Decl,
      (∀ d t, form d = some t → t.name = d.identifier.name) ∧
      (typedProgram p).declarations = p.declarations.filterMap form ∧
      (typedProgram p').declarations = p'.declarations.filterMap form) ∧
    (diagnoseProgram p').Perm (diagnoseProgram p) ∧
    (Succeeds (check p') ↔ Succeeds (check p)) ∧
    ∀ name,
      (Succeeds (compile (typedProgram p') name) ↔ Succeeds (compile (typedProgram p) name)) ∧
      ∀ m m', compile (typedProgram p) name = .ok m → compile (typedProgram p') name = .ok m' →
        m.Reorders m' := by
  have hdiagnostics := diagnoseProgram_perm hnames hperm
  have hstatement := typedProgram_statement_eq_of_perm hnames hperm
  have hdeclarations := typedProgram_declarations_perm hnames hperm
  refine ⟨hstatement, ⟨declForm p, fun _ _ => declForm_name, typedProgram_declarations p, ?_⟩,
    hdiagnostics, ?_, fun name => ⟨?_, ?_⟩⟩
  · rw [typedProgram_declarations, declForm_eq_of_perm hnames hperm]
  · rw [check_succeeds_iff_nil, check_succeeds_iff_nil]
    exact ⟨fun h => (h ▸ hdiagnostics).nil_eq.symm, fun h => (h ▸ hdiagnostics).eq_nil⟩
  · constructor
    · rintro ⟨m', hm'⟩
      obtain ⟨m, hm, -⟩ := compile_reorders hdeclarations.symm hstatement.symm hm'
      exact ⟨m, hm⟩
    · rintro ⟨m, hm⟩
      obtain ⟨m', hm', -⟩ := compile_reorders hdeclarations hstatement hm
      exact ⟨m', hm'⟩
  · intro m m' hm hm'
    obtain ⟨_, hm'', hreorders⟩ := compile_reorders hdeclarations hstatement hm
    obtain rfl := Except.ok.inj (hm''.symm.trans hm')
    exact hreorders

/-- Functions that call each other with guards of the wrong type; such guards have code all the
same. -/
def forward : Surface.Program where
  declarations :=
    [.function ⟨"main", {}⟩ [] [.call ⟨"ping", {}⟩ []] none,
      .function ⟨"ping", {}⟩ [] [.ifThen (.name ⟨"limit", {}⟩) (.call ⟨"pong", {}⟩ [])] none,
      .function ⟨"pong", {}⟩ [] [.whileDo (.name ⟨"limit", {}⟩) (.call ⟨"ping", {}⟩ [])] none,
      .global .readOnly ⟨"limit", {}⟩ (.value (.int "3" {}))]

def backward : Surface.Program := ⟨forward.declarations.reverse⟩

open Analysis Lowering Totality in
theorem order_of_declarations_backward :
    (forward.declarations.map (·.identifier.name)).Nodup ∧
    backward.declarations.Perm forward.declarations ∧
    (diagnoseProgram backward).Perm (diagnoseProgram forward) ∧
    diagnoseProgram backward ≠ diagnoseProgram forward ∧
    ∃ m m', compile (typedProgram forward) "demo" = .ok m ∧
      compile (typedProgram backward) "demo" = .ok m' ∧ m.Reorders m' ∧ m' ≠ m := by
  have hnames : (forward.declarations.map (·.identifier.name)).Nodup := by decide
  have hperm : backward.declarations.Perm forward.declarations := List.reverse_perm _
  obtain ⟨-, -, hdiagnostics, -, hcode⟩ := order_of_declarations hnames hperm
  refine ⟨hnames, hperm, hdiagnostics, by decide +kernel, _, _, rfl, rfl, ?_, by decide +kernel⟩
  exact (hcode "demo").2 _ _ rfl rfl

end PZero
