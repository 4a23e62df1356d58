import PZero.Proofs.Lowering.Code
import PZero.Proofs.Machine.Statics

/-! # What a module is made of

The routines of a module are the initializer, one for each function and the entry
routine. Unless a function has the name of the initializer, their names are
distinct, so that looking a name up finds the routine that has it. The fields are
the global names with their initial values.
-/
namespace PZero.Lowering
open Bytecode Rules Machine

theorem bindAll_grows {slots slots' : Slots} {names : List String}
    (h : bindAll slots names = .ok slots') : slots.Grows slots' := by
  induction names generalizing slots with
  | nil =>
    cases h
    exact .refl _
  | cons name names ih =>
    simp only [bindAll, bind_eq_ok, Prod.exists] at h
    obtain ⟨slot, between, hb, h⟩ := h
    exact (Slots.bind_eq hb).2.2.2.2.trans (ih h)

theorem resultCode_some {owner : String} {slots : Slots} {base : Nat} {name : String}
    {e : Typed.Expr} {code : Code} (h : resultCode owner slots base name (some e) = .ok code) :
    ∃ c i, exprCode owner slots base e = .ok c ∧ returnCode name e.ty = .ok i ∧
      code = c ++ [i] := by
  simp only [resultCode, bind_eq_ok, pure_eq_ok] at h
  obtain ⟨c, hc, i, hi, rfl⟩ := h
  exact ⟨c, i, hc, hi, rfl⟩

theorem returnCode_typeOf {t : FieldType} {name : String} {i : Instruction}
    (h : returnCode name (typeOf t) = .ok i) :
    (t = .int ∨ t = .bool) ∧ i = .iret ∨ t = .float ∧ i = .fret := by
  cases t <;> simp only [returnCode, typeOf, Except.ok.injEq, reduceCtorEq] at h <;> simp [h]

theorem descriptor_of_functionType {G : Globals} {f : Typed.Function} {ts : List FieldType}
    {t : Option FieldType} (hf : FunctionType G f ts t) :
    descriptor (f.parameters.map (·.2)) (f.result.map (·.ty)) = .ok ⟨ts, t⟩ := by
  cases hf with
  | @intro name body result t L parameters _ hresult =>
    have hparameters : (parameters.map fun p => (p.1, typeOf p.2)).map (·.2) =
        (parameters.map (·.2)).map typeOf := by simp
    have hresult : result.map (·.ty) = t.map typeOf := by
      cases hresult with
      | none => rfl
      | some he => exact congrArg some he.ty_eq
    rw [hparameters, hresult, descriptor_typeOf]

theorem functionRoutine_eq {G : Globals} {owner : String} {f : Typed.Function} {r : Routine}
    {ts : List FieldType} {t : Option FieldType} (hf : FunctionType G f ts t)
    (h : functionRoutine owner f = .ok r) :
    ∃ slots body slots' tail, bindAll (Slots.start 0) (f.parameters.map (·.1)) = .ok slots ∧
      stmtsCode owner slots 0 f.body = .ok (body, slots') ∧
      resultCode owner slots' body.length f.name f.result = .ok tail ∧
      r = ⟨f.name, ⟨ts, t⟩, slots'.maxLocals, (body ++ tail).toArray⟩ := by
  simp only [functionRoutine, bind_eq_ok, pure_eq_ok, Prod.exists] at h
  obtain ⟨slots, hslots, body, slots', hbody, tail, htail, d, hd, rfl⟩ := h
  rw [descriptor_of_functionType hf] at hd
  cases hd
  exact ⟨slots, body, slots', tail, hslots, hbody, htail, rfl⟩

theorem entryRoutine_eq {owner : String} {statement : Typed.Stmt} {r : Routine}
    (h : entryRoutine owner statement = .ok r) :
    ∃ code slots, stmtCode owner (Slots.start 1) 0 statement = .ok (code, slots) ∧
      r = ⟨"main", .void, slots.maxLocals, (code ++ [Instruction.ret]).toArray⟩ := by
  simp only [entryRoutine, bind_eq_ok, pure_eq_ok, Prod.exists] at h
  obtain ⟨code, slots, hcode, rfl⟩ := h
  exact ⟨code, slots, hcode, rfl⟩

theorem forall₂_of_mapM {ε α β : Type} {f : α → Except ε β} {l : List α} {l' : List β}
    (h : l.mapM f = .ok l') : List.Forall₂ (fun a b => f a = .ok b) l l' := by
  induction l generalizing l' with
  | nil =>
    cases h
    exact .nil
  | cons a l ih =>
    simp only [List.mapM_cons, bind_eq_ok, pure_eq_ok] at h
    obtain ⟨b, hb, bs, hbs, rfl⟩ := h
    exact .cons hb (ih hbs)

theorem compile_eq {p : Typed.Program} {name : String} {m : Module}
    (h : compile p name = .ok m) :
    ∃ routines entry, List.Forall₂ (fun f r => functionRoutine name f = .ok r) (functions p) routines ∧
      entryRoutine name p.statement = .ok entry ∧
      m = ⟨name, fields p, initializer :: routines ++ [entry]⟩ := by
  simp only [compile, bind_eq_ok, pure_eq_ok] at h
  obtain ⟨routines, hr, entry, he, rfl⟩ := h
  exact ⟨routines, entry, forall₂_of_mapM hr, he, rfl⟩

theorem mem_functions {p : Typed.Program} {f : Typed.Function} :
    f ∈ functions p ↔ .function f ∈ p.declarations := by
  simp only [functions, List.mem_filterMap]
  constructor
  · rintro ⟨d, hd, hf⟩
    cases d with
    | global => cases hf
    | function f' =>
      cases hf
      exact hd
  · exact fun hf => ⟨_, hf, rfl⟩

theorem mem_fields {p : Typed.Program} {field : Field} :
    field ∈ fields p ↔ ∃ access name v, .global access name v ∈ p.declarations ∧
      field = fieldOf access name v := by
  simp only [fields, List.mem_filterMap]
  constructor
  · rintro ⟨d, hd, hf⟩
    cases d with
    | function => cases hf
    | global access name v =>
      cases hf
      exact ⟨access, name, v, hd, rfl⟩
  · rintro ⟨access, name, v, hd, rfl⟩
    exact ⟨_, hd, rfl⟩

theorem functions_sublist (p : Typed.Program) :
    ((functions p).map (·.name)).Sublist (p.declarations.map (·.name)) := by
  obtain ⟨ds, statement⟩ := p
  induction ds with
  | nil => exact .slnil
  | cons d ds ih =>
    cases d with
    | global => exact ih.cons _
    | function f => exact ih.cons_cons _

theorem fields_sublist (p : Typed.Program) :
    ((fields p).map (·.name)).Sublist (p.declarations.map (·.name)) := by
  obtain ⟨ds, statement⟩ := p
  induction ds with
  | nil => exact .slnil
  | cons d ds ih =>
    cases d with
    | global => exact ih.cons_cons _
    | function f => exact ih.cons _

section
variable {G : Globals} {p : Typed.Program} {name : String} {m : Module}

theorem functionRoutine_name {owner : String} {f : Typed.Function} {r : Routine}
    (h : functionRoutine owner f = .ok r) : r.name = f.name := by
  simp only [functionRoutine, bind_eq_ok, pure_eq_ok, Prod.exists] at h
  obtain ⟨_, _, _, _, _, _, _, _, _, rfl⟩ := h
  rfl

theorem map_name_of_functionRoutine {owner : String} {fs : List Typed.Function}
    {rs : List Routine} (h : List.Forall₂ (fun f r => functionRoutine owner f = .ok r) fs rs) :
    rs.map (·.name) = fs.map (·.name) := by
  induction h with
  | nil => rfl
  | cons h _ ih => rw [List.map_cons, List.map_cons, functionRoutine_name h, ih]

/-- After the initializer no two routines have one name. -/
theorem exists_tail (hp : ProgramType G p) (hc : compile p name = .ok m) :
    ∃ rest, m.routines = initializer :: rest ∧ (rest.map (·.name)).Nodup ∧
      ∀ n, n ∈ rest.map (·.name) ↔ n = "main" ∨ ∃ f, .function f ∈ p.declarations ∧ f.name = n := by
  obtain ⟨routines, entry, hr, he, rfl⟩ := compile_eq hc
  obtain ⟨_, _, _, rfl⟩ := entryRoutine_eq he
  refine ⟨routines ++ [_], rfl, ?_, fun n => ?_⟩
  · rw [List.map_append, map_name_of_functionRoutine hr, List.nodup_append]
    refine ⟨hp.nodup.sublist (functions_sublist p), List.nodup_singleton _, ?_⟩
    rintro n hn _ hmain rfl
    obtain ⟨f, hf, rfl⟩ := List.mem_map.mp hn
    exact hp.ne_main _ (mem_functions.mp hf) (List.mem_singleton.mp hmain)
  · rw [List.map_append, map_name_of_functionRoutine hr, List.mem_append, or_comm]
    simp only [List.map_cons, List.map_nil, List.mem_singleton, List.mem_map, mem_functions]

/-- Only a function named like the initializer makes a name occur twice. -/
theorem nodup_routines_iff (hp : ProgramType G p) (hc : compile p name = .ok m) :
    (m.routines.map (·.name)).Nodup ↔ ∀ f, .function f ∈ p.declarations → f.name ≠ "<init>" := by
  obtain ⟨rest, hm, hrest, hmem⟩ := exists_tail hp hc
  have hinit : initializer.name ∈ rest.map (·.name) ↔
      ∃ f, .function f ∈ p.declarations ∧ f.name = "<init>" := by
    rw [hmem]
    exact or_iff_right (by decide)
  rw [hm, List.map_cons, List.nodup_cons, hinit, and_iff_left hrest]
  push Not
  rfl

theorem nodup_routines (hp : ProgramType G p) (hc : compile p name = .ok m)
    (hinit : ∀ f, .function f ∈ p.declarations → f.name ≠ "<init>") :
    (m.routines.map (·.name)).Nodup :=
  (nodup_routines_iff hp hc).mpr hinit

theorem compile_name (hc : compile p name = .ok m) : m.name = name := by
  obtain ⟨_, _, _, _, rfl⟩ := compile_eq hc
  rfl

theorem compile_fields (hc : compile p name = .ok m) : m.fields = fields p := by
  obtain ⟨_, _, _, _, rfl⟩ := compile_eq hc
  rfl

theorem nodup_fields (hp : ProgramType G p) (hc : compile p name = .ok m) :
    (m.fields.map (·.name)).Nodup := by
  rw [compile_fields hc]
  exact hp.nodup.sublist (fields_sublist p)

/-- Among routines with distinct names a search finds the one that has the name. -/
theorem find?_reverse_of_nodup {routines : List Routine} (h : (routines.map (·.name)).Nodup)
    {r : Routine} (hr : r ∈ routines) : routines.reverse.find? (·.name == r.name) = some r := by
  cases hfind : routines.reverse.find? (·.name == r.name) with
  | none => simpa using List.find?_eq_none.mp hfind r (List.mem_reverse.mpr hr)
  | some r' =>
    have hmem := List.mem_reverse.mp (List.mem_of_find?_eq_some hfind)
    have hname : r'.name = r.name := by simpa using List.find?_some hfind
    exact congrArg some (List.inj_on_of_nodup_map h hmem hr hname)

/-- Among routines with distinct names it does not matter from which end they are searched. -/
theorem find?_reverse_eq {routines : List Routine} (h : (routines.map (·.name)).Nodup)
    (n : String) : routines.reverse.find? (·.name == n) = routines.find? (·.name == n) := by
  cases hfind : routines.find? (·.name == n) with
  | none =>
    rw [List.find?_eq_none] at hfind ⊢
    exact fun r hr => hfind r (List.mem_reverse.mp hr)
  | some r =>
    obtain rfl : r.name = n := by simpa using List.find?_some hfind
    exact find?_reverse_of_nodup h (List.mem_of_find?_eq_some hfind)

theorem routine?_eq_some_iff (h : (m.routines.map (·.name)).Nodup) {n : String} {r : Routine} :
    routine? m n = some r ↔ r ∈ m.routines ∧ r.name = n := by
  constructor
  · intro hr
    exact ⟨mem_of_routine? hr, by simpa using List.find?_some hr⟩
  · rintro ⟨hr, rfl⟩
    exact find?_reverse_of_nodup h hr

theorem exists_functionRoutine (hc : compile p name = .ok m) {f : Typed.Function}
    (hf : .function f ∈ p.declarations) :
    ∃ r ∈ m.routines, functionRoutine name f = .ok r := by
  obtain ⟨routines, entry, hr, _, rfl⟩ := compile_eq hc
  obtain ⟨r, hmem, hr⟩ := exists_of_forall₂ hr (mem_functions.mpr hf)
  exact ⟨r, by simp [hmem], hr⟩

theorem routine_cases (hc : compile p name = .ok m) {r : Routine} (hr : r ∈ m.routines) :
    r = initializer ∨ entryRoutine name p.statement = .ok r ∨
      ∃ f, .function f ∈ p.declarations ∧ functionRoutine name f = .ok r := by
  obtain ⟨routines, entry, hforall, he, rfl⟩ := compile_eq hc
  simp only [List.cons_append, List.mem_cons, List.mem_append, List.not_mem_nil, or_false] at hr
  rcases hr with rfl | hr | rfl
  · exact .inl rfl
  · obtain ⟨f, hf, h⟩ := exists_of_forall₂ hforall.flip hr
    exact .inr (.inr ⟨f, mem_functions.mp hf, h⟩)
  · exact .inr (.inl he)

theorem routine?_initializer (hc : compile p name = .ok m)
    (hnames : (m.routines.map (·.name)).Nodup) : routine? m "<init>" = some initializer := by
  obtain ⟨_, _, _, _, rfl⟩ := compile_eq hc
  exact (routine?_eq_some_iff hnames).mpr ⟨by simp, rfl⟩

/-- The entry routine is the last one, so that it is found whatever the others are called. -/
theorem routine?_entry (hc : compile p name = .ok m) :
    ∃ r, entryRoutine name p.statement = .ok r ∧ routine? m "main" = some r := by
  obtain ⟨routines, r, -, he, rfl⟩ := compile_eq hc
  refine ⟨r, he, ?_⟩
  obtain ⟨_, _, _, rfl⟩ := entryRoutine_eq he
  simp [routine?]

/-- The routine of a function is found even if the function has the name of the initializer, which
comes first. -/
theorem routine?_function (hp : ProgramType G p) (hc : compile p name = .ok m)
    {f : Typed.Function} (hf : .function f ∈ p.declarations) :
    ∃ r, functionRoutine name f = .ok r ∧ routine? m f.name = some r := by
  obtain ⟨routines, entry, hr, he, rfl⟩ := compile_eq hc
  obtain ⟨r, hmem, hfr⟩ := exists_of_forall₂ hr (mem_functions.mpr hf)
  have hnames : (routines.map (·.name)).Nodup := by
    rw [map_name_of_functionRoutine hr]
    exact hp.nodup.sublist (functions_sublist p)
  have hname : r.name = f.name := functionRoutine_name hfr
  have hmain : (entry.name == f.name) = false := by
    obtain ⟨_, _, _, rfl⟩ := entryRoutine_eq he
    have hne : f.name ≠ "main" := hp.ne_main _ hf
    simpa using hne.symm
  have hfind := find?_reverse_of_nodup hnames hmem
  rw [hname] at hfind
  refine ⟨r, hfr, ?_⟩
  simp only [routine?, List.cons_append, List.reverse_cons, List.reverse_append, List.reverse_nil,
    List.nil_append, List.find?_cons, hmain, List.find?_append, hfind, Option.some_or]

end

/-- The initializer returns at once. -/
theorem run_initializer (c : Setting) (s : Store) (fuel : Nat) :
    Config.run c (fuel + 1) ⟨Frame.enter initializer [], [], s⟩ =
      some (match c.options.exceeded? (s.steps + 1) with
        | some limit => .error (.stepLimitExceeded limit)
        | none => .ok none, { s with steps := s.steps + 1 }) := by
  simp only [Config.run, Config.step]
  cases c.options.exceeded? (s.steps + 1) <;> rfl

/-! ## Programs and their modules -/

/-- A module and the program that it was made from. -/
structure Linked (G : Globals) (p : Typed.Program) (owner : String) (m : Module) : Prop where
  program : ProgramType G p
  compiled : compile p owner = .ok m
  ne_init : ∀ f, .function f ∈ p.declarations → f.name ≠ "<init>"
  size : ∀ r ∈ m.routines, r.code.size < 2 ^ 32

section
variable {G : Globals} {p : Typed.Program} {owner : String} {m : Module}

theorem Linked.routine?_eq_some (hl : Linked G p owner m) {r : Routine} (hr : r ∈ m.routines) :
    routine? m r.name = some r :=
  (routine?_eq_some_iff (nodup_routines hl.program hl.compiled hl.ne_init)).mpr ⟨hr, rfl⟩

theorem Linked.module_name (hl : Linked G p owner m) : m.name = owner :=
  compile_name hl.compiled

theorem Linked.entry (hl : Linked G p owner m) :
    ∃ r ∈ m.routines, entryRoutine owner p.statement = .ok r ∧ routine? m "main" = some r := by
  obtain ⟨routines, r, hr, he, hm⟩ := compile_eq hl.compiled
  have hmem : r ∈ m.routines := by simp [hm]
  have hname : r.name = "main" := by
    obtain ⟨_, _, _, rfl⟩ := entryRoutine_eq he
    rfl
  exact ⟨r, hmem, he, hname ▸ hl.routine?_eq_some hmem⟩

theorem Linked.function (hl : Linked G p owner m) {f : Typed.Function}
    (hf : .function f ∈ p.declarations) :
    ∃ r ∈ m.routines, functionRoutine owner f = .ok r ∧ routine? m f.name = some r := by
  obtain ⟨r, hmem, hr⟩ := exists_functionRoutine hl.compiled hf
  exact ⟨r, hmem, hr, functionRoutine_name hr ▸ hl.routine?_eq_some hmem⟩

theorem Linked.routine?_initializer (hl : Linked G p owner m) :
    routine? m "<init>" = some initializer :=
  Lowering.routine?_initializer hl.compiled (nodup_routines hl.program hl.compiled hl.ne_init)

end

/-- The program has a function of the name. -/
def DeclaresFunction (p : Surface.Program) (name : String) : Prop :=
  ∃ i parameters body result, .function i parameters body result ∈ p.declarations ∧ i.name = name

theorem declaresFunction_of_hasDecl {G : Globals} {ds : List Surface.Decl} {ds' : List Typed.Decl}
    (h : List.Forall₂ (HasDecl G) ds ds') {f : Typed.Function} (hf : .function f ∈ ds') :
    ∃ i parameters body result, .function i parameters body result ∈ ds ∧ i.name = f.name := by
  obtain ⟨d, hd, hdecl⟩ := exists_of_forall₂ h.flip hf
  cases hdecl with
  | function => exact ⟨_, _, _, _, hd, rfl⟩

theorem declaresFunction_of_mem {p : Surface.Program} {t : Typed.Program} (h : WellFormed p t)
    {f : Typed.Function} (hf : .function f ∈ t.declarations) : DeclaresFunction p f.name := by
  cases h with
  | withoutEntry _ _ hds => exact declaresFunction_of_hasDecl hds hf
  | withEntry _ _ _ _ hds =>
    obtain ⟨i, parameters, body, result, hd, hname⟩ := declaresFunction_of_hasDecl hds hf
    refine ⟨i, parameters, body, result, ?_, hname⟩
    simp only [List.mem_append, List.mem_cons] at hd ⊢
    exact hd.imp id .inr

theorem exists_function_of_hasDecl {G : Globals} {ds : List Surface.Decl} {ds' : List Typed.Decl}
    (h : List.Forall₂ (HasDecl G) ds ds') {i : Surface.Identifier}
    {parameters : List (Surface.Identifier × Surface.TypeName)} {body : List Surface.Stmt}
    {result : Option (Surface.TypeName × Surface.Expr)}
    (hd : .function i parameters body result ∈ ds) :
    ∃ f, .function f ∈ ds' ∧ f.name = i.name := by
  obtain ⟨d, hd', hdecl⟩ := exists_of_forall₂ h hd
  cases hdecl with
  | function => exact ⟨_, hd', rfl⟩

/-- Every function but the entry function has a typed form. -/
theorem declaresFunction_iff {p : Surface.Program} {t : Typed.Program} (h : WellFormed p t)
    {name : String} (hname : name ≠ "main") :
    DeclaresFunction p name ↔ ∃ f, .function f ∈ t.declarations ∧ f.name = name := by
  constructor
  · rintro ⟨i, parameters, body, result, hd, rfl⟩
    cases h with
    | withoutEntry _ _ hds => exact exists_function_of_hasDecl hds hd
    | withEntry hmain _ _ _ hds =>
      simp only [List.mem_append, List.mem_cons] at hd
      rcases hd with hd | hd | hd
      · exact exists_function_of_hasDecl hds (List.mem_append_left _ hd)
      · cases hd
        exact (hname hmain).elim
      · exact exists_function_of_hasDecl hds (List.mem_append_right _ hd)
  · rintro ⟨f, hf, rfl⟩
    exact declaresFunction_of_mem h hf

theorem mapError_eq_ok {ε ε' α : Type} {f : ε → ε'} {x : Except ε α} {a : α} :
    x.mapError f = .ok a ↔ x = .ok a := by
  cases x <;> simp [Except.mapError]

/-- An accepted program has a typed form that its module was made from. -/
theorem exists_compiled {p : Surface.Program} {name : String} {m : Module}
    (h : Compiler.compile p name = .ok m) :
    ∃ t G, Compiler.analyse p = .ok t ∧ WellFormed p t ∧ ProgramType G t ∧
      compile t name = .ok m := by
  simp only [Compiler.compile, bind_eq_ok, Compiler.lower, mapError_eq_ok] at h
  obtain ⟨t, ht, hm⟩ := h
  have hw : WellFormed p t := checked_iff.mp (check_eq_ok.mp (mapError_eq_ok.mp ht))
  obtain ⟨G, hG⟩ := hw.programType
  exact ⟨t, G, ht, hw, hG, hm⟩

theorem exists_linked {p : Surface.Program} {name : String} {m : Module}
    (h : Compiler.compile p name = .ok m) (hinit : ¬ DeclaresFunction p "<init>")
    (hsize : ∀ r ∈ m.routines, r.code.size < 2 ^ 32) :
    ∃ t G, Compiler.analyse p = .ok t ∧ Linked G t name m := by
  obtain ⟨t, G, ht, hw, hG, hm⟩ := exists_compiled h
  exact ⟨t, G, ht, hG, hm, fun f hf heq => hinit (heq ▸ declaresFunction_of_mem hw hf), hsize⟩

end PZero.Lowering
