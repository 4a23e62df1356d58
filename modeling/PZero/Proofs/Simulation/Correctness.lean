import PZero.Proofs.Simulation.Program

/-! # Correctness of the compiler

A program ends in the reference semantics just when its module does so on every
machine with enough room, and with the same output. What a machine without enough
room, or with a sink that refuses a text, does otherwise is to stop at a limit.
-/
namespace PZero.Simulation
open Bytecode Machine Rules Lowering
open Typed (Literal)
open Reference (World Ending Ends)

/-! ## The start -/

section
variable {G : Globals} {p : Typed.Program} {owner : String} {m : Module}

theorem lookup_global (hp : ProgramType G p) (hc : Lowering.compile p owner = .ok m) (o : Options)
    {access : Access} {name : String} {v : Literal} (hv : .global access name v ∈ p.declarations) :
    (ofModule m o).statics.lookup name = some (encode v) := by
  have hmem : fieldOf access name v ∈ m.fields :=
    compile_fields hc ▸ mem_fields.mpr ⟨access, name, v, hv, rfl⟩
  exact lookup_statics (nodup_fields hp hc) o hmem

theorem globals_initial (hp : ProgramType G p) {access : Access} {name : String} {v : Literal}
    (hv : .global access name v ∈ p.declarations) : (World.initial p).globals name = some v := by
  refine findSome?_eq_of_unique hv (by simp) ?_
  intro d hd v' hd'
  cases d with
  | function => cases hd'
  | global access' x u =>
    simp only [Option.ite_none_right_eq_some, Option.some.injEq] at hd'
    obtain ⟨rfl, rfl⟩ := hd'
    exact (Typed.Decl.global.inj (List.inj_on_of_nodup_map hp.nodup hd hv rfl)).2.2

/-- Global names start with the values of the fields. -/
theorem holds_initial (hp : ProgramType G p) (hc : Lowering.compile p owner = .ok m) (o : Options)
    (steps : Nat) : Holds G (World.initial p) { statics := (ofModule m o).statics, steps } := by
  refine ⟨rfl, ?_⟩
  intro name access t h
  obtain ⟨v, hv, ht⟩ := hp.value h
  exact ⟨v, ht, globals_initial hp hv, lookup_global hp hc o hv⟩

/-! ## Runs of the entry routine -/

/-- The result of a run that ended in the given way. -/
def Matches : Ending → Except Machine.Error (Option Value) → Prop
  | .normal, result => result = .ok none
  | .divisionByZero, result =>
    ∃ routine pc, result = .error (.fault routine pc .divisionByZero)

theorem Matches.not_limited {ending : Ending} {result : Except Machine.Error (Option Value)}
    (h : Matches ending result) : ¬ Limited result := by
  cases ending with
  | normal => exact h ▸ id
  | divisionByZero =>
    obtain ⟨_, _, rfl⟩ := h
    exact id

theorem Matches.unique {ending ending' : Ending} {result : Except Machine.Error (Option Value)}
    (h : Matches ending result) (h' : Matches ending' result) : ending = ending' := by
  cases ending with
  | normal =>
    cases h
    cases ending' with
    | normal => rfl
    | divisionByZero => obtain ⟨_, _, h'⟩ := h'; cases h'
  | divisionByZero =>
    obtain ⟨_, _, rfl⟩ := h
    cases ending' with
    | normal => cases h'
    | divisionByZero => rfl

/-- The entry routine after the initializer ran. -/
def start (m : Module) (o : Options) (entry : Routine) : Config :=
  { frame := Frame.enter entry [.unit], store := { statics := (ofModule m o).statics, steps := 1 } }

/-- With enough room the entry routine ends like the program, and runs on as long as it does. -/
theorem run_entry (hl : Linked G p owner m) {c : Setting} (hc : Generous c)
    (hm : c.module = m) {k : Nat} (hdepth : k + 1 < c.options.maxCallDepth) {entry : Routine}
    (he : entryRoutine owner p.statement = .ok entry) (hsize : entry.code.size < 2 ^ 32)
    (o : Options) :
    Reference.call p (k + 1) "main" [] (.initial p) ≠ .stuck ∧
    match (Reference.call p (k + 1) "main" [] (.initial p)).ending? with
    | some (ending, output) => ∃ fuel result s,
        Config.run c fuel (start m o entry) = some (result, s) ∧ Matches ending result ∧
        s.output = output
    | none => Config.run c (k + 1) (start m o entry) = none := by
  obtain ⟨L, hs⟩ := hl.program.statement
  have hp : Place c (k + 1) G owner entry [] (Reference.call p k) :=
    ⟨hc, hsize, hm ▸ hl.module_name, invokes_call hl hc hm k [] (by simpa using hdepth)⟩
  have hsim := entry_simulates (w := .initial p) hs he hp (size_enter entry [.unit]) _
    ⟨0, _, rfl, holds_initial hl.program hl.compiled o 1⟩
  have hcall : Reference.call p (k + 1) "main" [] (.initial p) =
      (Reference.stmt (Reference.call p k) (k + 1) p.statement [] (.initial p)).bind
        fun _ w => .done none w := by
    rw [Reference.call]
    rfl
  rw [hcall]
  generalize (Reference.stmt (Reference.call p k) (k + 1) p.statement [] (.initial p)).bind
    (fun _ w => .done (none : Option Literal) w) = outcome at hsim
  cases outcome with
  | done v w =>
    obtain ⟨cfg, ⟨steps, hreach⟩, rfl, hleaving⟩ := hsim
    obtain ⟨s, hs, hstep⟩ := step_leaving hc hleaving
    refine ⟨by simp, 1 + steps, .ok none, s, ?_, rfl, hs.output⟩
    refine (hreach 1).trans ?_
    rw [Config.run, hstep]
    rfl
  | divisionByZero w =>
    obtain ⟨fuel, routine, pc, s, hrun, ho⟩ := hsim
    exact ⟨by simp, 0 + fuel, _, s, hrun 0, ⟨routine, pc, rfl⟩, ho⟩
  | timeout => exact ⟨by simp, hsim⟩
  | stuck => exact hsim.elim

/-! ## Runs of the machine -/

/-- A sink that takes every text and the final flush. -/
structure Accepts (sink : Sink) : Prop where
  text : ∀ before text, sink.refuses before text = none
  flush : sink.refusesFlush = none

/-- The report on a run of the entry routine. -/
def reportOf (m : Module) (o : Options) (x : Except Machine.Error (Option Value) × Store) :
    Report :=
  { result := x.1, output := x.2.output,
    machine := { ofModule m o with state := .running, statics := x.2.statics, steps := x.2.steps } }

theorem runEntry_eq (hl : Linked G p owner m) {entry : Routine}
    (hentry : routine? m "main" = some entry) {o : Options} (ho : o.exceeded? 1 = none)
    (sink : Sink) (fuel : Nat) :
    { ofModule m o with state := .running }.runEntry sink (fuel + 1) =
      (Config.run ⟨m, o, sink⟩ (fuel + 1) (start m o entry)).map (reportOf m o) := by
  simp only [Machine.runEntry, Machine.execute, Machine.call, ofModule, Machine.initializer,
    Machine.entryRoutine, hl.routine?_initializer, run_initializer, Nat.zero_add, ho, hentry,
    Option.map_some, Option.bind_eq_bind, Option.bind_some]
  rfl

/-- A run of the machine that meets no limit is one of the entry routine. -/
theorem run_cases (hl : Linked G p owner m) {entry : Routine}
    (hentry : routine? m "main" = some entry) {o : Options} {sink : Sink} {fuel : Nat}
    {report : Report} (h : (ofModule m o).run sink fuel = some report) :
    Limited report.result ∨ ∃ s,
      Config.run ⟨m, o, sink⟩ fuel (start m o entry) = some (report.result, s) ∧
      report.output = s.output := by
  simp only [Machine.run, Option.bind_eq_bind, Option.bind_eq_some_iff] at h
  obtain ⟨first, hfirst, h⟩ := h
  cases hflush : sink.refusesFlush with
  | some message =>
    rw [hflush] at h
    cases h
    exact .inl trivial
  | none =>
    rw [hflush] at h
    cases h
    cases fuel with
    | zero =>
      simp [Machine.runEntry, Machine.execute, ofModule, Machine.initializer, hl.routine?_initializer,
        Config.run] at hfirst
    | succ fuel =>
      cases ho : o.exceeded? 1 with
      | some limit =>
        simp only [Machine.runEntry, Machine.execute, ofModule, Machine.initializer,
          hl.routine?_initializer, run_initializer, Nat.zero_add, ho, Option.map_some, Option.bind_eq_bind,
          Option.bind_some] at hfirst
        cases hfirst
        exact .inl trivial
      | none =>
        rw [runEntry_eq hl hentry ho, Option.map_eq_some_iff] at hfirst
        obtain ⟨x, hx, rfl⟩ := hfirst
        exact .inr ⟨x.2, hx, rfl⟩

theorem run_of_entry (hl : Linked G p owner m) {entry : Routine}
    (hentry : routine? m "main" = some entry) {o : Options} (ho : o.exceeded? 1 = none)
    {sink : Sink} (hsink : sink.refusesFlush = none) {fuel : Nat} (hfuel : 0 < fuel)
    {result : Except Machine.Error (Option Value)} {s : Store}
    (h : Config.run ⟨m, o, sink⟩ fuel (start m o entry) = some (result, s)) :
    ∃ report, (ofModule m o).run sink fuel = some report ∧ report.result = result ∧
      report.output = s.output := by
  obtain ⟨fuel, rfl⟩ := Nat.exists_eq_succ_of_ne_zero (Nat.ne_of_gt hfuel)
  simp only [Machine.run, runEntry_eq hl hentry ho, h, hsink]
  exact ⟨_, rfl, rfl, rfl⟩

end

/-! ## Correctness -/

/-- The options allow for so many active routines and instructions. -/
structure HasRoom (bound : Nat) (o : Options) : Prop where
  maxCallDepth : bound ≤ o.maxCallDepth
  stepLimit : ∀ limit, o.stepLimit = some limit → bound ≤ limit

theorem run_unique {c : Setting} {fuel fuel' : Nat} {cfg : Config}
    {x y : Except Machine.Error (Option Value) × Store} (hx : Config.run c fuel cfg = some x)
    (hy : Config.run c fuel' cfg = some y) : x = y := by
  have hx' := run_le hx (Nat.le_max_left fuel fuel')
  have hy' := run_le hy (Nat.le_max_right fuel fuel')
  rw [hx'] at hy'
  exact Option.some.inj hy'

section
variable {G : Globals} {t : Typed.Program} {owner : String} {m : Module}

/-- What the reference semantics does, every machine with enough room does. -/
theorem exists_report_of_ends (hl : Linked G t owner m) {ending : Ending} {output : String}
    (h : Ends t ending output) :
    ∃ bound, ∀ options sink fuel, HasRoom bound options → Accepts sink → bound ≤ fuel →
      ∃ report, (ofModule m options).run sink fuel = some report ∧
        Matches ending report.result ∧ report.output = output := by
  obtain ⟨k, hk⟩ := h
  obtain ⟨entry, hmem, he, hentry⟩ := hl.entry
  cases k with
  | zero => cases hk
  | succ k =>
    -- the narrowest setting in which the entry routine is known to end
    have hc : Generous ⟨m, { maxCallDepth := k + 2 }, {}⟩ := ⟨rfl, fun _ _ => rfl⟩
    have hrun := (run_entry hl hc rfl (Nat.lt_succ_self (k + 1)) he (hl.size entry hmem) {}).2
    rw [hk] at hrun
    obtain ⟨fuel, result, s, hrun, hmatches, ho⟩ := hrun
    refine ⟨k + 2 + (1 + fuel), fun options sink fuel' hroom haccepts hfuel => ?_⟩
    have hdepth := hroom.maxCallDepth
    have hwidens : Widens ⟨m, { maxCallDepth := k + 2 }, {}⟩ ⟨m, options, sink⟩ (1 + fuel) :=
      ⟨rfl, by simp only; omega, fun limit hlimit => by have := hroom.stepLimit limit hlimit; omega,
        haccepts.text⟩
    have hwide : Config.run ⟨m, options, sink⟩ fuel (start m {} entry) = some (result, s) :=
      run_transfer hwidens hrun hmatches.not_limited
    have hexceeded : options.exceeded? 1 = none :=
      exceeded?_eq_none fun limit hlimit => by have := hroom.stepLimit limit hlimit; omega
    have hpositive : 0 < fuel' := by omega
    obtain ⟨report, hreport, hresult, houtput⟩ := run_of_entry hl hentry hexceeded haccepts.flush
      hpositive (run_le hwide (by omega))
    exact ⟨report, hreport, hresult ▸ hmatches, houtput.trans ho⟩

/-- What a machine does without meeting a limit, the reference semantics does. -/
theorem ends_of_run (hl : Linked G t owner m) {options : Options} {sink : Sink} {fuel : Nat}
    {report : Report} (h : (ofModule m options).run sink fuel = some report) :
    Limited report.result ∨
      ∃ ending, Matches ending report.result ∧ Ends t ending report.output := by
  obtain ⟨entry, hmem, he, hentry⟩ := hl.entry
  rcases run_cases hl hentry h with hlimited | ⟨s, hrun, houtput⟩
  · exact .inl hlimited
  · by_cases hlimited : Limited report.result
    · exact .inl hlimited
    · right
      have hc : Generous ⟨m, { maxCallDepth := options.maxCallDepth + fuel + 2 }, {}⟩ :=
        ⟨rfl, fun _ _ => rfl⟩
      have hwidens : Widens ⟨m, options, sink⟩
          ⟨m, { maxCallDepth := options.maxCallDepth + fuel + 2 }, {}⟩ (1 + fuel) :=
        ⟨rfl, by simp only; omega, nofun, fun _ _ => rfl⟩
      have hwide : Config.run ⟨m, { maxCallDepth := options.maxCallDepth + fuel + 2 }, {}⟩ fuel
          (start m options entry) = some (report.result, s) := run_transfer hwidens hrun hlimited
      have hentry := (run_entry hl (k := fuel) hc rfl (by simp only; omega) he
        (hl.size entry hmem) options).2
      cases hend : (Reference.call t (fuel + 1) "main" [] (.initial t)).ending? with
      | none =>
        rw [hend] at hentry
        have hlong : Config.run _ (fuel + 1) (start m options entry) = none := hentry
        rw [run_succ hwide] at hlong
        cases hlong
      | some x =>
        obtain ⟨ending, output⟩ := x
        rw [hend] at hentry
        obtain ⟨fuel', result, s', hrun', hmatches, ho⟩ := hentry
        cases run_unique hwide hrun'
        refine ⟨ending, hmatches, fuel + 1, ?_⟩
        rw [hend, houtput, ho]

end

/-- Correctness of the compiler. An accepted program without a function named like the initializer
never gets stuck; it ends with some output just when every machine with enough room ends in the same
way with the same output; no machine ends in another way, except at a limit; and it runs for ever
just when every machine stops at a limit if it stops at all. -/
theorem run_iff_ends {p : Surface.Program} {name : String} {m : Module}
    (hcompile : Compiler.compile p name = .ok m) (hinit : ¬ DeclaresFunction p "<init>")
    (hsize : ∀ r ∈ m.routines, r.code.size < 2 ^ 32) :
    ∃ t, Compiler.analyse p = .ok t ∧
      (∀ fuel, Reference.call t fuel "main" [] (.initial t) ≠ .stuck) ∧
      (∀ ending output, Ends t ending output ↔
        ∃ bound, ∀ options sink fuel, HasRoom bound options → Accepts sink → bound ≤ fuel →
          ∃ report, (ofModule m options).run sink fuel = some report ∧
            Matches ending report.result ∧ report.output = output) ∧
      (∀ options sink fuel report, (ofModule m options).run sink fuel = some report →
        Limited report.result ∨
          ∃ ending, Matches ending report.result ∧ Ends t ending report.output) ∧
      ((∀ ending output, ¬ Ends t ending output) ↔ ∀ options sink fuel report,
        (ofModule m options).run sink fuel = some report → Limited report.result) := by
  obtain ⟨t, G, ht, hl⟩ := exists_linked hcompile hinit hsize
  refine ⟨t, ht, ?_, ?_, fun _ _ _ _ h => ends_of_run hl h, ?_⟩
  · intro fuel
    cases fuel with
    | zero => exact nofun
    | succ k =>
      obtain ⟨entry, hmem, he, -⟩ := hl.entry
      have hc : Generous ⟨m, { maxCallDepth := k + 2 }, {}⟩ := ⟨rfl, fun _ _ => rfl⟩
      exact (run_entry hl hc rfl (Nat.lt_succ_self (k + 1)) he (hl.size entry hmem) {}).1
  · intro ending output
    refine ⟨exists_report_of_ends hl, ?_⟩
    rintro ⟨bound, hbound⟩
    obtain ⟨report, hreport, hmatches, rfl⟩ := hbound { maxCallDepth := bound } {} bound
      ⟨Nat.le_refl bound, nofun⟩ ⟨fun _ _ => rfl, rfl⟩ (Nat.le_refl bound)
    rcases ends_of_run hl hreport with hlimited | ⟨ending', hmatches', hends⟩
    · exact (hmatches.not_limited hlimited).elim
    · exact hmatches.unique hmatches' ▸ hends
  · constructor
    · intro hnever options sink fuel report hreport
      rcases ends_of_run hl hreport with hlimited | ⟨ending, -, hends⟩
      · exact hlimited
      · exact (hnever _ _ hends).elim
    · intro hlimited ending output hends
      obtain ⟨bound, hbound⟩ := exists_report_of_ends hl hends
      obtain ⟨report, hreport, hmatches, -⟩ := hbound { maxCallDepth := bound } {} bound
        ⟨Nat.le_refl bound, nofun⟩ ⟨fun _ _ => rfl, rfl⟩ (Nat.le_refl bound)
      exact hmatches.not_limited (hlimited _ _ _ _ hreport)

/-- Counts a global name down to zero with a function, printing it, and then divides by it. -/
def countdown : Surface.Program where
  declarations :=
    [.global .readWrite ⟨"n", {}⟩ (.value (.int "3" {})),
      .function ⟨"below", {}⟩ [(⟨"n", {}⟩, .int)] []
        (some (.int, .binary .minus (.name ⟨"n", {}⟩) (.literal (.int "1" {})))),
      .function ⟨"main", {}⟩ []
        [.whileDo (.binary .greaterThan (.name ⟨"n", {}⟩) (.literal (.int "0" {})))
          (.block
            [.declare .readOnly ⟨"m", {}⟩ (.call ⟨"below", {}⟩ [.name ⟨"n", {}⟩] {}),
              .call ⟨"print", {}⟩ [.name ⟨"n", {}⟩], .assign ⟨"n", {}⟩ (.name ⟨"m", {}⟩)]),
          .call ⟨"print", {}⟩ [.binary .divide (.literal (.int "7" {})) (.name ⟨"n", {}⟩)]]
        none]

theorem run_iff_ends_countdown :
    ∃ m, Compiler.compile countdown "demo" = .ok m ∧ ¬ DeclaresFunction countdown "<init>" ∧
      (∀ r ∈ m.routines, r.code.size < 2 ^ 32) ∧
      ∃ bound, ∀ options sink fuel, HasRoom bound options → Accepts sink → bound ≤ fuel →
        ∃ report, (ofModule m options).run sink fuel = some report ∧
          Matches .divisionByZero report.result ∧ report.output = "321" := by
  have hinit : ¬ DeclaresFunction countdown "<init>" := by
    rintro ⟨i, parameters, body, result, hmem, hname⟩
    simp [countdown] at hmem
    rcases hmem with h | h <;> simp [h.1] at hname
  refine ⟨_, rfl, hinit, by decide, ?_⟩
  obtain ⟨t, ht, -, hiff, -⟩ := @run_iff_ends countdown "demo" _ rfl hinit (by decide)
  refine (hiff _ _).mp ?_
  obtain rfl := Except.ok.inj ((rfl : Compiler.analyse countdown = .ok _).symm.trans ht)
  exact ⟨6, rfl⟩

end PZero.Simulation
