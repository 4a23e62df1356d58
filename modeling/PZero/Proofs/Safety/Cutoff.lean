import PZero.Proofs.Safety.History

/-! # Limits only cut a run short

The same operation is done on two machines that differ in their limits. As long as the
narrower limits are not met, both take the same steps. So an operation that ends
within its limits ends in the same way under wider ones, and one that is cut short has
printed the beginning of what it prints under wider ones, in no more steps.
-/
namespace PZero.Machine
open Bytecode

/-- The second options allow for whatever the first ones do; no step limit is the widest. -/
structure Options.Within (o o' : Options) : Prop where
  maxCallDepth : o.maxCallDepth ≤ o'.maxCallDepth
  stepLimit : ∀ limit', o'.stepLimit = some limit' → ∃ limit ≤ limit', o.stepLimit = some limit

def Setting.withOptions (c : Setting) (o : Options) : Setting := { c with options := o }

def withOptions (machine : Machine) (o : Options) : Machine := { machine with options := o }

def Report.withOptions (report : Report) (o : Options) : Report :=
  { report with machine := report.machine.withOptions o }

/-! ## Steps -/

section
variable {c : Setting} {o : Options}

theorem exceeded?_of_within {o' : Options} (h : o.Within o') {steps : Nat}
    (hsteps : o.exceeded? steps = none) : o'.exceeded? steps = none := by
  unfold Options.exceeded? at hsteps ⊢
  cases hlimit' : o'.stepLimit with
  | none => rfl
  | some limit' =>
    obtain ⟨limit, hle, hlimit⟩ := h.stepLimit limit' hlimit'
    simp only [hlimit, Option.bind_some, ite_eq_right_iff, reduceCtorEq, imp_false] at hsteps ⊢
    omega

theorem perform_withOptions (f : Frame) (s : Store) (i : Instruction) :
    perform (c.withOptions o) f s i = perform c f s i := by
  cases i <;> rfl

/-- An attempt fails at the step limit or is the same under wider options. -/
theorem attempt_withOptions (h : c.options.Within o) (frame : Frame) (store : Store) :
    (∃ limit, attempt c frame store = (.error (.stepLimitExceeded limit), store.counted)) ∨
      attempt (c.withOptions o) frame store = attempt c frame store := by
  unfold attempt
  cases hlimit : c.options.exceeded? (store.steps + 1) with
  | some limit =>
    simp only [hlimit]
    exact .inl ⟨limit, rfl⟩
  | none =>
    have hlimit' : (c.withOptions o).options.exceeded? (store.steps + 1) = none :=
      exceeded?_of_within h hlimit
    simp only [hlimit, hlimit', perform_withOptions, or_true]

/-- A step meets a limit or is the same under wider options. -/
theorem step_withOptions (h : c.options.Within o) (config : Config) :
    (∃ e, config.step c = .failed e config.store.counted ∧ e.IsBudget) ∨
      config.step (c.withOptions o) = config.step c := by
  obtain ⟨frame, callers, store⟩ := config
  rw [step_eq_attempt, step_eq_attempt]
  rcases attempt_withOptions h frame store with ⟨limit, hattempt⟩ | hattempt
  · rw [hattempt]
    exact .inl ⟨_, rfl, trivial⟩
  · have hcounted := attempt_snd c frame store
    rw [hattempt]
    generalize attempt c frame store = x at hcounted
    obtain ⟨outcome, s⟩ := x
    obtain rfl : s = store.counted := hcounted
    cases outcome with
    | error e => exact .inr rfl
    | ok flow =>
      cases flow with
      | next f s' => exact .inr rfl
      | leave result => exact .inr rfl
      | call r arguments f =>
        by_cases hdepth : c.options.maxCallDepth ≤ callers.length + 1
        · simp only [Config.proceed, if_pos hdepth]
          exact .inl ⟨_, rfl, trivial⟩
        · have hdepth' : ¬ (c.withOptions o).options.maxCallDepth ≤ callers.length + 1 := by
            have hle : c.options.maxCallDepth ≤ (c.withOptions o).options.maxCallDepth :=
              h.maxCallDepth
            omega
          simp only [Config.proceed, if_neg hdepth, if_neg hdepth', or_true]

/-! ## Runs -/

variable {fuel : Nat} {config : Config} {result : Except Error (Option Value)} {s : Store}

theorem run_same (h : c.options.Within o) (hrun : Config.run c fuel config = some (result, s))
    (hw : WithinBudget result) : Config.run (c.withOptions o) fuel config = some (result, s) := by
  induction fuel generalizing config with
  | zero => cases hrun
  | succ fuel ih =>
    rw [Config.run] at hrun ⊢
    rcases step_withOptions h config with ⟨e, hstep, he⟩ | hstep
    · rw [hstep] at hrun
      cases hrun
      exact (hw e rfl he).elim
    · rw [hstep]
      cases hs : config.step c with
      | running next =>
        rw [hs] at hrun
        exact ih hrun
      | finished result' s' => rwa [hs] at hrun
      | failed e s' => rwa [hs] at hrun

/-- Both runs go the same way until the first one is cut short, and the other one goes on from
there. -/
theorem run_cut (h : c.options.Within o) (hrun : Config.run c fuel config = some (result, s))
    {fuel' : Nat} {result' : Except Error (Option Value)} {s' : Store}
    (hrun' : Config.run (c.withOptions o) fuel' config = some (result', s'))
    (hcut : ¬ WithinBudget result) : s.Extends s' := by
  -- By induction on the fuel of the first run: the second one keeps step with it, and from the
  -- configuration where the first one meets a limit nothing is withdrawn any more.
  induction fuel generalizing config fuel' with
  | zero => cases hrun
  | succ fuel ih =>
    cases fuel' with
    | zero => cases hrun'
    | succ fuel' =>
      rcases step_withOptions h config with ⟨e, hstep, -⟩ | hstep
      · rw [Config.run, hstep] at hrun
        cases hrun
        exact run_extends hrun'
      · rw [Config.run] at hrun hrun'
        rw [hstep] at hrun'
        cases hs : config.step c with
        | running next =>
          rw [hs] at hrun hrun'
          exact ih hrun hrun'
        | finished v s'' =>
          rw [hs] at hrun
          cases hrun
          exact (hcut (.ok v)).elim
        | failed e s'' =>
          rw [hs] at hrun hrun'
          cases hrun
          cases hrun'
          exact .refl _

end

/-! ## Operations -/

/-- Whatever was printed and counted in the first report is so in the second one. -/
structure Report.Precedes (report report' : Report) : Prop where
  output : ∃ text, report'.output = report.output ++ text
  steps : report.machine.steps ≤ report'.machine.steps

theorem Report.Precedes.follow {report first report' : Report} (h : report.Precedes first)
    (h' : report'.Follows first.machine first.output) : report.Precedes report' := by
  obtain ⟨text, ht⟩ := h.output
  obtain ⟨text', ht'⟩ := h'.output
  exact ⟨⟨text ++ text', by rw [ht', ht, String.append_assoc]⟩, Nat.le_trans h.steps h'.steps⟩

section
variable {machine : Machine} {o : Options} {sink : Sink} {fuel : Nat} {report : Report}

theorem execute_same (ho : machine.options.Within o) {r : Routine} {arguments : List Value}
    {output : String} (h : machine.execute sink fuel r arguments output = some report)
    (hw : WithinBudget report.result) :
    (machine.withOptions o).execute sink fuel r arguments output = some (report.withOptions o) := by
  obtain ⟨⟨result, s⟩, hrun, rfl⟩ := Option.map_eq_some_iff.mp h
  have hrun' := run_same (c := ⟨machine.module, machine.options, sink⟩) ho hrun hw
  exact Option.map_eq_some_iff.mpr ⟨(result, s), hrun', rfl⟩

theorem execute_cut (ho : machine.options.Within o) {r : Routine} {arguments : List Value}
    {output : String} (h : machine.execute sink fuel r arguments output = some report)
    {fuel' : Nat} {report' : Report}
    (h' : (machine.withOptions o).execute sink fuel' r arguments output = some report')
    (hcut : ¬ WithinBudget report.result) : report.Precedes report' := by
  obtain ⟨⟨result, s⟩, hrun, rfl⟩ := Option.map_eq_some_iff.mp h
  obtain ⟨⟨result', s'⟩, hrun', rfl⟩ := Option.map_eq_some_iff.mp h'
  have hextends := run_cut (c := ⟨machine.module, machine.options, sink⟩) ho hrun hrun' hcut
  exact ⟨hextends.output, hextends.steps⟩

theorem execute_unique {r : Routine} {arguments : List Value} {output : String}
    (h : machine.execute sink fuel r arguments output = some report) {fuel' : Nat}
    {report' : Report} (h' : machine.execute sink fuel' r arguments output = some report') :
    report' = report := by
  obtain ⟨x, hrun, rfl⟩ := Option.map_eq_some_iff.mp h
  obtain ⟨x', hrun', rfl⟩ := Option.map_eq_some_iff.mp h'
  have hx := run_le hrun (Nat.le_max_left fuel fuel')
  have hx' := run_le hrun' (Nat.le_max_right fuel fuel')
  obtain rfl : x' = x := Option.some.inj (hx'.symm.trans hx)
  rfl

theorem executeNamed_same (ho : machine.options.Within o) {name : String}
    {arguments : List Value} {output : String} {otherwise : Except Error (Option Value)}
    (h : machine.executeNamed sink fuel name arguments output otherwise = some report)
    (hw : WithinBudget report.result) :
    (machine.withOptions o).executeNamed sink fuel name arguments output otherwise =
      some (report.withOptions o) := by
  obtain ⟨r, hr, hexecute⟩ | ⟨hr, rfl⟩ := executeNamed_cases h
  · have hr' : routine? (machine.withOptions o).module name = some r := hr
    rw [executeNamed_some hr']
    exact execute_same ho hexecute hw
  · have hr' : routine? (machine.withOptions o).module name = none := hr
    exact executeNamed_none hr' _ _ _

theorem executeNamed_cut (ho : machine.options.Within o) {name : String}
    {arguments : List Value} {output : String} {otherwise : Except Error (Option Value)}
    (h : machine.executeNamed sink fuel name arguments output otherwise = some report)
    {fuel' : Nat} {report' : Report}
    (h' : (machine.withOptions o).executeNamed sink fuel' name arguments output otherwise =
      some report') (hcut : ¬ WithinBudget report.result) : report.Precedes report' := by
  obtain ⟨r, hr, hexecute⟩ | ⟨hr, rfl⟩ := executeNamed_cases h
  · have hr' : routine? (machine.withOptions o).module name = some r := hr
    rw [executeNamed_some hr'] at h'
    exact execute_cut ho hexecute h' hcut
  · have hr' : routine? (machine.withOptions o).module name = none := hr
    rw [executeNamed_none hr'] at h'
    cases h'
    exact ⟨⟨"", by simp⟩, Nat.le_refl _⟩

theorem executeNamed_unique {name : String} {arguments : List Value} {output : String}
    {otherwise : Except Error (Option Value)}
    (h : machine.executeNamed sink fuel name arguments output otherwise = some report)
    {fuel' : Nat} {report' : Report}
    (h' : machine.executeNamed sink fuel' name arguments output otherwise = some report') :
    report' = report := by
  obtain ⟨r, hr, hexecute⟩ | ⟨hr, rfl⟩ := executeNamed_cases h
  · rw [executeNamed_some hr] at h'
    exact execute_unique hexecute h'
  · rw [executeNamed_none hr] at h'
    exact (Option.some.inj h').symm

theorem runEntry_same (ho : machine.options.Within o)
    (h : machine.runEntry sink fuel = some report) (hw : WithinBudget report.result) :
    (machine.withOptions o).runEntry sink fuel = some (report.withOptions o) := by
  rw [runEntry_eq_bind] at h ⊢
  obtain ⟨first, hfirst, hrest⟩ := Option.bind_eq_some_iff.mp h
  cases hresult : first.result with
  | error e =>
    rw [Report.andThenEntry, hresult] at hrest
    cases hrest
    have hfirst' := executeNamed_same ho hfirst hw
    refine Option.bind_eq_some_iff.mpr ⟨_, hfirst', ?_⟩
    simp only [Report.andThenEntry, Report.withOptions, hresult]
  | ok v =>
    rw [Report.andThenEntry, hresult] at hrest
    have hfirst' := executeNamed_same ho hfirst (hresult ▸ .ok v)
    have ho' : first.machine.options.Within o := (executeNamed_follows hfirst).options ▸ ho
    refine Option.bind_eq_some_iff.mpr ⟨_, hfirst', ?_⟩
    simp only [Report.andThenEntry, Report.withOptions, hresult]
    exact executeNamed_same ho' hrest hw

theorem runEntry_cut (ho : machine.options.Within o)
    (h : machine.runEntry sink fuel = some report) {fuel' : Nat} {report' : Report}
    (h' : (machine.withOptions o).runEntry sink fuel' = some report')
    (hcut : ¬ WithinBudget report.result) : report.Precedes report' := by
  rw [runEntry_eq_bind] at h h'
  obtain ⟨first, hfirst, hrest⟩ := Option.bind_eq_some_iff.mp h
  obtain ⟨first', hfirst', hrest'⟩ := Option.bind_eq_some_iff.mp h'
  cases hresult : first.result with
  | error e =>
    -- The initializer was cut short, and under the wider options there is more of it.
    rw [Report.andThenEntry, hresult] at hrest
    cases hrest
    exact (executeNamed_cut ho hfirst hfirst' hcut).follow (andThenEntry_follows hrest')
  | ok v =>
    -- The initializer returned, and does so under the wider options.
    have hsame := executeNamed_same ho hfirst (hresult ▸ .ok v)
    obtain rfl : first' = first.withOptions o := executeNamed_unique hsame hfirst'
    have ho' : first.machine.options.Within o := (executeNamed_follows hfirst).options ▸ ho
    rw [Report.andThenEntry, hresult] at hrest
    simp only [Report.andThenEntry, Report.withOptions, hresult] at hrest'
    exact executeNamed_cut ho' hrest hrest' hcut

theorem run_same_flushed (ho : machine.options.Within o) (hflush : sink.refusesFlush = none)
    (h : machine.run sink fuel = some report) (hw : WithinBudget report.result) :
    (machine.withOptions o).run sink fuel = some (report.withOptions o) := by
  obtain ⟨inner, hinner, rfl⟩ := exists_flushed_of_run h
  rw [flushed_of_accepted hflush] at hw ⊢
  have ho' : { machine with state := .running }.options.Within o := ho
  rw [run_eq_flushed]
  refine Option.map_eq_some_iff.mpr ⟨_, runEntry_same ho' hinner hw, ?_⟩
  rw [flushed_of_accepted hflush]
  rfl

theorem run_cut_flushed (ho : machine.options.Within o) (hflush : sink.refusesFlush = none)
    (h : machine.run sink fuel = some report) {fuel' : Nat} {report' : Report}
    (h' : (machine.withOptions o).run sink fuel' = some report')
    (hcut : ¬ WithinBudget report.result) : report.Precedes report' := by
  obtain ⟨inner, hinner, rfl⟩ := exists_flushed_of_run h
  obtain ⟨inner', hinner', rfl⟩ := exists_flushed_of_run h'
  rw [flushed_of_accepted hflush] at hcut
  have ho' : { machine with state := .running }.options.Within o := ho
  have hprecedes := runEntry_cut ho' hinner hinner' hcut
  rw [flushed_of_accepted hflush, flushed_of_accepted hflush]
  exact ⟨hprecedes.output, hprecedes.steps⟩

end

end PZero.Machine

namespace PZero.Safety
open Bytecode Machine

/-- The same operation with another amount of fuel. -/
def Operation.withFuel (fuel : Nat) : Operation → Operation
  | run sink _ => run sink fuel
  | call name arguments sink _ => call name arguments sink fuel

/-- Limits only cut an operation short. Do the same operation on two fresh machines of one module,
the second with wider limits, into a sink that takes the flush. If it ends within the first limits,
it has the same report under the second ones: the same result and output, and a machine that differs
in its options only. If it meets one of the first limits, what it has printed by then is the
beginning of what it prints under the second ones, if it returns there at all, and it takes no more
steps. -/
theorem apply_of_within {o o' : Options} (ho : o.Within o') (m : Module) {operation : Operation}
    (hflush : operation.Flushes) {report : Report}
    (h : operation.apply (ofModule m o) = some report) :
    (WithinBudget report.result →
      operation.apply (ofModule m o') = some (report.withOptions o')) ∧
    (¬ WithinBudget report.result → ∀ fuel' report',
      (operation.withFuel fuel').apply (ofModule m o') = some report' →
        (∃ text, report'.output = report.output ++ text) ∧
        report.machine.steps ≤ report'.machine.steps) := by
  cases operation with
  | run sink fuel =>
    refine ⟨run_same_flushed ho hflush h, fun hcut fuel' report' h' => ?_⟩
    have hprecedes := run_cut_flushed ho hflush h h' hcut
    exact ⟨hprecedes.output, hprecedes.steps⟩
  | call name arguments sink fuel =>
    refine ⟨executeNamed_same ho h, fun hcut fuel' report' h' => ?_⟩
    have hprecedes := executeNamed_cut ho h h' hcut
    exact ⟨hprecedes.output, hprecedes.steps⟩

/-- The entry routine prints a letter and calls itself. -/
def echoing : Module where
  name := "demo"
  fields := []
  routines :=
    [⟨"one", ⟨[], some .int⟩, 0, #[.iconst 1, .iret]⟩,
      ⟨"main", .void, 1, #[.getStdout, .sconst "x", .print .string,
        .invoke ⟨"demo", "main", .void⟩, .ret]⟩]

def narrow : Options := { maxCallDepth := 2, stepLimit := some 50 }

def wide : Options := { maxCallDepth := 3 }

/-- A run that is cut short at its second activation, and a call that is not. -/
theorem apply_of_within_echoing :
    narrow.Within wide ∧
    (∃ report report', (Operation.run {} 20).apply (ofModule echoing narrow) = some report ∧
      report.result = .error (.callDepthExceeded 2) ∧
      (Operation.run {} 20).apply (ofModule echoing wide) = some report' ∧
      (∃ text, report'.output = report.output ++ text) ∧
      report.machine.steps ≤ report'.machine.steps) ∧
    ∃ report, (Operation.call "one" [] {} 20).apply (ofModule echoing narrow) = some report ∧
      report.result = .ok (some (.int 1)) ∧
      (Operation.call "one" [] {} 20).apply (ofModule echoing wide) =
        some (report.withOptions wide) := by
  have ho : narrow.Within wide := ⟨by decide, fun _ h => nomatch h⟩
  refine ⟨ho, ?_, ?_⟩
  · have hrun : ((Operation.run {} 20).apply (ofModule echoing narrow)).map (·.result) =
        some (.error (.callDepthExceeded 2)) := by decide +kernel
    have hreturns : ((Operation.run {} 20).apply (ofModule echoing wide)).isSome := by
      decide +kernel
    obtain ⟨report, h, hresult⟩ := Option.map_eq_some_iff.mp hrun
    obtain ⟨report', h'⟩ := Option.isSome_iff_exists.mp hreturns
    have hflush : (Operation.run {} 20).Flushes := rfl
    have hcut : ¬ WithinBudget report.result := fun hw => hw _ hresult trivial
    have hbegins := (apply_of_within ho echoing hflush h).2 hcut 20 report' h'
    exact ⟨report, report', h, hresult, h', hbegins⟩
  · have hcall : ((Operation.call "one" [] {} 20).apply (ofModule echoing narrow)).map (·.result) =
        some (.ok (some (.int 1))) := by decide +kernel
    obtain ⟨report, h, hresult⟩ := Option.map_eq_some_iff.mp hcall
    have hflush : (Operation.call "one" [] {} 20).Flushes := trivial
    have hw : WithinBudget report.result := hresult ▸ .ok _
    exact ⟨report, h, hresult, (apply_of_within ho echoing hflush h).1 hw⟩

end PZero.Safety
