import PZero.Proofs.Machine.Instructions
import PZero.Proofs.Machine.Statics
import PZero.Proofs.Safety.History

/-! # The step limit is a budget for the life of a machine

The number of steps is kept from one operation to the next. So under a step limit every
operation returns, all operations together carry out no more instructions than the limit
allows, and once the limit was exceeded every later operation fails at once.

To speak of what operations carry out, the routines that they carry out from their start
are listed here together with the instructions of each.
-/
namespace PZero.Machine
open Bytecode

/-! ## The routines that an operation carries out -/

/-- A routine that was carried out from its start: the instructions, those of the routines that it
called among them, and the report. -/
structure Execution where
  instructions : List Instruction
  report : Report

/-- The configuration from which a routine is carried out. -/
def launch (machine : Machine) (r : Routine) (arguments : List Value) (output : String) : Config :=
  { frame := Frame.enter r arguments
    store := { statics := machine.statics, steps := machine.steps, output } }

def execution? (machine : Machine) (sink : Sink) (fuel : Nat) (r : Routine)
    (arguments : List Value) (output : String) : Option Execution :=
  (machine.execute sink fuel r arguments output).map fun report =>
    { instructions := Config.instructions ⟨machine.module, machine.options, sink⟩ fuel
        (machine.launch r arguments output)
      report }

/-- At most one: the routine of the name, if there is one. -/
def executionsNamed (machine : Machine) (sink : Sink) (fuel : Nat) (name : String)
    (arguments : List Value) (output : String) : List Execution :=
  match routine? machine.module name with
  | some r => (machine.execution? sink fuel r arguments output).toList
  | none => []

/-- The initializer, and unless it fails the entry routine. -/
def entryExecutions (machine : Machine) (sink : Sink) (fuel : Nat) : List Execution :=
  machine.executionsNamed sink fuel initializer [] "" ++
    match machine.prepare sink fuel with
    | some ⟨.ok _, output, next⟩ => next.executionsNamed sink fuel entryRoutine [.unit] output
    | some ⟨.error _, _, _⟩ | none => []

/-- The instructions of several executions in a row. -/
def carriedOut (executions : List Execution) : List Instruction :=
  executions.flatMap (·.instructions)

/-- How many executions exceeded the step limit. -/
def exceedings (executions : List Execution) : Nat := executions.countP (ranOut ·.report.result)

theorem carriedOut_append (executions executions' : List Execution) :
    carriedOut (executions ++ executions') = carriedOut executions ++ carriedOut executions' :=
  List.flatMap_append

theorem exceedings_append (executions executions' : List Execution) :
    exceedings (executions ++ executions') = exceedings executions + exceedings executions' :=
  List.countP_append

theorem exceedings_singleton (e : Execution) : exceedings [e] = (ranOut e.report.result).toNat := by
  unfold exceedings
  rw [List.countP_singleton]
  cases ranOut e.report.result <;> rfl

/-! ## One operation -/

/-- What a machine that has taken so many steps did within the limit. Every step carried an
instruction out, but for one in each execution at most. -/
structure Accounted (limit : Nat) (executions : List Execution) (steps : Nat) : Prop where
  within : (carriedOut executions).length ≤ limit
  counted : (carriedOut executions).length ≤ steps
  besides : steps ≤ (carriedOut executions).length + executions.length
  exceeded : steps ≤ limit + exceedings executions

section
variable {machine : Machine} {sink : Sink} {fuel limit : Nat} {report : Report}
  {executions : List Execution} {arguments : List Value} {output : String}

theorem Accounted.snoc {steps : Nat} (h : Accounted limit executions steps) {e : Execution}
    (he : Spends limit steps e.instructions e.report.result e.report.machine.steps) :
    Accounted limit (executions ++ [e]) e.report.machine.steps := by
  obtain ⟨hwithin, hcounted, hbesides, hexceeded⟩ := h
  obtain ⟨hleft, hcounted', hbesides', hstops⟩ := he
  have hinstructions : (carriedOut (executions ++ [e])).length =
      (carriedOut executions).length + e.instructions.length := by
    rw [carriedOut_append, List.length_append]
    simp [carriedOut]
  have hlength : (executions ++ [e]).length = executions.length + 1 := by simp
  have hexceedings : exceedings (executions ++ [e]) =
      exceedings executions + (ranOut e.report.result).toNat := by
    rw [exceedings_append, exceedings_singleton]
  exact ⟨by omega, by omega, by omega, by omega⟩

theorem execution?_spends (hl : machine.options.stepLimit = some limit) {r : Routine}
    {e : Execution} (he : machine.execution? sink fuel r arguments output = some e) :
    Spends limit machine.steps e.instructions e.report.result e.report.machine.steps := by
  obtain ⟨report, hexecute, rfl⟩ := Option.map_eq_some_iff.mp he
  obtain ⟨⟨result, s⟩, hrun, rfl⟩ := Option.map_eq_some_iff.mp hexecute
  exact run_spends (c := ⟨machine.module, machine.options, sink⟩) hl hrun

/-- What is done for a name is listed for it. -/
theorem executionsNamed_cases {name : String} {otherwise : Except Error (Option Value)}
    (h : machine.executeNamed sink fuel name arguments output otherwise = some report) :
    (∃ r e, machine.execution? sink fuel r arguments output = some e ∧
      machine.executionsNamed sink fuel name arguments output = [e] ∧ e.report = report) ∨
    (machine.executionsNamed sink fuel name arguments output = [] ∧
      report = ⟨otherwise, output, machine⟩) := by
  obtain ⟨r, hr, hexecute⟩ | ⟨hr, rfl⟩ := executeNamed_cases h
  · refine .inl ⟨r, _, Option.map_eq_some_iff.mpr ⟨report, hexecute, rfl⟩, ?_, rfl⟩
    simp only [executionsNamed, hr, execution?, hexecute, Option.map_some, Option.toList_some]
  · refine .inr ⟨?_, rfl⟩
    simp only [executionsNamed, hr]

theorem executeNamed_accounted (hl : machine.options.stepLimit = some limit) {name : String}
    {otherwise : Except Error (Option Value)}
    (hr : machine.executeNamed sink fuel name arguments output otherwise = some report)
    (h : Accounted limit executions machine.steps) :
    Accounted limit (executions ++ machine.executionsNamed sink fuel name arguments output)
      report.machine.steps := by
  rcases executionsNamed_cases hr with ⟨r, e, he, hlist, rfl⟩ | ⟨hlist, rfl⟩
  · rw [hlist]
    exact h.snoc (execution?_spends hl he)
  · rw [hlist, List.append_nil]
    exact h

theorem runEntry_accounted (hl : machine.options.stepLimit = some limit)
    (hr : machine.runEntry sink fuel = some report) (h : Accounted limit executions machine.steps) :
    Accounted limit (executions ++ machine.entryExecutions sink fuel) report.machine.steps := by
  rw [runEntry_eq_bind] at hr
  obtain ⟨first, hfirst, hrest⟩ := Option.bind_eq_some_iff.mp hr
  have hprepared := executeNamed_accounted hl hfirst h
  have hl' : first.machine.options.stepLimit = some limit :=
    (executeNamed_follows hfirst).options ▸ hl
  obtain ⟨result, printed, next⟩ := first
  rw [entryExecutions, hfirst]
  cases result with
  | error e =>
    cases hrest
    rw [List.append_nil]
    exact hprepared
  | ok v =>
    rw [← List.append_assoc]
    exact executeNamed_accounted hl' hrest hprepared

/-- Of the executions for one name the limit stops one at most, and none that has a result. -/
theorem exceedings_executionsNamed {name : String} {otherwise : Except Error (Option Value)}
    (h : machine.executeNamed sink fuel name arguments output otherwise = some report) :
    exceedings (machine.executionsNamed sink fuel name arguments output) ≤
      (ranOut report.result).toNat := by
  rcases executionsNamed_cases h with ⟨r, e, -, hlist, rfl⟩ | ⟨hlist, rfl⟩
  · rw [hlist, exceedings_singleton]
  · rw [hlist]
    exact Nat.zero_le _

theorem exceedings_entryExecutions (h : machine.runEntry sink fuel = some report) :
    exceedings (machine.entryExecutions sink fuel) ≤ 1 := by
  rw [runEntry_eq_bind] at h
  obtain ⟨first, hfirst, hrest⟩ := Option.bind_eq_some_iff.mp h
  have hprepared := exceedings_executionsNamed hfirst
  obtain ⟨result, printed, next⟩ := first
  rw [entryExecutions, hfirst, exceedings_append]
  cases result with
  | error e => exact Nat.le_trans hprepared (Bool.toNat_le _)
  | ok v =>
    have hnone : exceedings (machine.executionsNamed sink fuel initializer [] "") = 0 :=
      Nat.le_zero.mp hprepared
    have hentry : exceedings (next.executionsNamed sink fuel entryRoutine [.unit] printed) ≤
        (ranOut report.result).toNat := exceedings_executionsNamed hrest
    -- The initializer had a result, so that only the entry routine can have met the limit.
    rw [hnone, Nat.zero_add]
    exact Nat.le_trans hentry (Bool.toNat_le _)

/-! ## Under a limit -/

theorem execute_returns (hl : machine.options.stepLimit = some limit) (hfuel : limit < fuel)
    (r : Routine) (arguments : List Value) (output : String) :
    ∃ report, machine.execute sink fuel r arguments output = some report := by
  have hleft : limit - (machine.launch r arguments output).store.steps < fuel := by omega
  obtain ⟨x, hrun⟩ := run_returns (c := ⟨machine.module, machine.options, sink⟩) hl hleft
  exact ⟨_, Option.map_eq_some_iff.mpr ⟨x, hrun, rfl⟩⟩

theorem executeNamed_returns (hl : machine.options.stepLimit = some limit) (hfuel : limit < fuel)
    (name : String) (arguments : List Value) (output : String)
    (otherwise : Except Error (Option Value)) :
    ∃ report, machine.executeNamed sink fuel name arguments output otherwise = some report := by
  cases hr : routine? machine.module name with
  | some r =>
    rw [executeNamed_some hr]
    exact execute_returns hl hfuel r arguments output
  | none => exact ⟨_, executeNamed_none hr arguments output otherwise⟩

theorem runEntry_returns (hl : machine.options.stepLimit = some limit) (hfuel : limit < fuel) :
    ∃ report, machine.runEntry sink fuel = some report := by
  have hprepare : ∃ first, machine.prepare sink fuel = some first :=
    executeNamed_returns hl hfuel _ _ _ _
  obtain ⟨first, hfirst⟩ := hprepare
  have hl' : first.machine.options.stepLimit = some limit :=
    (executeNamed_follows hfirst).options ▸ hl
  have hrest : ∃ report, first.andThenEntry sink fuel = some report := by
    unfold Report.andThenEntry
    cases first.result with
    | error e => exact ⟨first, rfl⟩
    | ok v => exact executeNamed_returns hl' hfuel _ _ _ _
  obtain ⟨report, hrest⟩ := hrest
  rw [runEntry_eq_bind]
  exact ⟨report, Option.bind_eq_some_iff.mpr ⟨first, hfirst, hrest⟩⟩

theorem executeNamed_exceeded (hl : machine.options.stepLimit = some limit) {name : String}
    {otherwise : Except Error (Option Value)} (hotherwise : ranOut otherwise = false)
    (h : machine.executeNamed sink fuel name arguments output otherwise = some report)
    (hout : ranOut report.result = true) : limit < report.machine.steps := by
  obtain ⟨r, -, hexecute⟩ | ⟨-, rfl⟩ := executeNamed_cases h
  · obtain ⟨⟨result, s⟩, hrun, rfl⟩ := Option.map_eq_some_iff.mp hexecute
    exact exceeded_of_run (c := ⟨machine.module, machine.options, sink⟩) hl hrun hout
  · exact absurd hout (by simp [hotherwise])

theorem runEntry_exceeded (hl : machine.options.stepLimit = some limit)
    (h : machine.runEntry sink fuel = some report) (hout : ranOut report.result = true) :
    limit < report.machine.steps := by
  rw [runEntry_eq_bind] at h
  obtain ⟨first, hfirst, hrest⟩ := Option.bind_eq_some_iff.mp h
  unfold Report.andThenEntry at hrest
  split at hrest
  · cases hrest
    exact executeNamed_exceeded hl rfl hfirst hout
  · have hl' : first.machine.options.stepLimit = some limit :=
      (executeNamed_follows hfirst).options ▸ hl
    exact executeNamed_exceeded hl' rfl hrest hout

/-! ## After the limit was exceeded -/

/-- The report on a routine that is not even begun. -/
def Report.exhausted (machine : Machine) (limit : Nat) (output : String) : Report :=
  ⟨.error (.stepLimitExceeded limit), output, { machine with steps := machine.steps + 1 }⟩

theorem executeNamed_exhausted (hl : machine.options.stepLimit = some limit)
    (h : limit ≤ machine.steps) {name : String} {r : Routine}
    (hr : routine? machine.module name = some r) {otherwise : Except Error (Option Value)}
    (he : machine.executeNamed sink fuel name arguments output otherwise = some report) :
    report = .exhausted machine limit output := by
  rw [executeNamed_some hr] at he
  obtain ⟨⟨result, s⟩, hrun, rfl⟩ := Option.map_eq_some_iff.mp he
  cases fuel with
  | zero => cases hrun
  | succ fuel =>
    have hsteps : limit ≤ (machine.launch r arguments output).store.steps := h
    have hrun' : Config.run ⟨machine.module, machine.options, sink⟩ (fuel + 1)
        (machine.launch r arguments output) = _ := run_exhausted hl hsteps
    cases hrun.symm.trans hrun'
    rfl

theorem executionsNamed_exhausted (hl : machine.options.stepLimit = some limit)
    (h : limit ≤ machine.steps) (name : String) (arguments : List Value) (output : String) :
    carriedOut (machine.executionsNamed sink fuel name arguments output) = [] := by
  have hnone : ∀ r, Config.instructions ⟨machine.module, machine.options, sink⟩ fuel
      (machine.launch r arguments output) = [] :=
    fun r => instructions_exhausted (c := ⟨machine.module, machine.options, sink⟩) hl h
  unfold executionsNamed
  cases routine? machine.module name with
  | none => rfl
  | some r =>
    simp only [execution?, hnone]
    cases machine.execute sink fuel r arguments output <;> rfl

theorem runEntry_exhausted (hl : machine.options.stepLimit = some limit) (h : limit ≤ machine.steps)
    {r : Routine} (hr : routine? machine.module initializer = some r ∨
      routine? machine.module entryRoutine = some r)
    (he : machine.runEntry sink fuel = some report) : report = .exhausted machine limit "" := by
  rw [runEntry_eq_bind] at he
  obtain ⟨first, hfirst, hrest⟩ := Option.bind_eq_some_iff.mp he
  cases hinit : routine? machine.module initializer with
  | some r' =>
    obtain rfl := executeNamed_exhausted hl h hinit hfirst
    cases hrest
    rfl
  | none =>
    have hentry : routine? machine.module entryRoutine = some r := by simpa [hinit] using hr
    rw [prepare, executeNamed_none hinit] at hfirst
    cases hfirst
    exact executeNamed_exhausted hl h hentry hrest

theorem entryExecutions_exhausted (hl : machine.options.stepLimit = some limit)
    (h : limit ≤ machine.steps) : carriedOut (machine.entryExecutions sink fuel) = [] := by
  rw [entryExecutions, carriedOut_append, executionsNamed_exhausted hl h, List.nil_append]
  cases hfirst : machine.prepare sink fuel with
  | none => rfl
  | some first =>
    have hfollows : first.Follows machine "" := executeNamed_follows hfirst
    obtain ⟨result, printed, next⟩ := first
    cases result with
    | error e => rfl
    | ok v =>
      have hl' : next.options.stepLimit = some limit := hfollows.options ▸ hl
      exact executionsNamed_exhausted hl' (Nat.le_trans h hfollows.steps) _ _ _

end

end PZero.Machine

namespace PZero.Safety
open Bytecode Machine

/-! ## Operations one after the other -/

namespace Operation

def fuel : Operation → Nat
  | run _ fuel => fuel
  | call _ _ _ fuel => fuel

/-- The routines that an operation carries out from their start. -/
def executions (machine : Machine) : Operation → List Execution
  | run sink fuel => { machine with state := .running }.entryExecutions sink fuel
  | call name arguments sink fuel => machine.executionsNamed sink fuel name arguments ""

/-- The module has a routine for the operation to begin with. -/
def Starts (m : Module) : Operation → Prop
  | run .. => ∃ r ∈ m.routines, r.name = initializer ∨ r.name = entryRoutine
  | call name .. => ∃ r ∈ m.routines, r.name = name

end Operation

def Entry.executions (entry : Entry) : List Execution := entry.operation.executions entry.before

/-- The operation carried no instruction out, printed nothing and changed no field, and failed at
the step limit as far as it could tell. -/
structure Entry.Idle (limit : Nat) (entry : Entry) : Prop where
  instructions : carriedOut entry.executions = []
  output : entry.report.output = ""
  statics : entry.report.machine.statics = entry.before.statics
  result : entry.operation.Flushes → entry.report.result = .error (.stepLimitExceeded limit)

section
variable {machine : Machine} {operation : Operation} {report : Report} {limit : Nat}

theorem apply_returns (hl : machine.options.stepLimit = some limit)
    (hfuel : limit < operation.fuel) : ∃ report, operation.apply machine = some report := by
  cases operation with
  | run sink fuel =>
    have hl' : { machine with state := .running }.options.stepLimit = some limit := hl
    have hentry : ∃ inner, { machine with state := .running }.runEntry sink fuel = some inner :=
      runEntry_returns hl' hfuel
    obtain ⟨inner, hinner⟩ := hentry
    rw [Operation.apply, run_eq_flushed]
    exact ⟨_, Option.map_eq_some_iff.mpr ⟨inner, hinner, rfl⟩⟩
  | call name arguments sink fuel => exact executeNamed_returns hl hfuel _ _ _ _

theorem apply_accounted (hl : machine.options.stepLimit = some limit)
    (h : operation.apply machine = some report) {executions : List Execution}
    (ha : Accounted limit executions machine.steps) :
    Accounted limit (executions ++ operation.executions machine) report.machine.steps := by
  cases operation with
  | run sink fuel =>
    obtain ⟨inner, hinner, rfl⟩ := exists_flushed_of_run h
    have hl' : { machine with state := .running }.options.stepLimit = some limit := hl
    rw [flushed_steps]
    exact runEntry_accounted hl' hinner ha
  | call name arguments sink fuel => exact executeNamed_accounted hl h ha

theorem apply_exceedings (h : operation.apply machine = some report) :
    exceedings (operation.executions machine) ≤ 1 := by
  cases operation with
  | run sink fuel =>
    obtain ⟨inner, hinner, -⟩ := exists_flushed_of_run h
    exact exceedings_entryExecutions hinner
  | call name arguments sink fuel =>
    exact Nat.le_trans (exceedings_executionsNamed h) (Bool.toNat_le _)

theorem apply_exceeded (hl : machine.options.stepLimit = some limit)
    (h : operation.apply machine = some report) (hout : ranOut report.result = true) :
    limit < report.machine.steps := by
  cases operation with
  | run sink fuel =>
    obtain ⟨inner, hinner, rfl⟩ := exists_flushed_of_run h
    have hl' : { machine with state := .running }.options.stepLimit = some limit := hl
    cases hflush : sink.refusesFlush with
    | some message =>
      rw [Report.flushed, hflush] at hout
      cases hout
    | none =>
      rw [flushed_of_accepted hflush] at hout
      rw [flushed_steps]
      exact runEntry_exceeded hl' hinner hout
  | call name arguments sink fuel => exact executeNamed_exceeded hl rfl h hout

theorem apply_idle (hl : machine.options.stepLimit = some limit) (hsteps : limit ≤ machine.steps)
    (hstarts : operation.Starts machine.module) (h : operation.apply machine = some report) :
    Entry.Idle limit ⟨machine, operation, report⟩ := by
  cases operation with
  | run sink fuel =>
    have hl' : { machine with state := .running }.options.stepLimit = some limit := hl
    obtain ⟨r, hr⟩ : ∃ r, routine? machine.module initializer = some r ∨
        routine? machine.module entryRoutine = some r := by
      obtain ⟨r, hr, hname | hname⟩ := hstarts
      · obtain ⟨r', hr'⟩ := exists_routine? ⟨r, hr, hname⟩
        exact ⟨r', .inl hr'⟩
      · obtain ⟨r', hr'⟩ := exists_routine? ⟨r, hr, hname⟩
        exact ⟨r', .inr hr'⟩
    obtain ⟨inner, hinner, rfl⟩ := exists_flushed_of_run h
    obtain rfl := runEntry_exhausted hl' hsteps hr hinner
    refine ⟨entryExecutions_exhausted hl' hsteps, flushed_output _ sink, flushed_statics _ sink,
      fun hflush => ?_⟩
    exact congrArg Report.result (flushed_of_accepted hflush _)
  | call name arguments sink fuel =>
    obtain ⟨r, hr⟩ := exists_routine? hstarts
    obtain rfl := executeNamed_exhausted hl hsteps hr h
    exact ⟨executionsNamed_exhausted hl hsteps _ _ _, rfl, rfl, fun _ => rfl⟩

end

/-- The machine after the operations of a log. -/
def after (machine : Machine) (entries : List Entry) : Machine :=
  entries.foldl (fun _ entry => entry.report.machine) machine

section
variable {limit : Nat}

/-- Under a step limit all operations return. -/
theorem log_operations {operations : List Operation} {machine : Machine}
    (hl : machine.options.stepLimit = some limit)
    (hfuel : ∀ operation ∈ operations, limit < operation.fuel) :
    (log machine operations).map (·.operation) = operations := by
  induction operations generalizing machine with
  | nil => rfl
  | cons operation rest ih =>
    obtain ⟨report, happly⟩ := apply_returns hl (hfuel operation (.head _))
    have hl' : report.machine.options.stepLimit = some limit := (apply_keeps happly).2.1 ▸ hl
    rw [log_cons happly, List.map_cons, ih hl' fun o ho => hfuel o (.tail _ ho)]

theorem log_accounted (operations : List Operation) {machine : Machine}
    (hl : machine.options.stepLimit = some limit) {executions : List Execution}
    (ha : Accounted limit executions machine.steps) :
    Accounted limit (executions ++ (log machine operations).flatMap Entry.executions)
      (after machine (log machine operations)).steps := by
  fun_induction log machine operations generalizing executions with
  | case1 machine => simpa [after] using ha
  | case2 machine operation rest happly => simpa [after] using ha
  | case3 machine operation rest report happly ih =>
    have hl' : report.machine.options.stepLimit = some limit := (apply_keeps happly).2.1 ▸ hl
    have hnext := ih hl' (apply_accounted hl happly ha)
    rw [List.flatMap_cons, ← List.append_assoc]
    exact hnext

/-- No machine of a log has taken more steps than the one after it. -/
theorem steps_le_after (operations : List Operation) (machine : Machine) :
    machine.steps ≤ (after machine (log machine operations)).steps ∧
      ∀ entry ∈ log machine operations,
        entry.report.machine.steps ≤ (after machine (log machine operations)).steps := by
  fun_induction log machine operations with
  | case1 machine => exact ⟨Nat.le_refl _, fun entry hmem => (List.not_mem_nil hmem).elim⟩
  | case2 machine operation rest happly => exact ⟨Nat.le_refl _, fun entry hmem => (List.not_mem_nil hmem).elim⟩
  | case3 machine operation rest report happly ih =>
    obtain ⟨hfirst, hrest⟩ := ih
    refine ⟨Nat.le_trans (apply_keeps happly).2.2 hfirst, fun entry hmem => ?_⟩
    rcases List.mem_cons.mp hmem with rfl | hmem
    · exact hfirst
    · exact hrest entry hmem

theorem exceedings_log (operations : List Operation) (machine : Machine) :
    exceedings ((log machine operations).flatMap Entry.executions) ≤ operations.length := by
  fun_induction log machine operations with
  | case1 machine => exact Nat.le_refl _
  | case2 machine operation rest happly => exact Nat.zero_le _
  | case3 machine operation rest report happly ih =>
    have hentry : exceedings (Entry.executions ⟨machine, operation, report⟩) ≤ 1 :=
      apply_exceedings happly
    rw [List.flatMap_cons, exceedings_append, List.length_cons]
    omega

/-- A machine that has used its steps up does nothing any more. -/
theorem log_idle {m : Module} {operations : List Operation} {machine : Machine}
    (hm : machine.module = m) (hl : machine.options.stepLimit = some limit)
    (hsteps : limit < machine.steps) :
    ∀ entry ∈ log machine operations, entry.operation.Starts m → entry.Idle limit := by
  refine forall_mem_log (I := fun machine => machine.module = m ∧
    machine.options.stepLimit = some limit ∧ limit < machine.steps) ?_ ⟨hm, hl, hsteps⟩
  rintro machine operation - report ⟨rfl, hl, hsteps⟩ happly
  obtain ⟨hmodule, hoptions, hle⟩ := apply_keeps happly
  refine ⟨fun hstarts => apply_idle hl (Nat.le_of_lt hsteps) hstarts happly, hmodule, ?_, ?_⟩
  · rw [hoptions]
    exact hl
  · omega

theorem log_pairwise_idle {m : Module} {operations : List Operation} {machine : Machine}
    (hm : machine.module = m) (hl : machine.options.stepLimit = some limit) :
    (log machine operations).Pairwise fun earlier later =>
      ranOut earlier.report.result = true → later.operation.Starts m → later.Idle limit := by
  fun_induction log machine operations with
  | case1 machine => exact .nil
  | case2 machine operation rest happly => exact .nil
  | case3 machine operation rest report happly ih =>
    obtain ⟨hmodule, hoptions, -⟩ := apply_keeps happly
    have hm' : report.machine.module = m := hmodule.trans hm
    have hl' : report.machine.options.stepLimit = some limit := hoptions ▸ hl
    refine .cons (fun later hlater hout => ?_) (ih hm' hl')
    exact log_idle hm' hl' (apply_exceeded hl happly hout) later hlater

end

/-- The step limit is a budget for the life of a machine. Whatever is done with a machine under a
step limit, each operation with fuel for more steps than that: every operation returns. All of them
together carry out no more instructions than the limit. The count of steps is at most the limit plus
the number of executions that exceeded it, of which each operation has one at most, and apart from
one step for each execution only instructions are counted. Once an operation has failed at the
limit, every later one that has a routine to begin with carries nothing out, prints nothing, changes
no field and, unless it is refused a flush, fails at the limit again. -/
theorem log_within_budget (m : Module) (maxCallDepth limit : Nat) (operations : List Operation)
    (hfuel : ∀ operation ∈ operations, limit < operation.fuel) :
    let entries := log (ofModule m { maxCallDepth, stepLimit := some limit }) operations
    let executions := entries.flatMap Entry.executions
    entries.map (·.operation) = operations ∧
    (carriedOut executions).length ≤ limit ∧
    (∀ entry ∈ entries, entry.report.machine.steps ≤ limit + exceedings executions ∧
      entry.report.machine.steps ≤ (carriedOut executions).length + executions.length) ∧
    exceedings executions ≤ operations.length ∧
    entries.Pairwise fun earlier later =>
      ranOut earlier.report.result = true → later.operation.Starts m → later.Idle limit := by
  intro entries executions
  have hl : (ofModule m { maxCallDepth, stepLimit := some limit }).options.stepLimit = some limit :=
    rfl
  have hstart : Accounted limit [] (ofModule m { maxCallDepth, stepLimit := some limit }).steps :=
    ⟨Nat.zero_le _, Nat.le_refl _, Nat.le_refl _, Nat.zero_le _⟩
  obtain ⟨hwithin, -, hbesides, hexceeded⟩ := log_accounted operations hl hstart
  refine ⟨log_operations hl hfuel, hwithin, fun entry hmem => ?_, exceedings_log operations _,
    log_pairwise_idle rfl hl⟩
  have hsteps := (steps_le_after operations _).2 entry hmem
  exact ⟨Nat.le_trans hsteps hexceeded, Nat.le_trans hsteps hbesides⟩

/-- The entry routine prints a letter again and again. -/
def ticking : Module where
  name := "demo"
  fields := []
  routines := [⟨"main", .void, 1, #[.getStdout, .sconst "x", .print .string, .goto 0]⟩]

/-- Two runs and a call, the first of which uses the budget up. -/
theorem log_within_budget_ticking :
    let operations : List Operation := [.run {} 6, .run {} 6, .call "main" [] {} 6]
    let entries := log (ofModule ticking { maxCallDepth := 2, stepLimit := some 5 }) operations
    (∀ operation ∈ operations, 5 < operation.fuel) ∧
    entries.map (fun entry =>
        (entry.report.result, entry.report.output, entry.report.machine.steps)) =
      [(.error (.stepLimitExceeded 5), "x", 6), (.error (.stepLimitExceeded 5), "", 7),
        (.error (.stepLimitExceeded 5), "", 8)] ∧
    (carriedOut (entries.flatMap Entry.executions)).length ≤ 5 ∧
    entries.Pairwise fun earlier later =>
      ranOut earlier.report.result = true → later.operation.Starts ticking → later.Idle 5 := by
  intro operations entries
  have hfuel : ∀ operation ∈ operations, 5 < operation.fuel := by decide
  obtain ⟨-, hwithin, -, -, hidle⟩ := log_within_budget ticking 2 5 operations hfuel
  exact ⟨hfuel, by decide +kernel, hwithin, hidle⟩

end PZero.Safety
