import PZero.Proofs.Machine.Effect

/-! # Operations one after the other

A machine is told to run its program or to call a routine, time and again. The log of
such a sequence has for each operation the machine before it and the report on it, up
to the first operation that does not return. No operation changes the module or the
options of a machine, takes a step back or withdraws what was printed.
-/
namespace PZero.Machine

/-! ## What an operation keeps -/

/-- A report on something that a machine did after a text was printed. -/
structure Report.Follows (report : Report) (machine : Machine) (output : String) : Prop where
  module : report.machine.module = machine.module
  options : report.machine.options = machine.options
  state : report.machine.state = machine.state
  steps : machine.steps ≤ report.machine.steps
  output : ∃ text, report.output = output ++ text

theorem Report.Follows.trans {report first : Report} {machine : Machine} {output : String}
    (h : report.Follows first.machine first.output) (h' : first.Follows machine output) :
    report.Follows machine output := by
  refine ⟨h.module.trans h'.module, h.options.trans h'.options, h.state.trans h'.state,
    Nat.le_trans h'.steps h.steps, ?_⟩
  obtain ⟨text, ht⟩ := h.output
  obtain ⟨text', ht'⟩ := h'.output
  exact ⟨text' ++ text, by rw [ht, ht', String.append_assoc]⟩

theorem Report.Follows.idle (machine : Machine) (result : Except Error (Option Value))
    (output : String) : Report.Follows ⟨result, output, machine⟩ machine output :=
  ⟨rfl, rfl, rfl, Nat.le_refl _, "", by simp⟩

section
variable {machine : Machine} {sink : Sink} {fuel : Nat} {report : Report}

theorem execute_follows {r : Bytecode.Routine} {arguments : List Value} {output : String}
    (h : machine.execute sink fuel r arguments output = some report) :
    report.Follows machine output := by
  obtain ⟨⟨result, s⟩, hrun, rfl⟩ := Option.map_eq_some_iff.mp h
  have hextends := (Store.Extends.counted _).trans (run_extends hrun)
  exact ⟨rfl, rfl, rfl, hextends.steps, hextends.output⟩

/-- Carries the routine of a name out; when there is none, nothing is done and the result is the one
given last. -/
def executeNamed (machine : Machine) (sink : Sink) (fuel : Nat) (name : String)
    (arguments : List Value) (output : String) (otherwise : Except Error (Option Value)) :
    Option Report :=
  match routine? machine.module name with
  | some r => machine.execute sink fuel r arguments output
  | none => some ⟨otherwise, output, machine⟩

theorem executeNamed_some {name : String} {r : Bytecode.Routine}
    (h : routine? machine.module name = some r) (arguments : List Value) (output : String)
    (otherwise : Except Error (Option Value)) :
    machine.executeNamed sink fuel name arguments output otherwise =
      machine.execute sink fuel r arguments output := by
  rw [executeNamed, h]

theorem executeNamed_none {name : String} (h : routine? machine.module name = none)
    (arguments : List Value) (output : String) (otherwise : Except Error (Option Value)) :
    machine.executeNamed sink fuel name arguments output otherwise =
      some ⟨otherwise, output, machine⟩ := by
  rw [executeNamed, h]

theorem executeNamed_cases {name : String} {arguments : List Value} {output : String}
    {otherwise : Except Error (Option Value)}
    (h : machine.executeNamed sink fuel name arguments output otherwise = some report) :
    (∃ r, routine? machine.module name = some r ∧
      machine.execute sink fuel r arguments output = some report) ∨
    (routine? machine.module name = none ∧ report = ⟨otherwise, output, machine⟩) := by
  cases hr : routine? machine.module name with
  | some r =>
    rw [executeNamed_some hr] at h
    exact .inl ⟨r, rfl, h⟩
  | none =>
    rw [executeNamed_none hr] at h
    exact .inr ⟨rfl, (Option.some.inj h).symm⟩

theorem executeNamed_follows {name : String} {arguments : List Value} {output : String}
    {otherwise : Except Error (Option Value)}
    (h : machine.executeNamed sink fuel name arguments output otherwise = some report) :
    report.Follows machine output := by
  obtain ⟨r, -, hexecute⟩ | ⟨-, rfl⟩ := executeNamed_cases h
  · exact execute_follows hexecute
  · exact .idle machine _ output

theorem call_eq_executeNamed (machine : Machine) (sink : Sink) (fuel : Nat) (name : String)
    (arguments : List Value) (output : String) :
    machine.call sink fuel name arguments output =
      machine.executeNamed sink fuel name arguments output (.error (.unknownRoutine name)) := rfl

theorem call_follows {name : String} {arguments : List Value} {output : String}
    (h : machine.call sink fuel name arguments output = some report) :
    report.Follows machine output :=
  executeNamed_follows (call_eq_executeNamed .. ▸ h)

/-- What the initializer does; without one all is well. -/
def prepare (machine : Machine) (sink : Sink) (fuel : Nat) : Option Report :=
  machine.executeNamed sink fuel initializer [] "" (.ok none)

/-- What is done after the initializer: nothing when it failed. -/
def Report.andThenEntry (first : Report) (sink : Sink) (fuel : Nat) : Option Report :=
  match first.result with
  | .error _ => some first
  | .ok _ => first.machine.call sink fuel entryRoutine [.unit] first.output

theorem runEntry_eq_bind (machine : Machine) (sink : Sink) (fuel : Nat) :
    machine.runEntry sink fuel =
      (machine.prepare sink fuel).bind (·.andThenEntry sink fuel) := by
  unfold Machine.runEntry prepare executeNamed
  cases routine? machine.module initializer <;> rfl

theorem andThenEntry_follows {first : Report} (h : first.andThenEntry sink fuel = some report) :
    report.Follows first.machine first.output := by
  unfold Report.andThenEntry at h
  split at h
  · cases h
    exact .idle _ _ _
  · exact call_follows h

theorem runEntry_follows (h : machine.runEntry sink fuel = some report) :
    report.Follows machine "" := by
  rw [runEntry_eq_bind] at h
  obtain ⟨first, hfirst, hrest⟩ := Option.bind_eq_some_iff.mp h
  exact (andThenEntry_follows hrest).trans (executeNamed_follows hfirst)

end

/-- The state that tells how a run ended. -/
def State.ofResult : Except Error (Option Value) → State
  | .ok _ => .halted
  | .error e => .failed e.message

/-- The report after the output was flushed: a refusal hides the result, and the machine is not told
that the run has ended. -/
def Report.flushed (report : Report) (sink : Sink) : Report :=
  match sink.refusesFlush with
  | some message => { report with result := .error (.output message) }
  | none => { report with machine := { report.machine with state := .ofResult report.result } }

theorem flushed_of_accepted {sink : Sink} (hflush : sink.refusesFlush = none) (report : Report) :
    report.flushed sink =
      { report with machine := { report.machine with state := .ofResult report.result } } := by
  simp only [Report.flushed, hflush]

section
variable (report : Report) (sink : Sink)

-- A flush touches nothing but the result and the state.

@[simp] theorem flushed_output : (report.flushed sink).output = report.output := by
  unfold Report.flushed
  cases sink.refusesFlush <;> rfl

@[simp] theorem flushed_module : (report.flushed sink).machine.module = report.machine.module := by
  unfold Report.flushed
  cases sink.refusesFlush <;> rfl

@[simp] theorem flushed_options :
    (report.flushed sink).machine.options = report.machine.options := by
  unfold Report.flushed
  cases sink.refusesFlush <;> rfl

@[simp] theorem flushed_statics :
    (report.flushed sink).machine.statics = report.machine.statics := by
  unfold Report.flushed
  cases sink.refusesFlush <;> rfl

@[simp] theorem flushed_steps : (report.flushed sink).machine.steps = report.machine.steps := by
  unfold Report.flushed
  cases sink.refusesFlush <;> rfl

end

theorem run_eq_flushed (machine : Machine) (sink : Sink) (fuel : Nat) :
    machine.run sink fuel =
      ({ machine with state := .running }.runEntry sink fuel).map (Report.flushed · sink) := by
  unfold Machine.run Report.flushed
  cases { machine with state := .running }.runEntry sink fuel with
  | none => rfl
  | some report => cases sink.refusesFlush <;> rfl

theorem exists_flushed_of_run {machine : Machine} {sink : Sink} {fuel : Nat} {report : Report}
    (h : machine.run sink fuel = some report) :
    ∃ inner, { machine with state := .running }.runEntry sink fuel = some inner ∧
      inner.flushed sink = report := by
  rw [run_eq_flushed] at h
  exact Option.map_eq_some_iff.mp h

end PZero.Machine

namespace PZero.Safety
open Machine

/-! ## Sequences of operations -/

/-- What is done with a machine: its program is run, or one of its routines is called. -/
inductive Operation
  | run (sink : Sink) (fuel : Nat)
  | call (name : String) (arguments : List Value) (sink : Sink) (fuel : Nat)

namespace Operation

def apply (machine : Machine) : Operation → Option Report
  | run sink fuel => machine.run sink fuel
  | call name arguments sink fuel => machine.call sink fuel name arguments ""

/-- The operation is not refused a flush; only runs ask for one. -/
def Flushes : Operation → Prop
  | run sink _ => sink.refusesFlush = none
  | call .. => True

end Operation

/-- No operation changes the module or the options or takes a step back. -/
theorem apply_keeps {machine : Machine} {operation : Operation} {report : Report}
    (h : operation.apply machine = some report) :
    report.machine.module = machine.module ∧ report.machine.options = machine.options ∧
      machine.steps ≤ report.machine.steps := by
  cases operation with
  | run sink fuel =>
    obtain ⟨inner, hinner, rfl⟩ := exists_flushed_of_run h
    have hfollows := runEntry_follows hinner
    rw [flushed_module, flushed_options, flushed_steps]
    exact ⟨hfollows.module, hfollows.options, hfollows.steps⟩
  | call name arguments sink fuel =>
    have hfollows := call_follows h
    exact ⟨hfollows.module, hfollows.options, hfollows.steps⟩

/-- Operations on one machine with their reports, up to the first one that does not return. -/
def history (machine : Machine) : List Operation → List (Operation × Report)
  | [] => []
  | operation :: rest =>
    match operation.apply machine with
    | none => []
    | some report => (operation, report) :: history report.machine rest

/-- An operation that returned, with the machine that it was done on. -/
structure Entry where
  before : Machine
  operation : Operation
  report : Report

/-- Operations on one machine, with the machine before each of them. -/
def log (machine : Machine) : List Operation → List Entry
  | [] => []
  | operation :: rest =>
    match operation.apply machine with
    | none => []
    | some report => ⟨machine, operation, report⟩ :: log report.machine rest

theorem log_cons {machine : Machine} {operation : Operation} {report : Report}
    (h : operation.apply machine = some report) (rest : List Operation) :
    log machine (operation :: rest) =
      ⟨machine, operation, report⟩ :: log report.machine rest := by
  rw [log, h]

theorem history_eq_map_log (machine : Machine) (operations : List Operation) :
    history machine operations =
      (log machine operations).map fun entry => (entry.operation, entry.report) := by
  induction operations generalizing machine with
  | nil => rfl
  | cons operation rest ih =>
    rw [history, log]
    cases operation.apply machine with
    | none => rfl
    | some report => exact congrArg (_ :: ·) (ih report.machine)

/-- What every operation keeps holds before each of them, and so does what follows from it. -/
theorem forall_mem_log {operations : List Operation} {I : Machine → Prop} {P : Entry → Prop}
    (hstep : ∀ machine, ∀ operation ∈ operations, ∀ report, I machine →
      operation.apply machine = some report → P ⟨machine, operation, report⟩ ∧ I report.machine)
    {machine : Machine} (h : I machine) : ∀ entry ∈ log machine operations, P entry := by
  fun_induction log machine operations with
  | case1 machine => exact fun entry hmem => (List.not_mem_nil hmem).elim
  | case2 machine operation rest happly => exact fun entry hmem => (List.not_mem_nil hmem).elim
  | case3 machine operation rest report happly ih =>
    obtain ⟨hentry, hnext⟩ := hstep machine operation (.head _) report h happly
    intro entry hmem
    rcases List.mem_cons.mp hmem with rfl | hmem
    · exact hentry
    · exact ih (fun m o ho => hstep m o (.tail _ ho)) hnext entry hmem

end PZero.Safety
