import PZero.Proofs.Safety.History

/-! # The state between operations

A run whose output is flushed leaves the machine halted, or failed with the message of
its own error; a call leaves the state as it was. A run whose flush is refused is over
as well, but the machine is left as if it were still running, until another run gets
its output flushed.
-/
namespace PZero.Safety
open Machine

/-- The state after a run tells how it ended, and the one after a call is the one before it. -/
def Entry.Settles (entry : Entry) : Prop :=
  match entry.operation with
  | .run .. => entry.report.machine.state = .ofResult entry.report.result
  | .call .. => entry.report.machine.state = entry.before.state

/-! ## One operation -/

section
variable {machine : Machine} {sink : Sink} {fuel : Nat} {report : Report}

theorem run_state (h : machine.run sink fuel = some report) (hflush : sink.refusesFlush = none) :
    report.machine.state = .ofResult report.result := by
  obtain ⟨inner, -, rfl⟩ := exists_flushed_of_run h
  rw [flushed_of_accepted hflush]

theorem run_refused_state (h : machine.run sink fuel = some report) {message : String}
    (hflush : sink.refusesFlush = some message) :
    report.result = .error (.output message) ∧ report.machine.state = .running := by
  obtain ⟨inner, hinner, rfl⟩ := exists_flushed_of_run h
  have hstate : inner.machine.state = .running := (runEntry_follows hinner).state
  simp only [Report.flushed, hflush, hstate, and_self]

theorem ofResult_ne_running (result : Except Error (Option Value)) :
    State.ofResult result ≠ .running := by
  cases result <;> exact State.noConfusion

end

section
variable {machine : Machine} {operation : Operation} {report : Report}

theorem settles_of_flushes (h : operation.apply machine = some report) (hf : operation.Flushes) :
    Entry.Settles ⟨machine, operation, report⟩ := by
  cases operation with
  | run sink fuel => exact run_state h hf
  | call name arguments sink fuel => exact (call_follows h).state

theorem running_of_not_flushes (h : operation.apply machine = some report)
    (hf : ¬ operation.Flushes) :
    report.machine.state = .running ∧ ∃ message, report.result = .error (.output message) := by
  cases operation with
  | run sink fuel =>
    obtain ⟨message, hmessage⟩ := Option.ne_none_iff_exists'.mp hf
    obtain ⟨hresult, hstate⟩ := run_refused_state h hmessage
    exact ⟨hstate, message, hresult⟩
  | call name arguments sink fuel => exact (hf trivial).elim

theorem not_settles_of_not_flushes (h : operation.apply machine = some report)
    (hf : ¬ operation.Flushes) : ¬ Entry.Settles ⟨machine, operation, report⟩ := by
  intro hsettles
  have hrunning := (running_of_not_flushes h hf).1
  cases operation with
  | run sink fuel =>
    have hstate : report.machine.state = .ofResult report.result := hsettles
    exact ofResult_ne_running report.result (hstate.symm.trans hrunning)
  | call name arguments sink fuel => exact hf trivial

theorem ne_running_of_flushes (h : operation.apply machine = some report)
    (hf : operation.Flushes) (hstate : machine.state ≠ .running) :
    report.machine.state ≠ .running := by
  have hsettles := settles_of_flushes h hf
  cases operation with
  | run sink fuel =>
    have hresult : report.machine.state = .ofResult report.result := hsettles
    exact hresult ▸ ofResult_ne_running report.result
  | call name arguments sink fuel =>
    have hsame : report.machine.state = machine.state := hsettles
    exact hsame ▸ hstate

end

/-! ## Operations one after the other -/

/-- As long as no flush is refused, the machine is not running between operations. -/
theorem ne_running_of_forall_flushes {machine : Machine} {operations : List Operation}
    (hstate : machine.state ≠ .running)
    (hf : ∀ entry ∈ log machine operations, entry.operation.Flushes) :
    ∀ entry ∈ log machine operations, entry.report.machine.state ≠ .running := by
  fun_induction log machine operations with
  | case1 machine => exact fun entry hmem => (List.not_mem_nil hmem).elim
  | case2 machine operation rest happly => exact fun entry hmem => (List.not_mem_nil hmem).elim
  | case3 machine operation rest report happly ih =>
    have hnext := ne_running_of_flushes happly (hf _ (.head _)) hstate
    intro entry hmem
    rcases List.mem_cons.mp hmem with rfl | hmem
    · exact hnext
    · exact ih hnext (fun e he => hf e (.tail _ he)) entry hmem

/-- The state after each of any operations on a machine, whatever their sinks refuse. It tells how a
run ended, and stays as it was at a call, unless a run is refused its flush: such a run leaves the
machine running. So the machine is never running between operations just when no flush is
refused. -/
theorem log_state (m : Bytecode.Module) (options : Options) (operations : List Operation) :
    (∀ entry ∈ log (ofModule m options) operations,
      (entry.Settles ↔ entry.operation.Flushes) ∧
      (¬ entry.operation.Flushes → entry.report.machine.state = .running ∧
        ∃ message, entry.report.result = .error (.output message))) ∧
    ((∀ entry ∈ log (ofModule m options) operations, entry.report.machine.state ≠ .running) ↔
      ∀ entry ∈ log (ofModule m options) operations, entry.operation.Flushes) := by
  have heach : ∀ entry ∈ log (ofModule m options) operations,
      (entry.Settles ↔ entry.operation.Flushes) ∧
      (¬ entry.operation.Flushes → entry.report.machine.state = .running ∧
        ∃ message, entry.report.result = .error (.output message)) := by
    refine forall_mem_log (I := fun _ => True) ?_ trivial
    intro machine operation _ report _ happly
    have hsettles : Entry.Settles ⟨machine, operation, report⟩ → operation.Flushes := by
      intro hsettles
      by_contra hf
      exact not_settles_of_not_flushes happly hf hsettles
    exact ⟨⟨⟨hsettles, settles_of_flushes happly⟩, running_of_not_flushes happly⟩, trivial⟩
  refine ⟨heach, fun hnever entry hmem => ?_, ?_⟩
  · by_contra hf
    exact hnever entry hmem ((heach entry hmem).2 hf).1
  · exact ne_running_of_forall_flushes State.noConfusion

/-- Does nothing but return. -/
def idleModule : Bytecode.Module := ⟨"demo", [], [⟨"main", .void, 1, #[.ret]⟩]⟩

def refusing : Sink := { refusesFlush := some "flush refused" }

/-- A run that fails with an error and leaves the machine running. -/
theorem log_state_refused :
    ((ofModule idleModule {}).run refusing 1).map
        (fun report => (report.result, report.machine.state)) =
      some (.error (.output "flush refused"), .running) ∧
    ¬ ∀ entry ∈ log (ofModule idleModule {}) [.run refusing 1], entry.Settles := by
  have happly : (Operation.run refusing 1).apply (ofModule idleModule {}) =
      some ⟨.error (.output "flush refused"), "",
        { ofModule idleModule {} with state := .running, steps := 1 }⟩ := rfl
  have hrefused : ¬ (Operation.run refusing 1).Flushes := Option.some_ne_none _
  refine ⟨congrArg (Option.map _) happly, fun hsettles => ?_⟩
  rw [log_cons happly] at hsettles
  exact not_settles_of_not_flushes happly hrefused (hsettles _ (.head _))

end PZero.Safety
