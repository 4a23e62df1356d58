import PZero.Proofs.Lowering.Module
import PZero.Proofs.Safety.History

/-! # The routines that a run begins with

A module gets two routines that no function of the program stands for: the initializer
and the entry routine. The name of the entry routine cannot be taken by another
function, but that of the initializer can. If it is not taken, the names of all routines
are distinct, and a run is one of the entry routine, one step later. If it is taken, a run
begins with that function.
-/
namespace PZero.Machine
open Bytecode

/-- A run that begins with the first routine and, unless it fails, goes on with the second one. -/
def runBoth (machine : Machine) (sink : Sink) (fuel : Nat) (first second : Routine) :
    Option Report :=
  (({ machine with state := .running }.execute sink fuel first [] "").bind fun report =>
    match report.result with
    | .error _ => some report
    | .ok _ => report.machine.execute sink fuel second [.unit] report.output).map
      (Report.flushed · sink)

/-- A run of one routine after a single step. -/
def runOne (machine : Machine) (sink : Sink) (fuel : Nat) (r : Routine) : Option Report :=
  let next := { machine with state := .running, steps := machine.steps + 1 }
  let report := match machine.options.exceeded? next.steps with
    | some limit => some (Report.mk (.error (.stepLimitExceeded limit)) "" next)
    | none => next.execute sink fuel r [.unit] ""
  report.map (Report.flushed · sink)

theorem run_eq_runBoth {machine : Machine} {first second : Routine}
    (hfirst : routine? machine.module initializer = some first)
    (hsecond : routine? machine.module entryRoutine = some second) (sink : Sink) (fuel : Nat) :
    machine.run sink fuel = machine.runBoth sink fuel first second := by
  have hfirst' : routine? { machine with state := .running }.module initializer = some first :=
    hfirst
  rw [run_eq_flushed, runEntry_eq_bind, prepare, executeNamed_some hfirst', runBoth]
  congr 1
  refine Option.bind_congr fun report hreport => ?_
  have hmodule : report.machine.module = machine.module := (execute_follows hreport).module
  have hsecond' : routine? report.machine.module entryRoutine = some second := hmodule ▸ hsecond
  rw [Report.andThenEntry]
  cases report.result with
  | error e => rfl
  | ok v => exact executeNamed_some hsecond' _ _ _

theorem execute_initializer (machine : Machine) (sink : Sink) (fuel : Nat) (output : String) :
    machine.execute sink (fuel + 1) Lowering.initializer [] output =
      some ⟨match machine.options.exceeded? (machine.steps + 1) with
        | some limit => .error (.stepLimitExceeded limit)
        | none => .ok none, output, { machine with steps := machine.steps + 1 }⟩ := by
  rw [Machine.execute, Lowering.run_initializer]
  rfl

/-- An initializer that only returns costs a step and nothing else. -/
theorem runBoth_initializer (machine : Machine) (sink : Sink) (fuel : Nat) (r : Routine) :
    machine.runBoth sink (fuel + 1) Lowering.initializer r = machine.runOne sink (fuel + 1) r := by
  rw [runBoth, runOne, execute_initializer, Option.bind_some]
  cases machine.options.exceeded? (machine.steps + 1) <;> rfl

end PZero.Machine

namespace PZero.Lowering
open Bytecode Rules Machine

/-- Apart from that of the initializer, each name belongs to one routine at most. -/
theorem routine?_eq_of_ne {G : Globals} {t : Typed.Program} {name : String} {m : Module}
    (hp : ProgramType G t) (hc : compile t name = .ok m) {n : String} (hn : n ≠ "<init>") :
    m.routine? n = routine? m n := by
  obtain ⟨rest, hm, hrest, -⟩ := exists_tail hp hc
  have hother : (initializer.name == n) = false := by simpa [initializer] using hn.symm
  rw [Module.routine?, routine?, hm, List.reverse_cons, List.find?_append, find?_reverse_eq hrest]
  simp only [List.find?_cons, hother, List.find?_nil, Option.or_none]

/-- The names of the routines of a module are distinct just when the program has no function named
like the initializer. Then every name is resolved to the same routine from the front and from the
back, and every run is one of the entry routine after a single step. With such a function every
other name is still resolved in one way, but every run begins with that function. -/
theorem compile_reserved {p : Surface.Program} {name : String} {m : Module}
    (hcompile : Compiler.compile p name = .ok m) :
    ((m.routines.map (·.name)).Nodup ↔ ¬ DeclaresFunction p "<init>") ∧
    (∀ n, n ≠ "<init>" ∨ ¬ DeclaresFunction p "<init>" → m.routine? n = routine? m n) ∧
    ∃ t entry, Compiler.analyse p = .ok t ∧ entryRoutine name t.statement = .ok entry ∧
      routine? m "main" = some entry ∧
      (¬ DeclaresFunction p "<init>" → routine? m "<init>" = some initializer ∧
        ∀ machine : Machine, machine.module = m → ∀ sink fuel,
          machine.run sink (fuel + 1) = machine.runOne sink (fuel + 1) entry) ∧
      (DeclaresFunction p "<init>" → ∃ f r, .function f ∈ t.declarations ∧ f.name = "<init>" ∧
        functionRoutine name f = .ok r ∧ routine? m "<init>" = some r ∧
        ∀ machine : Machine, machine.module = m → ∀ sink fuel,
          machine.run sink fuel = machine.runBoth sink fuel r entry) := by
  obtain ⟨t, G, ht, hw, hp, hc⟩ := exists_compiled hcompile
  obtain ⟨entry, he, hentry⟩ := routine?_entry hc
  have hdeclares : DeclaresFunction p "<init>" ↔
      ∃ f, .function f ∈ t.declarations ∧ f.name = "<init>" := declaresFunction_iff hw (by decide)
  have hnames : (m.routines.map (·.name)).Nodup ↔ ¬ DeclaresFunction p "<init>" := by
    rw [nodup_routines_iff hp hc, hdeclares]
    push Not
    rfl
  refine ⟨hnames, fun n hn => ?_, t, entry, ht, he, hentry, fun hinit => ?_, fun hinit => ?_⟩
  · rcases hn with hn | hinit
    · exact routine?_eq_of_ne hp hc hn
    · exact (find?_reverse_eq (hnames.mpr hinit) n).symm
  · have hfirst := routine?_initializer hc (hnames.mpr hinit)
    refine ⟨hfirst, fun machine hm sink fuel => ?_⟩
    subst hm
    rw [run_eq_runBoth hfirst hentry, runBoth_initializer]
  · obtain ⟨f, hf, hname⟩ := hdeclares.mp hinit
    obtain ⟨r, hr, hfirst⟩ := routine?_function hp hc hf
    rw [hname] at hfirst
    refine ⟨f, r, hf, hname, hr, hfirst, fun machine hm sink fuel => ?_⟩
    subst hm
    exact run_eq_runBoth hfirst hentry sink fuel

/-- A global name like that of the initializer takes nothing away from it. -/
def unreserved : Surface.Program where
  declarations :=
    [.global .readOnly ⟨"<init>", {}⟩ (.value (.int "3" {})),
      .function ⟨"main", {}⟩ [] [.call ⟨"print", {}⟩ [.name ⟨"<init>", {}⟩]] none]

theorem compile_reserved_unreserved :
    ∃ m, Compiler.compile unreserved "demo" = .ok m ∧ ¬ DeclaresFunction unreserved "<init>" ∧
      (m.routines.map (·.name)).Nodup ∧ (∀ n, m.routine? n = routine? m n) ∧
      routine? m "<init>" = some initializer ∧
      ((ofModule m {}).run {} 9).map (·.output) = some "3" := by
  have hinit : ¬ DeclaresFunction unreserved "<init>" := by
    rintro ⟨i, parameters, body, result, hmem, hname⟩
    simp [unreserved] at hmem
    simp [hmem.1] at hname
  obtain ⟨hnames, hfind, t, entry, -, -, -, hfirst, -⟩ := @compile_reserved unreserved "demo" _ rfl
  refine ⟨_, rfl, hinit, hnames.mpr hinit, fun n => hfind n (.inr hinit), (hfirst hinit).1, ?_⟩
  decide +kernel

/-- Takes the name of the initializer for a function that prints. -/
def usurping : Surface.Program where
  declarations :=
    [.function ⟨"<init>", {}⟩ [] [.call ⟨"print", {}⟩ [.literal (.int "7" {})]] none,
      .function ⟨"main", {}⟩ [] [] none]

def usurpingModule : Module where
  name := "demo"
  fields := []
  routines :=
    [initializer, ⟨"<init>", .void, 0, #[.getStdout, .iconst 7, .print .int, .ret]⟩,
      ⟨"main", .void, 1, #[.ret]⟩]

/-- An accepted program with two routines of one name, of which a run takes the wrong one. -/
theorem compile_reserved_usurping :
    Compiler.compile usurping "demo" = .ok usurpingModule ∧
      ¬ (usurpingModule.routines.map (·.name)).Nodup ∧
      usurpingModule.routine? "<init>" = some initializer ∧
      routine? usurpingModule "<init>" ≠ some initializer ∧
      ((ofModule usurpingModule {}).run {} 9).map (·.output) = some "7" := by
  refine ⟨?_, ?_, ?_, ?_, ?_⟩ <;> decide +kernel

end PZero.Lowering
