import PZero.Proofs.Machine.Limits
import PZero.Proofs.Machine.Moves
import PZero.Proofs.Safety.StepBudget

/-! # Faults name the right place

A fault ends an operation, and its routine is the one that was active innermost. Its index
is that of the instruction that failed. When control ran past the end of the code, there is
no such instruction, and the index is the one of the last instruction of the activation,
however many activations it called in between.
-/
namespace PZero.Machine
open Bytecode

/-! ## From one instruction of an activation to the next -/

/-- The configurations that a run passes through while more than so many activations are live. -/
def PassesAbove (c : Setting) (depth : Nat) : Config → Config → Prop :=
  Relation.ReflTransGen fun config next => config.step c = .running next ∧ depth < next.live

/-- How control leaves an instruction, up to the configuration in which its activation goes on:
behind the instruction, where it jumped, or behind a call, during which only deeper activations
were running. -/
inductive Control (c : Setting) (before : Config) (i : Instruction) (next : Config) : Prop
  | falls : before.step c = .running next → next.frame.pc = before.frame.pc + 1 →
      Control c before i next
  | jumps {t : UInt32} : before.step c = .running next → i.target? = some t →
      next.frame.pc = t.toNat → Control c before i next
  | resumes {ref : RoutineRef} {inner last : Config} : i = .invoke ref →
      before.step c = .running inner → before.live < inner.live →
      PassesAbove c before.live inner last → last.step c = .running next →
      next.frame.pc = before.frame.pc + 1 → Control c before i next

/-- In `before` the running activation of `config` carried out the last of its instructions. -/
structure LastExecuted (c : Setting) (start before : Config) (i : Instruction) (config : Config) :
    Prop where
  passes : Passes c start before
  instruction : before.instruction? c = some i
  control : Control c before i config
  callers : config.callers = before.callers
  routine : config.frame.routine = before.frame.routine

/-- In `before` a frame called a routine, for which it waits, and deeper activations have been
running since then. -/
structure Waits (c : Setting) (start before : Config) (f : Frame) (rest : List Frame)
    (config : Config) : Prop where
  passes : Passes c start before
  called : ∃ ref inner, before.instruction? c = some (.invoke ref) ∧
    before.step c = .running inner ∧ before.live < inner.live ∧
    PassesAbove c before.live inner config
  callers : rest = before.callers
  place : before.frame.fetched.SamePlace f

/-- Each activation is where it last carried an instruction out, or has not begun. -/
structure Placed (c : Setting) (start config : Config) : Prop where
  running : config.frame.pc = 0 ∧ config.frame.last = 0 ∨
    ∃ before i, LastExecuted c start before i config ∧ config.frame.last = before.frame.pc
  waiting : ∀ f rest, f :: rest <:+ config.callers → ∃ before, Waits c start before f rest config
  known : ∀ f ∈ config.frame :: config.callers, f.routine ∈ c.module.routines

section
variable {c : Setting} {start before config next : Config} {f : Frame} {rest : List Frame}

theorem Frame.SamePlace.receive (f : Frame) (v : Option Value) : f.SamePlace (f.receive v) := by
  cases v <;> exact ⟨rfl, rfl, rfl⟩

theorem mem_of_callee {ref : RoutineRef} {r : Routine} (h : c.callee ref = .ok r) :
    r ∈ c.module.routines := by
  unfold Setting.callee at h
  split at h
  · next r' hr =>
    cases h
    split at hr
    · exact mem_of_routine? hr
    · cases hr
  · cases h

theorem Waits.step (h : Waits c start before f rest config) (hstep : config.step c = .running next)
    (hrest : f :: rest <:+ next.callers) : Waits c start before f rest next := by
  obtain ⟨ref, inner, hi, hcall, hdeeper, habove⟩ := h.called
  have hlive : before.live < next.live := by
    have hle := hrest.length_le
    rw [h.callers, List.length_cons] at hle
    exact Nat.succ_lt_succ hle
  exact ⟨h.passes, ⟨ref, inner, hi, hcall, hdeeper, habove.tail ⟨hstep, hlive⟩⟩, h.callers, h.place⟩

/-- A step takes each activation from its place to the next one. -/
theorem Placed.step (h : Placed c start config) (hpasses : Passes c start config)
    (hstep : config.step c = .running next) : Placed c start next := by
  obtain ⟨i, hi, hmoves⟩ := moves_of_step hstep
  obtain ⟨-, hwaiting, hknown⟩ := h
  cases hmoves with
  | @goesOn f s hroutine hlast hpc =>
    refine ⟨.inr ⟨config, i, ⟨hpasses, hi, ?_, rfl, hroutine⟩, hlast⟩, fun f' rest hrest => ?_, ?_⟩
    · rcases hpc with hpc | ⟨t, ht, hpc⟩
      · exact .falls hstep hpc
      · exact .jumps hstep ht hpc
    · obtain ⟨before, hw⟩ := hwaiting f' rest hrest
      exact ⟨before, hw.step hstep hrest⟩
    · rw [List.forall_mem_cons] at hknown ⊢
      exact ⟨hroutine ▸ hknown.1, hknown.2⟩
  | @calls f r arguments s ref href hr hsame =>
    refine ⟨.inl ⟨rfl, rfl⟩, fun f' rest hrest => ?_, ?_⟩
    · rcases List.suffix_cons_iff.mp hrest with heq | hrest'
      · -- The caller itself: it begins to wait.
        cases heq
        have hdeeper : config.live < config.live + 1 := Nat.lt_succ_self _
        exact ⟨config, hpasses, ⟨ref, _, href ▸ hi, hstep, hdeeper, .refl⟩, rfl, hsame⟩
      · obtain ⟨before, hw⟩ := hwaiting f' rest hrest'
        exact ⟨before, hw.step hstep hrest⟩
    · rw [List.forall_mem_cons] at hknown
      have hf : f.routine ∈ c.module.routines := hsame.routine ▸ hknown.1
      exact List.forall_mem_cons.mpr ⟨mem_of_callee hr, List.forall_mem_cons.mpr ⟨hf, hknown.2⟩⟩
  | @returns f rest v s hcallers =>
    rw [hcallers] at hwaiting hknown
    obtain ⟨before, hw⟩ := hwaiting f rest (List.suffix_refl _)
    obtain ⟨ref, inner, hi', hcall, hdeeper, habove⟩ := hw.called
    have hreceive := Frame.SamePlace.receive f v
    have hcontrol : Control c before (.invoke ref) ⟨f.receive v, rest, s⟩ :=
      .resumes rfl hcall hdeeper habove hstep (hreceive.pc.trans hw.place.pc)
    refine ⟨.inr ⟨before, .invoke ref, ⟨hw.passes, hi', hcontrol, hw.callers,
      hreceive.routine.trans hw.place.routine⟩, hreceive.last.trans hw.place.last⟩,
      fun f' rest' hrest => ?_, ?_⟩
    · obtain ⟨before, hw⟩ := hwaiting f' rest' (hrest.trans (List.suffix_cons f rest))
      exact ⟨before, hw.step hstep hrest⟩
    · rw [List.forall_mem_cons] at hknown
      have hf := (List.forall_mem_cons.mp hknown.2).1
      exact List.forall_mem_cons.mpr ⟨hreceive.routine ▸ hf, (List.forall_mem_cons.mp hknown.2).2⟩

theorem placed_of_passes (hstart : Placed c start start) (h : Passes c start config) :
    Placed c start config := by
  induction h with
  | refl => exact hstart
  | tail hpasses hstep ih => exact ih.step hpasses hstep

theorem placed_launch {machine : Machine} {r : Routine} (hr : r ∈ c.module.routines)
    (arguments : List Value) (output : String) :
    Placed c (machine.launch r arguments output) (machine.launch r arguments output) where
  running := .inl ⟨rfl, rfl⟩
  waiting _ _ h := absurd (List.suffix_nil.mp h) (List.cons_ne_nil _ _)
  known := List.forall_mem_singleton.mpr hr

/-! ## Where a fault arises -/

/-- A run that ends in an error comes to a step that does. -/
theorem exists_failing_step {fuel : Nat} {e : Error} {s : Store}
    (h : Config.run c fuel start = some (.error e, s)) :
    ∃ config, Passes c start config ∧ config.step c = .failed e s := by
  induction fuel generalizing start with
  | zero => cases h
  | succ fuel ih =>
    rw [Config.run] at h
    cases hs : start.step c with
    | running next =>
      rw [hs] at h
      obtain ⟨config, hpasses, hstep⟩ := ih h
      exact ⟨config, .head hs hpasses, hstep⟩
    | finished v s' =>
      rw [hs] at h
      cases h
    | failed e' s' =>
      rw [hs] at h
      cases h
      exact ⟨start, .refl, hs⟩

/-- In `config` a run ends with a fault, which names the place. -/
structure FaultIn (c : Setting) (start config : Config) (name : String) (pc : Nat) (e : Fault)
    (s : Store) : Prop where
  passes : Passes c start config
  fails : config.step c = .failed (.fault name pc e) s
  /-- The routine that was active innermost is named. -/
  routine : config.frame.routine ∈ c.module.routines ∧ config.frame.routine.name = name
  /-- The instruction at the index failed, and left no trace, whatever the sink. -/
  instruction : e ≠ .fellOffEnd → pc < config.frame.routine.code.size ∧ config.frame.pc = pc ∧
    ∃ i, config.frame.routine.code[pc]? = some i ∧
      (∀ sink, perform { c with sink } config.frame.fetched config.store.counted i =
        .error (.fault name pc e)) ∧
      s.output = config.store.output ∧ s.statics = config.store.statics
  /-- The instruction at the index was the last one, and control left it for the end of the code. -/
  ended : e = .fellOffEnd → (config.frame.routine.code = #[] ∧ pc = 0) ∨
    ∃ before i, LastExecuted c start before i config ∧ before.frame.pc = pc ∧
      config.frame.routine.code[pc]? = some i ∧
      config.frame.routine.code.size ≤ config.frame.pc

theorem code_of_instruction? {i : Instruction} (h : config.instruction? c = some i) :
    config.frame.routine.code[config.frame.pc]? = some i := by
  unfold Config.instruction? at h
  split at h
  · cases h
  · exact h

theorem faultIn_of_step {name : String} {pc : Nat} {e : Fault} {s : Store}
    (hplaced : Placed c start config) (hpasses : Passes c start config)
    (h : config.step c = .failed (.fault name pc e) s) : FaultIn c start config name pc e s := by
  obtain ⟨rfl, rfl, hcause⟩ := fault_of_step h
  refine ⟨hpasses, h, ⟨hplaced.known _ (.head _), rfl⟩, fun he => ?_, fun he => ?_⟩
  · obtain ⟨-, rfl, -⟩ | ⟨-, rfl, i, hi, hperform⟩ := hcause
    · exact absurd rfl he
    · have hcode := code_of_instruction? hi
      have hsink : ∀ sink, perform { c with sink } config.frame.fetched config.store.counted i =
          .error (.fault config.frame.routine.name config.frame.pc e) := perform_fault hperform
      exact ⟨(Array.getElem?_eq_some_iff.mp hcode).1, rfl, i, hcode, hsink, rfl, rfl⟩
  · obtain ⟨hcode, -, rfl⟩ | ⟨hne, -⟩ := hcause
    · have hend := Array.getElem?_eq_none_iff.mp hcode
      obtain ⟨hpc, hlast⟩ | ⟨before, i, hexecuted, hlast⟩ := hplaced.running
      · rw [hpc, Nat.le_zero] at hend
        exact .inl ⟨Array.eq_empty_of_size_eq_zero hend, hlast⟩
      · have hbefore := code_of_instruction? hexecuted.instruction
        rw [← hexecuted.routine, ← hlast] at hbefore
        exact .inr ⟨before, i, hexecuted, hlast.symm, hbefore, hend⟩
    · exact absurd he hne

end

/-! ## Operations -/

section
variable {machine : Machine} {sink : Sink} {fuel : Nat} {report : Report} {name : String} {pc : Nat}
  {e : Fault}

theorem executeNamed_fault {routine : String} {arguments : List Value} {output : String}
    {otherwise : Except Error (Option Value)}
    (h : machine.executeNamed sink fuel routine arguments output otherwise = some report)
    (hfault : report.result = .error (.fault name pc e))
    (hotherwise : otherwise ≠ .error (.fault name pc e)) :
    ∃ r, routine? machine.module routine = some r ∧
      ∃ config s, FaultIn ⟨machine.module, machine.options, sink⟩
        (machine.launch r arguments output) config name pc e s ∧
        report.output = s.output ∧ report.machine.statics = s.statics := by
  obtain ⟨r, hr, hexecute⟩ | ⟨-, rfl⟩ := executeNamed_cases h
  · obtain ⟨⟨result, s⟩, hrun, rfl⟩ := Option.map_eq_some_iff.mp hexecute
    obtain rfl : result = .error (.fault name pc e) := hfault
    have hrun' : Config.run ⟨machine.module, machine.options, sink⟩ fuel
        (machine.launch r arguments output) = some (.error (.fault name pc e), s) := hrun
    obtain ⟨config, hpasses, hstep⟩ := exists_failing_step hrun'
    have hplaced := placed_of_passes (placed_launch (mem_of_routine? hr) arguments output) hpasses
    exact ⟨r, hr, config, s, faultIn_of_step hplaced hpasses hstep, rfl, rfl⟩
  · exact absurd hfault hotherwise

end
end PZero.Machine

namespace PZero.Safety
open Bytecode Machine

/-- No flush reports a fault. -/
theorem fault_of_flushed {report : Report} {sink : Sink} {name : String} {pc : Nat} {e : Fault}
    (h : (report.flushed sink).result = .error (.fault name pc e)) :
    report.result = .error (.fault name pc e) := by
  unfold Report.flushed at h
  split at h
  · cases h
  · exact h

def Operation.sink : Operation → Sink
  | run sink _ | call _ _ sink _ => sink

/-- The configurations with which an operation begins a routine: the one that is called, or the
initializer, and once that has a result the entry routine. -/
inductive Begins (machine : Machine) : Operation → Config → Prop
  | call {name : String} {r : Routine} (arguments : List Value) (sink : Sink) (fuel : Nat) :
      routine? machine.module name = some r →
      Begins machine (.call name arguments sink fuel) (machine.launch r arguments "")
  | initializer {r : Routine} (sink : Sink) (fuel : Nat) :
      routine? machine.module Machine.initializer = some r →
      Begins machine (.run sink fuel) (machine.launch r [] "")
  | entry {r : Routine} {v : Option Value} {output : String} {next : Machine} (sink : Sink)
      (fuel : Nat) :
      { machine with state := .running }.prepare sink fuel = some ⟨.ok v, output, next⟩ →
      routine? machine.module entryRoutine = some r →
      Begins machine (.run sink fuel) (next.launch r [.unit] output)

/-- An operation that ends in a fault came to a step that fails with it, the last one, in which the
routine that the fault names was running. The index is that of the instruction that failed; where
the code has come to its end, it is that of the last instruction of the activation, or zero if there
is none. -/
theorem fault_names_place {machine : Machine} {operation : Operation} {report : Report}
    {name : String} {pc : Nat} {e : Fault} (h : operation.apply machine = some report)
    (hfault : report.result = .error (.fault name pc e)) :
    ∃ start config s, Begins machine operation start ∧
      FaultIn ⟨machine.module, machine.options, operation.sink⟩ start config name pc e s ∧
      report.output = s.output ∧ report.machine.statics = s.statics := by
  cases operation with
  | call routine arguments sink fuel =>
    obtain ⟨r, hr, config, s, hin, hends⟩ := executeNamed_fault h hfault nofun
    exact ⟨_, config, s, .call arguments sink fuel hr, hin, hends⟩
  | run sink fuel =>
    obtain ⟨inner, hinner, rfl⟩ := exists_flushed_of_run h
    have hresult := fault_of_flushed hfault
    rw [flushed_output, flushed_statics]
    rw [runEntry_eq_bind] at hinner
    obtain ⟨first, hfirst, hrest⟩ := Option.bind_eq_some_iff.mp hinner
    have hfollows : first.Follows { machine with state := .running } "" :=
      executeNamed_follows hfirst
    obtain ⟨result, output, next⟩ := first
    cases result with
    | error e' =>
      cases hrest
      obtain ⟨r, hr, config, s, hin, hends⟩ := executeNamed_fault hfirst hresult nofun
      exact ⟨_, config, s, .initializer sink fuel hr, hin, hends⟩
    | ok v =>
      obtain ⟨r, hr, config, s, hin, hends⟩ := executeNamed_fault hrest hresult nofun
      have hmodule : next.module = machine.module := hfollows.module
      have hoptions : next.options = machine.options := hfollows.options
      rw [hmodule] at hr hin
      rw [hoptions] at hin
      exact ⟨_, config, s, .entry sink fuel hfirst hr, hin, hends⟩

/-- Its entry routine has no more code behind a call, and another routine divides by zero. -/
def openEnded : Machine :=
  ofModule ⟨"demo", [],
    [⟨"main", ⟨[], none⟩, 1, #[.iconst 7, .invoke ⟨"demo", "f", ⟨[], none⟩⟩]⟩,
      ⟨"f", ⟨[], none⟩, 0, #[.ret]⟩,
      ⟨"g", ⟨[], some .int⟩, 0, #[.iconst 1, .iconst 0, .idiv, .iret]⟩]⟩ {}

theorem fault_names_place_openEnded :
    (∃ report, (Operation.run {} 9).apply openEnded = some report ∧
      report.result = .error (.fault "main" 1 .fellOffEnd) ∧
      ∃ start config before i, LastExecuted ⟨openEnded.module, {}, {}⟩ start before i config ∧
        before.frame.pc = 1 ∧ config.frame.routine.name = "main") ∧
    ∃ report, (Operation.call "g" [] {} 9).apply openEnded = some report ∧
      report.result = .error (.fault "g" 2 .divisionByZero) ∧
      ∃ start config, Passes ⟨openEnded.module, {}, {}⟩ start config ∧ config.frame.pc = 2 ∧
        config.frame.routine.name = "g" := by
  have hrun : ((Operation.run {} 9).apply openEnded).map (·.result) =
      some (.error (.fault "main" 1 .fellOffEnd)) := by decide +kernel
  have hcall : ((Operation.call "g" [] {} 9).apply openEnded).map (·.result) =
      some (.error (.fault "g" 2 .divisionByZero)) := by decide +kernel
  constructor
  · obtain ⟨report, happly, hresult⟩ := Option.map_eq_some_iff.mp hrun
    obtain ⟨start, config, s, -, hin, -⟩ := fault_names_place happly hresult
    obtain ⟨-, hzero⟩ | ⟨before, i, hexecuted, hpc, -⟩ := hin.ended rfl
    · cases hzero
    · exact ⟨report, happly, hresult, start, config, before, i, hexecuted, hpc, hin.routine.2⟩
  · obtain ⟨report, happly, hresult⟩ := Option.map_eq_some_iff.mp hcall
    obtain ⟨start, config, s, -, hin, -⟩ := fault_names_place happly hresult
    exact ⟨report, happly, hresult, start, config, hin.passes, (hin.instruction nofun).2.1,
      hin.routine.2⟩

end PZero.Safety
