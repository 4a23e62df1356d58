import PZero.Proofs.Machine.Instructions

/-! # What a step does

A step meets the limit, has come to the end of the code, or carries an instruction out; then
the same activation goes on, another one begins, or the caller goes on.
-/
namespace PZero.Machine
open Bytecode

/-- How a step that carries an instruction out goes on. -/
inductive Config.Moves (c : Setting) (config : Config) (i : Instruction) : Config → Prop
  | goesOn {f : Frame} {s : Store} : f.routine = config.frame.routine → f.last = config.frame.pc →
      (f.pc = config.frame.pc + 1 ∨ ∃ t, i.target? = some t ∧ f.pc = t.toNat) →
      Moves c config i ⟨f, config.callers, s⟩
  | calls {f : Frame} {r : Routine} {arguments : List Value} {s : Store} {ref : RoutineRef} :
      i = .invoke ref → c.callee ref = .ok r → config.frame.fetched.SamePlace f →
      Moves c config i ⟨Frame.enter r arguments, f :: config.callers, s⟩
  | returns {f : Frame} {rest : List Frame} {v : Option Value} {s : Store} :
      config.callers = f :: rest → Moves c config i ⟨f.receive v, rest, s⟩

section
variable {c : Setting} {config next : Config} {s : Store}

theorem moves_of_step (h : config.step c = .running next) :
    ∃ i, config.instruction? c = some i ∧ config.Moves c i next := by
  obtain ⟨limit, -, hstep⟩ | ⟨-, hstep⟩ | ⟨i, hi, hstep⟩ := step_cases c config
  · rw [hstep] at h
    cases h
  · rw [hstep] at h
    cases h
  · refine ⟨i, hi, ?_⟩
    have hplace := perform_atPlace c config.frame.fetched config.store.counted i
    rw [hstep] at h
    generalize perform c config.frame.fetched config.store.counted i = x at h hplace
    cases x with
    | error e => cases h
    | ok flow =>
      cases flow with
      | next f s' =>
        obtain ⟨hroutine, hlast, hpc, -⟩ := hplace
        cases h
        exact .goesOn hroutine hlast hpc
      | call r arguments f =>
        obtain ⟨⟨ref, href, hr⟩, hsame⟩ := hplace
        by_cases hdepth : c.options.maxCallDepth ≤ config.callers.length + 1
        · simp only [Config.proceed, if_pos hdepth] at h
          cases h
        · simp only [Config.proceed, if_neg hdepth] at h
          cases h
          exact .calls href hr hsame
      | leave v =>
        cases hcallers : config.callers with
        | nil =>
          simp only [Config.proceed, hcallers] at h
          cases h
        | cons caller rest =>
          simp only [Config.proceed, hcallers] at h
          cases h
          exact .returns hcallers

/-- A fault comes from the instruction of the step, or there is none. -/
theorem fault_of_step {name : String} {pc : Nat} {e : Fault}
    (h : config.step c = .failed (.fault name pc e) s) :
    s = config.store.counted ∧ name = config.frame.routine.name ∧
      ((config.frame.routine.code[config.frame.pc]? = none ∧ e = .fellOffEnd ∧
          pc = config.frame.last) ∨
        (e ≠ .fellOffEnd ∧ pc = config.frame.pc ∧ ∃ i, config.instruction? c = some i ∧
          perform c config.frame.fetched s i = .error (.fault name pc e))) := by
  obtain ⟨limit, -, hstep⟩ | ⟨hcode, hstep⟩ | ⟨i, hi, hstep⟩ := step_cases c config
  · rw [hstep] at h
    cases h
  · rw [hstep] at h
    cases h
    exact ⟨rfl, rfl, .inl ⟨hcode, rfl, rfl⟩⟩
  · have hplace := perform_atPlace c config.frame.fetched config.store.counted i
    rw [hstep] at h
    cases hp : perform c config.frame.fetched config.store.counted i with
    | error e' =>
      rw [hp] at h hplace
      cases h
      obtain ⟨hname, hpc, he⟩ := hplace
      exact ⟨rfl, hname, .inr ⟨he, hpc, i, hi, hp⟩⟩
    | ok flow =>
      rw [hp] at h
      cases proceed_eq_failed h

end

end PZero.Machine
