import PZero.Proofs.Machine.Effect

/-! # The instructions that a run carries out

A step counts itself and carries an instruction out, unless the limit is exceeded or the
code has come to its end, and such a step is the last one. So a run under a step limit
returns, and carries out no more instructions than there are steps left; with none left
it carries nothing out.
-/
namespace PZero.Machine
open Bytecode

/-- The step limit was exceeded. -/
def ranOut : Except Error (Option Value) → Bool
  | .error (.stepLimitExceeded _) => true
  | _ => false

/-! ## The instructions of a run -/

/-- The instruction that a step carries out: none when the limit is exceeded or the code has no
more. -/
def Config.instruction? (c : Setting) (config : Config) : Option Instruction :=
  match c.options.exceeded? (config.store.steps + 1) with
  | some _ => none
  | none => config.frame.routine.code[config.frame.pc]?

/-- The instructions that a run carries out, one that fails included. -/
def Config.instructions (c : Setting) : Nat → Config → List Instruction
  | 0, _ => []
  | fuel + 1, config =>
    (config.instruction? c).toList ++
      match config.step c with
      | .running next => Config.instructions c fuel next
      | .finished .. | .failed .. => []

section
variable {c : Setting} {limit : Nat} {config : Config}

theorem exceeded?_eq_some_iff (h : c.options.stepLimit = some limit) {steps l : Nat} :
    c.options.exceeded? steps = some l ↔ limit < steps ∧ l = limit := by
  simp only [Options.exceeded?, h, Option.bind_some]
  split <;> simp_all [eq_comm]

theorem exceeded?_eq_none_iff (h : c.options.stepLimit = some limit) {steps : Nat} :
    c.options.exceeded? steps = none ↔ steps ≤ limit := by
  simp only [Options.exceeded?, h, Option.bind_some]
  split <;> simp_all

theorem exceeded?_of_le {n n' : Nat} (hle : n ≤ n') (h : c.options.exceeded? n' = none) :
    c.options.exceeded? n = none := by
  cases hlimit : c.options.stepLimit with
  | none => simp only [Options.exceeded?, hlimit, Option.bind_none]
  | some limit =>
    rw [exceeded?_eq_none_iff hlimit] at h ⊢
    exact Nat.le_trans hle h

/-- A step meets the limit, has come to the end of the code, or carries an instruction out. -/
theorem step_cases (c : Setting) (config : Config) :
    (∃ limit, c.options.exceeded? (config.store.steps + 1) = some limit ∧
      config.step c = .failed (.stepLimitExceeded limit) config.store.counted) ∨
    (config.frame.routine.code[config.frame.pc]? = none ∧
      config.step c = .failed (config.frame.fault .fellOffEnd) config.store.counted) ∨
    ∃ i, config.instruction? c = some i ∧ config.step c =
      match perform c config.frame.fetched config.store.counted i with
      | .error e => .failed e config.store.counted
      | .ok flow => Config.proceed c config.callers config.store.counted flow := by
  unfold Config.step Config.instruction? Frame.fetch
  cases hlimit : c.options.exceeded? (config.store.steps + 1) with
  | some limit => exact .inl ⟨limit, rfl, by simp only [hlimit]; rfl⟩
  | none =>
    cases hcode : config.frame.routine.code[config.frame.pc]? with
    | none => exact .inr (.inl ⟨rfl, by simp only [hlimit]; rfl⟩)
    | some i => exact .inr (.inr ⟨i, rfl, by simp only [hlimit]; rfl⟩)

/-- A step without an instruction is the last one. -/
theorem step_of_instruction?_none (h : config.instruction? c = none) :
    ∃ e, config.step c = .failed e config.store.counted := by
  obtain ⟨limit, -, hstep⟩ | ⟨-, hstep⟩ | ⟨i, hi, -⟩ := step_cases c config
  · exact ⟨_, hstep⟩
  · exact ⟨_, hstep⟩
  · rw [h] at hi
    cases hi

theorem steps_lt_of_instruction? (hl : c.options.stepLimit = some limit) {i : Instruction}
    (h : config.instruction? c = some i) : config.store.steps < limit := by
  unfold Config.instruction? at h
  cases hlimit : c.options.exceeded? (config.store.steps + 1) with
  | some l => rw [hlimit] at h; cases h
  | none => exact (exceeded?_eq_none_iff hl).mp hlimit

theorem step_exhausted (hl : c.options.stepLimit = some limit) (h : limit ≤ config.store.steps) :
    config.step c = .failed (.stepLimitExceeded limit) config.store.counted := by
  have hlimit : c.options.exceeded? (config.store.steps + 1) = some limit :=
    (exceeded?_eq_some_iff hl).mpr ⟨by omega, rfl⟩
  simp only [Config.step, hlimit]
  rfl

theorem instruction?_exhausted (hl : c.options.stepLimit = some limit)
    (h : limit ≤ config.store.steps) : config.instruction? c = none := by
  have hlimit : c.options.exceeded? (config.store.steps + 1) = some limit :=
    (exceeded?_eq_some_iff hl).mpr ⟨by omega, rfl⟩
  simp only [Config.instruction?, hlimit]

/-- What follows an instruction fails only when it is a call. -/
theorem proceed_eq_failed {callers : List Frame} {flow : Flow} {e : Error} {s s' : Store}
    (h : Config.proceed c callers s flow = .failed e s') :
    e = .callDepthExceeded c.options.maxCallDepth := by
  cases flow with
  | next f s'' => cases h
  | call r arguments f =>
    simp only [Config.proceed] at h
    split at h
    · cases h
      rfl
    · cases h
  | leave v => cases callers <;> cases h

/-- Only the count makes a step exceed the limit. -/
theorem exceeded_of_step {l : Nat} {s : Store} (hl : c.options.stepLimit = some limit)
    (h : config.step c = .failed (.stepLimitExceeded l) s) : limit < s.steps := by
  obtain ⟨_, hlimit, hstep⟩ | ⟨-, hstep⟩ | ⟨i, -, hstep⟩ := step_cases c config
  · rw [hstep] at h
    cases h
    exact ((exceeded?_eq_some_iff hl).mp hlimit).1
  · rw [hstep] at h
    cases h
  · have hbudget := perform_withinBudget c config.frame.fetched config.store.counted i
    rw [hstep] at h
    cases hp : perform c config.frame.fetched config.store.counted i with
    | error e =>
      rw [hp] at h
      cases h
      exact (hbudget _ hp trivial).elim
    | ok flow =>
      rw [hp] at h
      cases proceed_eq_failed h

/-! ## Runs -/

variable {fuel : Nat} {result : Except Error (Option Value)} {s : Store}

/-- With as much fuel as there are steps left, and one more, a run comes to its end. -/
theorem run_returns (hl : c.options.stepLimit = some limit)
    (hfuel : limit - config.store.steps < fuel) : ∃ x, Config.run c fuel config = some x := by
  induction fuel generalizing config with
  | zero => omega
  | succ fuel ih =>
    rw [Config.run]
    have hsteps := (step_effect c config).steps
    by_cases hleft : limit ≤ config.store.steps
    · rw [step_exhausted hl hleft]
      exact ⟨_, rfl⟩
    · cases hs : config.step c with
      | running next =>
        rw [hs] at hsteps
        simp only [Outcome.store, Store.counted] at hsteps
        exact ih (by omega)
      | finished v s' => exact ⟨_, rfl⟩
      | failed e s' => exact ⟨_, rfl⟩

/-- How a run from one number of steps to another one uses up a limit: every step carries an
instruction out, but for one, which is the last. -/
structure Spends (limit start : Nat) (instructions : List Instruction)
    (result : Except Error (Option Value)) (stop : Nat) : Prop where
  left : instructions.length ≤ limit - start
  counted : start + instructions.length ≤ stop
  besides : stop ≤ start + instructions.length + 1
  stops : stop ≤ max limit start + (ranOut result).toNat

namespace Spends
variable {start stop : Nat} {instructions : List Instruction}

theorem nothing (h : start < limit ∨ ranOut result = true) :
    Spends limit start [] result (start + 1) := by
  refine ⟨Nat.zero_le _, Nat.le_succ _, Nat.le_refl _, ?_⟩
  rcases h with hlt | hout
  · omega
  · rw [hout]
    simp only [Bool.toNat_true]
    omega

theorem last (h : start < limit) (i : Instruction) : Spends limit start [i] result (start + 1) := by
  refine ⟨?_, Nat.le_refl _, Nat.le_succ _, ?_⟩
  · rw [List.length_singleton]
    omega
  · omega

theorem cons (h : start < limit) (i : Instruction)
    (hs : Spends limit (start + 1) instructions result stop) :
    Spends limit start (i :: instructions) result stop := by
  obtain ⟨hleft, hcounted, hbesides, hstops⟩ := hs
  have hlength : (i :: instructions).length = instructions.length + 1 := List.length_cons
  exact ⟨by omega, by omega, by omega, by omega⟩

end Spends

theorem run_spends (hl : c.options.stepLimit = some limit)
    (h : Config.run c fuel config = some (result, s)) :
    Spends limit config.store.steps (Config.instructions c fuel config) result s.steps := by
  induction fuel generalizing config with
  | zero => cases h
  | succ fuel ih =>
    have hsteps := (step_effect c config).steps
    rw [Config.run] at h
    rw [Config.instructions]
    cases hi : config.instruction? c with
    | none =>
      -- The one step that is counted without an instruction: it ends the run, at the limit if
      -- there are no steps left.
      obtain ⟨e, hstep⟩ := step_of_instruction?_none hi
      rw [hstep] at h ⊢
      cases h
      refine .nothing ?_
      by_cases hleft : limit ≤ config.store.steps
      · rw [step_exhausted hl hleft] at hstep
        cases hstep
        exact .inr rfl
      · exact .inl (by omega)
    | some i =>
      have hlt := steps_lt_of_instruction? hl hi
      cases hs : config.step c with
      | running next =>
        rw [hs] at h hsteps
        have hnext : next.store.steps = config.store.steps + 1 := hsteps
        exact .cons hlt i (hnext ▸ ih h)
      | finished v s' =>
        rw [hs] at h hsteps
        cases h
        exact hsteps ▸ .last hlt i
      | failed e s' =>
        rw [hs] at h hsteps
        cases h
        exact hsteps ▸ .last hlt i

theorem exceeded_of_run (hl : c.options.stepLimit = some limit)
    (h : Config.run c fuel config = some (result, s)) (hout : ranOut result = true) :
    limit < s.steps := by
  induction fuel generalizing config with
  | zero => cases h
  | succ fuel ih =>
    rw [Config.run] at h
    cases hs : config.step c with
    | running next =>
      rw [hs] at h
      exact ih h
    | finished v s' =>
      rw [hs] at h
      cases h
      cases hout
    | failed e s' =>
      rw [hs] at h
      cases h
      cases e with
      | stepLimitExceeded l => exact exceeded_of_step hl hs
      | fault | unknownRoutine | unknownField | callDepthExceeded | output | load => cases hout

theorem run_exhausted (hl : c.options.stepLimit = some limit) (h : limit ≤ config.store.steps) :
    Config.run c (fuel + 1) config =
      some (.error (.stepLimitExceeded limit), config.store.counted) := by
  rw [Config.run, step_exhausted hl h]

theorem instructions_exhausted (hl : c.options.stepLimit = some limit)
    (h : limit ≤ config.store.steps) : Config.instructions c fuel config = [] := by
  cases fuel with
  | zero => rfl
  | succ fuel =>
    rw [Config.instructions, step_exhausted hl h, instruction?_exhausted hl h]
    rfl

end

end PZero.Machine
