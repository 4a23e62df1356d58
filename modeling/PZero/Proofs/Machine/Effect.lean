import PZero.Proofs.Machine.Recursion

/-! # What a run leaves behind

An instruction that is carried out leaves the store as it was, stores a value in a
field or prints a text. A step counts itself besides. So the count grows with every
step, what was printed stays printed, and more fuel changes nothing about a run that
has come to its end.
-/
namespace PZero.Machine
open Bytecode

/-! ## One instruction -/

/-- The store with which a run goes on comes from an effect. -/
def HasEffect (sink : Sink) (s : Store) (x : Except Error Flow) : Prop :=
  ∀ f s', x = .ok (.next f s') → Effect sink s s'

namespace HasEffect
variable {α : Type} {sink : Sink} {s : Store}

theorem bind {x : Except Error α} {g : α → Except Error Flow} (h : ∀ a, HasEffect sink s (g a)) :
    HasEffect sink s (x >>= g) := by
  cases x with
  | error e => exact fun f s' h => nomatch h
  | ok a => exact h a

theorem error (e : Error) : HasEffect sink s (throw e) := fun _ _ h => nomatch h

end HasEffect

theorem perform_hasEffect (c : Setting) (f : Frame) (s : Store) (i : Instruction) :
    HasEffect c.sink s (perform c f s i) := by
  intro f' s' h
  have hplace := perform_atPlace c f s i
  rw [h] at hplace
  exact hplace.2.2.2

theorem print_eq_ok {s s' : Store} {sink : Sink} {text : String} (h : s.print sink text = .ok s') :
    s' = { s with output := s.output ++ text } := by
  unfold Store.print at h
  split at h
  · rename_i hempty
    cases h
    simp [String.isEmpty_iff.mp hempty]
  · split at h
    · cases h
    · cases h
      rfl

theorem Effect.steps {sink : Sink} {s s' : Store} (h : Effect sink s s') : s'.steps = s.steps := by
  cases h with
  | keep => rfl
  | assign => rfl
  | print text h => rw [print_eq_ok h]

theorem Effect.output {sink : Sink} {s s' : Store} (h : Effect sink s s') :
    ∃ text, s'.output = s.output ++ text := by
  cases h with
  | keep => exact ⟨"", by simp⟩
  | assign => exact ⟨"", by simp [Store.setStatic]⟩
  | print text h => exact ⟨text, by rw [print_eq_ok h]⟩

/-! ## Steps and runs -/

/-- A store after one more step was counted. -/
def Store.counted (s : Store) : Store := { s with steps := s.steps + 1 }

/-- Within the limit the instruction that a frame has come to is carried out. -/
theorem attempt_of_perform {c : Setting} {f : Frame} {s : Store} {i : Instruction} {flow : Flow}
    (hlimit : c.options.exceeded? (s.steps + 1) = none) (hi : f.routine.code[f.pc]? = some i)
    (hp : perform c f.fetched s.counted i = .ok flow) :
    attempt c f s = (.ok flow, s.counted) := by
  have hfetch : f.fetch = .ok (i, f.fetched) := by
    simp only [Frame.fetch, hi]
    rfl
  simp only [attempt, hlimit, hfetch]
  exact congrArg (·, s.counted) hp

def Outcome.store : Outcome → Store
  | running c => c.store
  | finished _ s => s
  | failed _ s => s

theorem attempt_snd (c : Setting) (frame : Frame) (store : Store) :
    (attempt c frame store).2 = store.counted := by
  unfold attempt
  cases hlimit : c.options.exceeded? (store.steps + 1) <;> simp only [hlimit] <;> rfl

theorem attempt_hasEffect (c : Setting) (frame : Frame) (store : Store) :
    HasEffect c.sink store.counted (attempt c frame store).1 := by
  unfold attempt
  cases hlimit : c.options.exceeded? (store.steps + 1) with
  | some limit =>
    simp only [hlimit]
    exact .error _
  | none =>
    simp only [hlimit]
    exact .bind fun p => perform_hasEffect c p.2 _ p.1

/-- A step counts itself and has the effect of its instruction. -/
theorem step_effect (c : Setting) (config : Config) :
    Effect c.sink config.store.counted (config.step c).store := by
  obtain ⟨frame, callers, store⟩ := config
  have hcounted := attempt_snd c frame store
  have heffect := attempt_hasEffect c frame store
  rw [step_eq_attempt]
  generalize attempt c frame store = x at hcounted heffect
  obtain ⟨outcome, s⟩ := x
  obtain rfl : s = store.counted := hcounted
  cases outcome with
  | error e => exact .keep
  | ok flow =>
    cases flow with
    | next f s' => exact heffect f s' rfl
    | call r arguments f =>
      simp only [Config.proceed]
      split <;> exact .keep
    | leave result => cases callers <;> exact .keep

/-- Nothing that was printed is lost and no step is taken back. -/
structure Store.Extends (s s' : Store) : Prop where
  output : ∃ text, s'.output = s.output ++ text
  steps : s.steps ≤ s'.steps

namespace Store.Extends
variable {s s' s'' : Store}

theorem refl (s : Store) : s.Extends s := ⟨⟨"", by simp⟩, Nat.le_refl _⟩

theorem trans (h : s.Extends s') (h' : s'.Extends s'') : s.Extends s'' := by
  obtain ⟨⟨text, ht⟩, hsteps⟩ := h
  obtain ⟨⟨text', ht'⟩, hsteps'⟩ := h'
  exact ⟨⟨text ++ text', by rw [ht', ht, String.append_assoc]⟩, Nat.le_trans hsteps hsteps'⟩

theorem counted (s : Store) : s.Extends s.counted := ⟨⟨"", by simp [Store.counted]⟩, Nat.le_succ _⟩

theorem of_effect {sink : Sink} (h : Effect sink s s') : s.Extends s' :=
  ⟨h.output, Nat.le_of_eq h.steps.symm⟩

end Store.Extends

/-- A run extends the store with which its first step begins. -/
theorem run_extends {c : Setting} {fuel : Nat} {config : Config}
    {result : Except Error (Option Value)} {s : Store}
    (h : Config.run c fuel config = some (result, s)) : config.store.counted.Extends s := by
  induction fuel generalizing config with
  | zero => cases h
  | succ fuel ih =>
    have hstep := Store.Extends.of_effect (step_effect c config)
    rw [Config.run] at h
    cases hs : config.step c with
    | running next =>
      rw [hs] at h hstep
      exact (hstep.trans (.counted _)).trans (ih h)
    | finished result s' =>
      rw [hs] at h hstep
      cases h
      exact hstep
    | failed e s' =>
      rw [hs] at h hstep
      cases h
      exact hstep

theorem run_succ {c : Setting} {fuel : Nat} {config : Config}
    {x : Except Error (Option Value) × Store} (h : Config.run c fuel config = some x) :
    Config.run c (fuel + 1) config = some x := by
  induction fuel generalizing config with
  | zero => cases h
  | succ fuel ih =>
    rw [Config.run] at h ⊢
    cases hs : config.step c with
    | running next =>
      rw [hs] at h
      exact ih h
    | finished result s => simpa [hs] using h
    | failed e s => simpa [hs] using h

theorem run_le {c : Setting} {fuel fuel' : Nat} {config : Config}
    {x : Except Error (Option Value) × Store} (h : Config.run c fuel config = some x)
    (hle : fuel ≤ fuel') : Config.run c fuel' config = some x := by
  induction hle with
  | refl => exact h
  | step _ ih => exact run_succ ih

theorem run_none {c : Setting} {fuel fuel' : Nat} {config : Config}
    (h : Config.run c fuel config = none) (hle : fuel' ≤ fuel) : Config.run c fuel' config = none := by
  cases hr : Config.run c fuel' config with
  | none => rfl
  | some x => rw [run_le hr hle] at h; cases h

end PZero.Machine
