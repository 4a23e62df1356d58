import PZero.Proofs.Machine.Effect

/-! # Limits only cut a run short

A run that ends without having met a limit, or a sink that refuses a text, ends in
the same way under wider limits. A step limit counts as wide when it allows for as
many steps as the run has fuel.
-/
namespace PZero.Machine
open Bytecode

/-- The errors that depend on the options or on the sink. -/
def Error.IsLimit : Error → Prop
  | callDepthExceeded _ | stepLimitExceeded _ | output _ => True
  | fault .. | unknownRoutine _ | unknownField _ | load _ => False

/-- A run that was cut short. -/
def Limited {α : Type} : Except Error α → Prop
  | .ok _ => False
  | .error e => e.IsLimit

/-! ## One instruction -/

/-- The store with which a run goes on keeps the number of steps. -/
def KeepsSteps (s : Store) (x : Except Error Flow) : Prop :=
  ∀ f s', x = .ok (.next f s') → s'.steps = s.steps

theorem perform_keepsSteps (c : Setting) (f : Frame) (s : Store) (i : Instruction) :
    KeepsSteps s (perform c f s i) :=
  fun f' s' h => (perform_hasEffect c f s i f' s' h).steps

/-- A text that was taken is taken by every sink that refuses nothing. -/
theorem print_accepted {s s' : Store} {sink sink' : Sink} {text : String}
    (hsink : ∀ before text, sink'.refuses before text = none)
    (h : s.print sink text = .ok s') : s.print sink' text = .ok s' := by
  unfold Store.print at h ⊢
  by_cases ht : text.isEmpty
  · rw [if_pos ht] at h ⊢
    exact h
  · rw [if_neg ht] at h ⊢
    rw [hsink]
    cases hr : sink.refuses s.output text with
    | none => rwa [hr] at h
    | some message => rw [hr] at h; cases h

theorem print_error {s : Store} {sink : Sink} {text : String} {e : Error}
    (h : s.print sink text = .error e) : e.IsLimit := by
  unfold Store.print at h
  split at h
  · cases h
  · split at h
    · cases h
      trivial
    · cases h

/-- Two computations are the same, but for the sink that they print a text to at their end. -/
def SameButSink (s : Store) (sink sink' : Sink) (x x' : Except Error Flow) : Prop :=
  x' = x ∨ ∃ (f : Frame) (text : String), x = (do return .next f (← s.print sink text)) ∧
    x' = (do return .next f (← s.print sink' text))

theorem SameButSink.bind {α : Type} {s : Store} {sink sink' : Sink} {x : Except Error α}
    {g g' : α → Except Error Flow} (h : ∀ a, SameButSink s sink sink' (g a) (g' a)) :
    SameButSink s sink sink' (x >>= g) (x >>= g') := by
  cases x with
  | error e => exact .inl rfl
  | ok a => exact h a

theorem perform_sameButSink (m : Module) (o o' : Options) (sink sink' : Sink) (f : Frame) (s : Store)
    (i : Instruction) :
    SameButSink s sink sink' (perform ⟨m, o, sink⟩ f s i) (perform ⟨m, o', sink'⟩ f s i) := by
  cases i with
  | print t =>
    refine .bind fun v => .bind fun f => ?_
    cases printed? t v.1 with
    | some text => exact .inr ⟨f, text, rfl, rfl⟩
    | none => exact .inl rfl
  | printFixed places => exact .bind fun v => .bind fun f => .inr ⟨f, _, rfl, rfl⟩
  | printNewline => exact .bind fun f => .inr ⟨f, _, rfl, rfl⟩
  | _ => exact .inl rfl

/-- The second computation does what the first one does, unless that meets a limit. -/
def Transfers (x x' : Except Error Flow) : Prop := ¬ Limited x → x' = x

theorem Transfers.print {s : Store} {sink sink' : Sink} (text : String) (f : Frame)
    (hsink : ∀ before text, sink'.refuses before text = none) :
    Transfers (do return .next f (← s.print sink text)) (do return .next f (← s.print sink' text)) := by
  intro hx
  cases hp : s.print sink text with
  | error e =>
    rw [hp] at hx
    exact (hx (print_error hp)).elim
  | ok s' => rw [print_accepted hsink hp]

theorem perform_transfers {m : Module} {o o' : Options} {sink sink' : Sink} (f : Frame) (s : Store)
    (i : Instruction) (hsink : ∀ before text, sink'.refuses before text = none) :
    Transfers (perform ⟨m, o, sink⟩ f s i) (perform ⟨m, o', sink'⟩ f s i) := by
  obtain h | ⟨f', text, hx, hx'⟩ := perform_sameButSink m o o' sink sink' f s i
  · exact fun _ => h
  · rw [hx, hx']
    exact .print text f' hsink

/-- An instruction that ends in a fault offers nothing to the sink: with every sink it ends so. -/
theorem perform_fault {m : Module} {o : Options} {sink : Sink} {f : Frame} {s : Store}
    {i : Instruction} {name : String} {pc : Nat} {e : Fault}
    (h : perform ⟨m, o, sink⟩ f s i = .error (.fault name pc e)) (sink' : Sink) :
    perform ⟨m, o, sink'⟩ f s i = .error (.fault name pc e) := by
  obtain hsame | ⟨f', text, hx, -⟩ := perform_sameButSink m o o sink sink' f s i
  · exact hsame.trans h
  · rw [hx] at h
    cases hp : s.print sink text with
    | ok s' =>
      rw [hp] at h
      cases h
    | error e' =>
      rw [hp] at h
      cases h
      exact (print_error hp).elim

/-! ## Runs -/

/-- The second setting has the same module and wider limits for a run of the given length. -/
structure Widens (c c' : Setting) (steps : Nat) : Prop where
  module : c'.module = c.module
  maxCallDepth : c.options.maxCallDepth ≤ c'.options.maxCallDepth
  stepLimit : ∀ limit, c'.options.stepLimit = some limit → steps ≤ limit
  accepts : ∀ before text, c'.sink.refuses before text = none

theorem Widens.le {c c' : Setting} {steps steps' : Nat} (h : Widens c c' steps)
    (hle : steps' ≤ steps) : Widens c c' steps' :=
  ⟨h.module, h.maxCallDepth, fun limit hl => Nat.le_trans hle (h.stepLimit limit hl), h.accepts⟩

theorem exceeded?_eq_none {o : Options} {steps : Nat}
    (h : ∀ limit, o.stepLimit = some limit → steps ≤ limit) : o.exceeded? steps = none := by
  unfold Options.exceeded?
  cases ho : o.stepLimit with
  | none => rfl
  | some limit =>
    have hle := h limit ho
    simp only [Option.bind_some]
    rw [if_neg (by omega)]

/-- What a step leads to, unless it meets a limit. -/
theorem step_transfer {c c' : Setting} {cfg : Config} (h : Widens c c' (cfg.store.steps + 1)) :
    (∃ e s, cfg.step c = .failed e s ∧ e.IsLimit) ∨
      (cfg.step c' = cfg.step c ∧
        ∀ next, cfg.step c = .running next → next.store.steps = cfg.store.steps + 1) := by
  obtain ⟨m, o, sink⟩ := c
  obtain ⟨m', o', sink'⟩ := c'
  obtain rfl : m' = m := h.module
  have hexceeded : o'.exceeded? (cfg.store.steps + 1) = none := exceeded?_eq_none h.stepLimit
  simp only [Config.step, hexceeded]
  cases hlimit : o.exceeded? (cfg.store.steps + 1) with
  | some limit => exact .inl ⟨_, _, rfl, trivial⟩
  | none =>
    cases hfetch : cfg.frame.fetch with
    | error e => exact .inr ⟨rfl, fun _ h => nomatch h⟩
    | ok p =>
      obtain ⟨i, f⟩ := p
      simp only
      have ht := @perform_transfers m' o o' sink sink' f
        { cfg.store with steps := cfg.store.steps + 1 } i h.accepts
      have hk := perform_keepsSteps ⟨m', o, sink⟩ f { cfg.store with steps := cfg.store.steps + 1 } i
      cases hp : perform ⟨m', o, sink⟩ f { cfg.store with steps := cfg.store.steps + 1 } i with
      | error e =>
        by_cases he : e.IsLimit
        · exact .inl ⟨e, _, rfl, he⟩
        · rw [hp] at ht
          rw [ht he]
          exact .inr ⟨rfl, fun _ h => nomatch h⟩
      | ok flow =>
        rw [hp] at ht hk
        rw [ht id]
        cases flow with
        | next f' s' =>
          refine .inr ⟨rfl, fun next hnext => ?_⟩
          cases hnext
          exact hk f' s' rfl
        | leave v =>
          refine .inr ⟨rfl, fun next hnext => ?_⟩
          cases hcallers : cfg.callers with
          | nil => rw [hcallers] at hnext; cases hnext
          | cons caller rest => rw [hcallers] at hnext; cases hnext; rfl
        | call r arguments f' =>
          simp only [Config.proceed]
          by_cases hd : o.maxCallDepth ≤ cfg.callers.length + 1
          · rw [if_pos hd]
            exact .inl ⟨_, _, rfl, trivial⟩
          · have hd' : ¬ o'.maxCallDepth ≤ cfg.callers.length + 1 := by
              have hle : o.maxCallDepth ≤ o'.maxCallDepth := h.maxCallDepth
              omega
            rw [if_neg hd, if_neg hd']
            refine .inr ⟨rfl, fun next hnext => ?_⟩
            cases hnext
            rfl

/-- A run that meets no limit is the same under wider ones. -/
theorem run_transfer {c c' : Setting} {fuel : Nat} {cfg : Config}
    (h : Widens c c' (cfg.store.steps + fuel)) {result : Except Error (Option Value)} {s : Store}
    (hr : Config.run c fuel cfg = some (result, s)) (hl : ¬ Limited result) :
    Config.run c' fuel cfg = some (result, s) := by
  induction fuel generalizing cfg with
  | zero => cases hr
  | succ fuel ih =>
    rw [Config.run] at hr ⊢
    have hone : Widens c c' (cfg.store.steps + 1) := h.le (by omega)
    rcases step_transfer hone with ⟨e, s', hs, he⟩ | ⟨hs, hnext⟩
    · rw [hs] at hr
      cases hr
      exact (hl he).elim
    · rw [hs]
      cases hstep : cfg.step c with
      | running next =>
        rw [hstep] at hr
        have hsteps := hnext next hstep
        exact ih (h.le (by omega)) hr
      | finished result s' => rw [hstep] at hr; exact hr
      | failed e s' => rw [hstep] at hr; exact hr

end PZero.Machine
