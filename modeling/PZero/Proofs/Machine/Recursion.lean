import PZero.Machine.Basic
import PZero.Proofs.Machine.Budget

/-! # Calls by recursion

The machine keeps the frames that wait for a result in a list. The evaluator here
has no such list: it carries out the instructions of one activation, and a call is
an evaluation of the called routine one level deeper, after which the caller goes
on. Both do the same, whatever the module looks like: what is on the list of callers
is what the recursion still has to do.
-/
namespace PZero.Machine
open Bytecode

/-! ## The evaluator -/

/-- Counts a step, fetches the next instruction of an activation and carries it out. The store is
the one of an instruction that fails, calls or leaves. -/
def attempt (c : Setting) (frame : Frame) (store : Store) : Except Error Flow × Store :=
  let s := { store with steps := store.steps + 1 }
  match c.options.exceeded? s.steps with
  | some limit => (.error (.stepLimitExceeded limit), s)
  | none => (do let (i, f) ← frame.fetch; perform c f s i, s)

/-- Carries out an activation that is the given number of activations deep, itself included; the
outermost one has depth 1. `none` when the fuel does not last. -/
def evaluate (c : Setting) :
    Nat → Nat → Frame → Store → Option (Except Error (Option Value) × Store)
  | 0, _, _, _ => none
  | fuel + 1, depth, frame, store =>
    match attempt c frame store with
    | (.error e, s) => some (.error e, s)
    | (.ok (.next f s), _) => evaluate c fuel depth f s
    | (.ok (.leave result), s) => some (.ok result, s)
    | (.ok (.call r arguments f), s) =>
      if c.options.maxCallDepth ≤ depth then
        some (.error (.callDepthExceeded c.options.maxCallDepth), s)
      else
        match evaluate c fuel (depth + 1) (Frame.enter r arguments) s with
        | some (.ok result, s) => evaluate c fuel depth (f.receive result) s
        | failed => failed

/-- A step of the machine is an attempt of the running frame. -/
theorem step_eq_attempt (c : Setting) (frame : Frame) (callers : List Frame) (store : Store) :
    Config.step c ⟨frame, callers, store⟩ =
      match attempt c frame store with
      | (.error e, s) => .failed e s
      | (.ok flow, s) => Config.proceed c callers s flow := by
  unfold Config.step attempt
  cases hlimit : c.options.exceeded? (store.steps + 1) with
  | some limit => simp only [hlimit]
  | none =>
    simp only [hlimit]
    cases hfetch : frame.fetch with
    | error e => rfl
    | ok p =>
      obtain ⟨i, f⟩ := p
      simp only [bind, Except.bind]
      cases perform c f { store with steps := store.steps + 1 } i <;> rfl

section
-- The equations are made here, once for all the cases below.
attribute [local simp] evaluate
variable {c : Setting} {fuel depth : Nat} {frame f : Frame} {store s : Store}
  {r : Routine} {arguments : List Value}

theorem evaluate_error {e : Error} (h : attempt c frame store = (.error e, s)) :
    evaluate c (fuel + 1) depth frame store = some (.error e, s) := by
  simp only [evaluate, h]

theorem evaluate_next {s' : Store} (h : attempt c frame store = (.ok (.next f s'), s)) :
    evaluate c (fuel + 1) depth frame store = evaluate c fuel depth f s' := by
  simp only [evaluate, h]

theorem evaluate_leave {result : Option Value}
    (h : attempt c frame store = (.ok (.leave result), s)) :
    evaluate c (fuel + 1) depth frame store = some (.ok result, s) := by
  simp only [evaluate, h]

theorem evaluate_refused (h : attempt c frame store = (.ok (.call r arguments f), s))
    (hdepth : c.options.maxCallDepth ≤ depth) :
    evaluate c (fuel + 1) depth frame store =
      some (.error (.callDepthExceeded c.options.maxCallDepth), s) := by
  simp only [evaluate, h, if_pos hdepth]

theorem evaluate_call (h : attempt c frame store = (.ok (.call r arguments f), s))
    (hdepth : ¬ c.options.maxCallDepth ≤ depth) :
    evaluate c (fuel + 1) depth frame store =
      match evaluate c fuel (depth + 1) (Frame.enter r arguments) s with
      | some (.ok result, s) => evaluate c fuel depth (f.receive result) s
      | failed => failed := by
  simp only [evaluate, h, if_neg hdepth]

end

/-- More fuel changes no result. -/
theorem evaluate_succ {c : Setting} {fuel depth : Nat} {frame : Frame} {store : Store}
    {x : Except Error (Option Value) × Store} (h : evaluate c fuel depth frame store = some x) :
    evaluate c (fuel + 1) depth frame store = some x := by
  induction fuel generalizing depth frame store x with
  | zero => cases h
  | succ fuel ih =>
    cases ha : attempt c frame store with
    | mk outcome s =>
      cases outcome with
      | error e =>
        rw [evaluate_error ha] at h ⊢
        exact h
      | ok flow =>
        cases flow with
        | next f s' =>
          rw [evaluate_next ha] at h ⊢
          exact ih h
        | leave result =>
          rw [evaluate_leave ha] at h ⊢
          exact h
        | call r arguments f =>
          by_cases hdepth : c.options.maxCallDepth ≤ depth
          · rw [evaluate_refused ha hdepth] at h ⊢
            exact h
          · rw [evaluate_call ha hdepth] at h ⊢
            cases hcallee : evaluate c fuel (depth + 1) (Frame.enter r arguments) s with
            | none => rw [hcallee] at h; cases h
            | some y =>
              obtain ⟨outcome, s'⟩ := y
              rw [hcallee] at h
              rw [ih hcallee]
              cases outcome with
              | error e => exact h
              | ok result => exact ih h

theorem evaluate_le {c : Setting} {fuel fuel' depth : Nat} {frame : Frame} {store : Store}
    {x : Except Error (Option Value) × Store} (h : evaluate c fuel depth frame store = some x)
    (hle : fuel ≤ fuel') : evaluate c fuel' depth frame store = some x := by
  induction hle with
  | refl => exact h
  | step _ ih => exact evaluate_succ ih

/-! ## The list of callers is the rest of the recursion -/

/-- What the machine does when the running activation has ended: it fails, or the innermost caller
goes on with the result. -/
def resume (c : Setting) (fuel : Nat) (callers : List Frame) :
    Except Error (Option Value) × Store → Option (Except Error (Option Value) × Store)
  | (.error e, s) => some (.error e, s)
  | (.ok result, s) =>
    match callers with
    | [] => some (.ok result, s)
    | caller :: rest => Config.run c fuel ⟨caller.receive result, rest, s⟩

theorem resume_nil (c : Setting) (fuel : Nat) (x : Except Error (Option Value) × Store) :
    resume c fuel [] x = some x := by
  obtain ⟨outcome, s⟩ := x
  cases outcome <;> rfl

section
attribute [local simp] Config.run Config.proceed
variable {c : Setting} {frame f : Frame} {callers : List Frame} {store s : Store}
  {r : Routine} {arguments : List Value}

theorem run_error {e : Error} (h : attempt c frame store = (.error e, s)) (fuel : Nat) :
    Config.run c (fuel + 1) ⟨frame, callers, store⟩ = some (.error e, s) := by
  simp only [Config.run, step_eq_attempt, h]

theorem run_next {s' : Store} (h : attempt c frame store = (.ok (.next f s'), s)) (fuel : Nat) :
    Config.run c (fuel + 1) ⟨frame, callers, store⟩ = Config.run c fuel ⟨f, callers, s'⟩ := by
  simp only [Config.run, step_eq_attempt, h, Config.proceed]

theorem run_leave {result : Option Value} (h : attempt c frame store = (.ok (.leave result), s))
    (fuel : Nat) :
    Config.run c (fuel + 1) ⟨frame, callers, store⟩ = resume c fuel callers (.ok result, s) := by
  simp only [Config.run, step_eq_attempt, h, Config.proceed]
  cases callers <;> rfl

theorem run_refused (h : attempt c frame store = (.ok (.call r arguments f), s))
    (hdepth : c.options.maxCallDepth ≤ callers.length + 1) (fuel : Nat) :
    Config.run c (fuel + 1) ⟨frame, callers, store⟩ =
      some (.error (.callDepthExceeded c.options.maxCallDepth), s) := by
  simp only [Config.run, step_eq_attempt, h, Config.proceed, if_pos hdepth]

theorem run_call (h : attempt c frame store = (.ok (.call r arguments f), s))
    (hdepth : ¬ c.options.maxCallDepth ≤ callers.length + 1) (fuel : Nat) :
    Config.run c (fuel + 1) ⟨frame, callers, store⟩ =
      Config.run c fuel ⟨Frame.enter r arguments, f :: callers, s⟩ := by
  simp only [Config.run, step_eq_attempt, h, Config.proceed, if_neg hdepth]

end

/-- The machine does what an evaluation does and then resumes the callers. -/
theorem run_of_evaluate {c : Setting} {fuel : Nat} {frame : Frame} {callers : List Frame}
    {store : Store} {x : Except Error (Option Value) × Store}
    (h : evaluate c fuel (callers.length + 1) frame store = some x) :
    ∃ k, ∀ n, Config.run c (n + k) ⟨frame, callers, store⟩ = resume c n callers x := by
  induction fuel generalizing frame callers store x with
  | zero => cases h
  | succ fuel ih =>
    cases ha : attempt c frame store with
    | mk outcome s =>
      cases outcome with
      | error e =>
        rw [evaluate_error ha] at h
        cases h
        exact ⟨1, fun n => run_error ha n⟩
      | ok flow =>
        cases flow with
        | next f s' =>
          rw [evaluate_next ha] at h
          obtain ⟨k, hk⟩ := ih h
          exact ⟨k + 1, fun n => (run_next ha (n + k)).trans (hk n)⟩
        | leave result =>
          rw [evaluate_leave ha] at h
          cases h
          exact ⟨1, fun n => run_leave ha n⟩
        | call r arguments f =>
          by_cases hdepth : c.options.maxCallDepth ≤ callers.length + 1
          · rw [evaluate_refused ha hdepth] at h
            cases h
            exact ⟨1, fun n => run_refused ha hdepth n⟩
          · rw [evaluate_call ha hdepth] at h
            cases hcallee : evaluate c fuel (callers.length + 1 + 1) (Frame.enter r arguments) s with
            | none => rw [hcallee] at h; cases h
            | some y =>
              obtain ⟨outcome, s'⟩ := y
              -- The called routine runs with the present frame as the innermost caller.
              have hinner : evaluate c fuel ((f :: callers).length + 1) (Frame.enter r arguments) s =
                  some (outcome, s') := hcallee
              obtain ⟨k, hk⟩ := ih hinner
              rw [hcallee] at h
              cases outcome with
              | error e =>
                cases h
                exact ⟨k + 1, fun n => (run_call ha hdepth (n + k)).trans (hk n)⟩
              | ok result =>
                obtain ⟨k', hk'⟩ := ih h
                refine ⟨k' + k + 1, fun n => ?_⟩
                calc Config.run c (n + (k' + k + 1)) ⟨frame, callers, store⟩
                    = Config.run c (n + k' + k) ⟨Frame.enter r arguments, f :: callers, s⟩ := by
                      rw [← Nat.add_assoc, ← Nat.add_assoc, run_call ha hdepth]
                  _ = Config.run c (n + k') ⟨f.receive result, callers, s'⟩ := hk (n + k')
                  _ = resume c n callers x := hk' n

/-- A run that ends has evaluated its running activation, and resumed the callers with less fuel. -/
theorem evaluate_of_run {c : Setting} {fuel : Nat} {frame : Frame} {callers : List Frame}
    {store : Store} {x : Except Error (Option Value) × Store}
    (h : Config.run c fuel ⟨frame, callers, store⟩ = some x) :
    ∃ n y, evaluate c n (callers.length + 1) frame store = some y ∧
      ∃ rest < fuel, resume c rest callers y = some x := by
  induction fuel using Nat.strong_induction_on generalizing frame callers store with
  | _ fuel ih =>
    cases fuel with
    | zero => cases h
    | succ fuel =>
      cases ha : attempt c frame store with
      | mk outcome s =>
        cases outcome with
        | error e =>
          rw [run_error ha] at h
          exact ⟨1, _, evaluate_error ha, fuel, Nat.lt_succ_self fuel, h⟩
        | ok flow =>
          cases flow with
          | next f s' =>
            rw [run_next ha] at h
            obtain ⟨n, y, hy, rest, hrest, hx⟩ := ih fuel (Nat.lt_succ_self fuel) h
            exact ⟨n + 1, y, (evaluate_next ha).trans hy, rest, by omega, hx⟩
          | leave result =>
            rw [run_leave ha] at h
            exact ⟨1, _, evaluate_leave ha, fuel, Nat.lt_succ_self fuel, h⟩
          | call r arguments f =>
            by_cases hdepth : c.options.maxCallDepth ≤ callers.length + 1
            · rw [run_refused ha hdepth] at h
              exact ⟨1, _, evaluate_refused ha hdepth, fuel, Nat.lt_succ_self fuel, h⟩
            · rw [run_call ha hdepth] at h
              obtain ⟨n, y, hy, rest, hrest, hx⟩ := ih fuel (Nat.lt_succ_self fuel) h
              obtain ⟨outcome, s'⟩ := y
              cases outcome with
              | error e =>
                refine ⟨n + 1, (.error e, s'), ?_, rest, by omega, hx⟩
                rw [evaluate_call ha hdepth]
                change evaluate c n (callers.length + 1 + 1) (Frame.enter r arguments) s = _ at hy
                rw [hy]
              | ok result =>
                -- The caller goes on, with less fuel than the whole run had.
                obtain ⟨n', y, hy', rest', hrest', hx'⟩ := ih rest (by omega) hx
                refine ⟨max n n' + 1, y, ?_, rest', by omega, hx'⟩
                have hcallee := evaluate_le hy (Nat.le_max_left n n')
                change evaluate c (max n n') (callers.length + 1 + 1) (Frame.enter r arguments) s = _
                  at hcallee
                rw [evaluate_call ha hdepth, hcallee]
                exact evaluate_le hy' (Nat.le_max_right n n')

/-! ## How many activations are live -/

/-- The configurations that a run passes through. -/
def Passes (c : Setting) : Config → Config → Prop :=
  Relation.ReflTransGen fun config next => config.step c = .running next

/-- The activations that have not ended. -/
def Config.live (config : Config) : Nat := config.callers.length + 1

/-- One step makes at most one more activation live, and only below the limit. -/
theorem live_of_step {c : Setting} {config next : Config} (h : config.step c = .running next) :
    next.live ≤ max config.live c.options.maxCallDepth := by
  obtain ⟨frame, callers, store⟩ := config
  rw [step_eq_attempt] at h
  cases ha : attempt c frame store with
  | mk outcome s =>
    rw [ha] at h
    cases outcome with
    | error e => cases h
    | ok flow =>
      cases flow with
      | next f s' =>
        cases h
        exact Nat.le_max_left _ _
      | call r arguments f =>
        by_cases hdepth : c.options.maxCallDepth ≤ callers.length + 1
        · simp only [Config.proceed, if_pos hdepth] at h
          cases h
        · simp only [Config.proceed, if_neg hdepth] at h
          cases h
          have hlive : callers.length + 1 + 1 ≤ c.options.maxCallDepth := by omega
          exact Nat.le_trans hlive (Nat.le_max_right _ _)
      | leave result =>
        cases callers with
        | nil => cases h
        | cons caller rest =>
          cases h
          refine Nat.le_trans ?_ (Nat.le_max_left _ _)
          simp only [Config.live, List.length_cons]
          omega

theorem live_of_passes {c : Setting} {config config' : Config} (h : Passes c config config')
    (hstart : config.live = 1) : config'.live ≤ max 1 c.options.maxCallDepth := by
  induction h with
  | refl => rw [hstart]; exact Nat.le_max_left _ _
  | tail _ hstep ih =>
    have hnext := live_of_step hstep
    omega

/-! ## Which calls are refused -/

/-- An attempt exceeds the budget only when no step is left. -/
theorem exceeded_of_attempt {c : Setting} {frame : Frame} {store : Store} {e : Error}
    (h : (attempt c frame store).1 = .error e) (he : e.IsBudget) :
    ∃ limit, c.options.exceeded? (store.steps + 1) = some limit ∧ e = .stepLimitExceeded limit := by
  unfold attempt at h
  cases hlimit : c.options.exceeded? (store.steps + 1) with
  | some limit =>
    simp only [hlimit] at h
    cases h
    exact ⟨limit, rfl, rfl⟩
  | none =>
    simp only [hlimit] at h
    have hbudget : WithinBudget (do
        let (i, f) ← frame.fetch
        perform c f { store with steps := store.steps + 1 } i) :=
      (WithinBudget.fetch frame).bind fun p => perform_withinBudget c p.2 _ p.1
    exact (hbudget e h he).elim

theorem attempt_ne_callDepthExceeded (c : Setting) (frame : Frame) (store : Store) (limit : Nat) :
    (attempt c frame store).1 ≠ .error (.callDepthExceeded limit) := by
  intro h
  obtain ⟨_, -, heq⟩ := exceeded_of_attempt h trivial
  cases heq

/-- Only a call fails because of its depth, and only when the limit is reached. -/
theorem call_of_callDepthExceeded {c : Setting} {config : Config} {limit : Nat} {s : Store}
    (h : config.step c = .failed (.callDepthExceeded limit) s) :
    limit = c.options.maxCallDepth ∧ c.options.maxCallDepth ≤ config.live ∧
      ∃ r arguments f, attempt c config.frame config.store = (.ok (.call r arguments f), s) := by
  obtain ⟨frame, callers, store⟩ := config
  rw [step_eq_attempt] at h
  cases ha : attempt c frame store with
  | mk outcome s' =>
    rw [ha] at h
    cases outcome with
    | error e =>
      cases h
      exact absurd (congrArg Prod.fst ha) (attempt_ne_callDepthExceeded c frame store limit)
    | ok flow =>
      cases flow with
      | next f s'' => cases h
      | leave result => cases callers <;> cases h
      | call r arguments f =>
        by_cases hdepth : c.options.maxCallDepth ≤ callers.length + 1
        · simp only [Config.proceed, if_pos hdepth] at h
          cases h
          exact ⟨rfl, hdepth, r, arguments, f, rfl⟩
        · simp only [Config.proceed, if_neg hdepth] at h
          cases h

/-! ## The machine and the evaluator -/

theorem run_iff_evaluate {c : Setting} {frame : Frame} {store : Store}
    {x : Except Error (Option Value) × Store} :
    (∃ fuel, Config.run c fuel { frame, store } = some x) ↔
      ∃ fuel, evaluate c fuel 1 frame store = some x := by
  constructor
  · rintro ⟨fuel, h⟩
    obtain ⟨n, y, hy, rest, -, hx⟩ := evaluate_of_run h
    rw [resume_nil] at hx
    exact ⟨n, hy.trans hx⟩
  · rintro ⟨fuel, h⟩
    have houtermost : evaluate c fuel (([] : List Frame).length + 1) frame store = some x := h
    obtain ⟨k, hk⟩ := run_of_evaluate houtermost
    exact ⟨0 + k, (hk 0).trans (resume_nil c 0 x)⟩

/-- The machine returns from a routine just when the recursive evaluator does, with the same result
or error, output, fields and number of steps, whatever the module, the machine and the sink are like.
There are never more activations than the limit allows, the outermost one apart, and a call is
refused for its depth only when there are as many already. -/
theorem execute_iff_evaluate (machine : Machine) (sink : Sink) (r : Routine)
    (arguments : List Value) (output : String) :
    let c : Setting := ⟨machine.module, machine.options, sink⟩
    let store : Store := ⟨machine.statics, machine.steps, output⟩
    let start : Config := { frame := Frame.enter r arguments, store }
    (∀ report, (∃ fuel, machine.execute sink fuel r arguments output = some report) ↔
      ∃ fuel result s, evaluate c fuel 1 (Frame.enter r arguments) store = some (result, s) ∧
        report = ⟨result, s.output, { machine with statics := s.statics, steps := s.steps }⟩) ∧
    (∀ config, Passes c start config → config.live ≤ max 1 machine.options.maxCallDepth) ∧
    ∀ config limit s, Passes c start config →
      config.step c = .failed (.callDepthExceeded limit) s →
      limit = machine.options.maxCallDepth ∧
        config.live = max 1 machine.options.maxCallDepth ∧
        ∃ callee arguments f,
          attempt c config.frame config.store = (.ok (.call callee arguments f), s) := by
  intro c store start
  have hlive : ∀ config, Passes c start config →
      config.live ≤ max 1 machine.options.maxCallDepth :=
    fun config h => live_of_passes h rfl
  refine ⟨fun report => ?_, hlive, ?_⟩
  · constructor
    · rintro ⟨fuel, h⟩
      obtain ⟨⟨result, s⟩, hrun, rfl⟩ := Option.map_eq_some_iff.mp h
      obtain ⟨fuel', hevaluate⟩ := run_iff_evaluate.mp ⟨fuel, hrun⟩
      exact ⟨fuel', result, s, hevaluate, rfl⟩
    · rintro ⟨fuel, result, s, h, rfl⟩
      obtain ⟨fuel', hrun⟩ := run_iff_evaluate.mpr ⟨fuel, h⟩
      exact ⟨fuel', Option.map_eq_some_iff.mpr ⟨(result, s), hrun, rfl⟩⟩
  · intro config limit s hpasses hstep
    obtain ⟨rfl, hle, hcall⟩ := call_of_callDepthExceeded hstep
    have hmost := hlive config hpasses
    have hone : 1 ≤ config.live := Nat.le_add_left 1 _
    exact ⟨rfl, Nat.le_antisymm hmost (Nat.max_le.mpr ⟨hone, hle⟩), hcall⟩

/-- Adds up the numbers from its argument down to zero, one activation for each. -/
def descending : Routine where
  name := "sum"
  descriptor := ⟨[.int], some .int⟩
  maxLocals := 1
  code := #[.iload 0, .ifZero .eq 9, .iload 0, .iload 0, .iconst 1, .isub,
    .invoke ⟨"demo", "sum", ⟨[.int], some .int⟩⟩, .iadd, .iret, .iconst 0, .iret]

def descendingMachine : Machine :=
  ofModule ⟨"demo", [], [descending]⟩ { maxCallDepth := 3 }

/-- Three activations are as many as there may be, and a fourth one is refused. -/
theorem execute_iff_evaluate_descending :
    (descendingMachine.execute {} 40 descending [.int 2] "").map (·.result) =
        some (.ok (some (.int 3))) ∧
      (descendingMachine.execute {} 40 descending [.int 3] "").map (·.result) =
        some (.error (.callDepthExceeded 3)) ∧
      ∃ fuel s, evaluate ⟨descendingMachine.module, descendingMachine.options, {}⟩ fuel 1
        (Frame.enter descending [.int 2]) ⟨[], 0, ""⟩ = some (.ok (some (.int 3)), s) := by
  have hresult : (descendingMachine.execute {} 40 descending [.int 2] "").map (·.result) =
      some (.ok (some (.int 3))) := by decide +kernel
  refine ⟨hresult, by decide +kernel, ?_⟩
  obtain ⟨report, hreport, hthree⟩ := Option.map_eq_some_iff.mp hresult
  have hboth := (execute_iff_evaluate descendingMachine {} descending [.int 2] "").1 report
  obtain ⟨fuel, result, s, hevaluate, rfl⟩ := hboth.mp ⟨40, hreport⟩
  obtain rfl : result = .ok (some (.int 3)) := hthree
  exact ⟨fuel, s, hevaluate⟩

end PZero.Machine
