import PZero.Proofs.Lowering.Module
import PZero.Proofs.Lowering.Place
import PZero.Proofs.Machine.Effect
import PZero.Proofs.Reference

/-! # Simulation of an evaluation by the machine

An evaluation of the reference semantics is matched against runs of the machine
that start from a set of configurations. If it is done, the machine reaches a
configuration of another set; if it divides by zero, so does the machine, with the
same output; if its fuel does not last, neither does that of the machine, which is
what makes the relation work in both directions.
-/
namespace PZero.Simulation
open Bytecode Machine Rules Lowering
open Typed (Literal)
open Reference (World)

/-! ## Runs -/

/-- Nothing but the number of active routines is limited. -/
structure Generous (c : Setting) : Prop where
  stepLimit : c.options.stepLimit = none
  accepts : ∀ before text, c.sink.refuses before text = none

/-- After some steps a run goes on from another configuration. -/
def Reaches (c : Setting) (cfg cfg' : Config) : Prop :=
  ∃ k, ∀ fuel, Config.run c (fuel + k) cfg = Config.run c fuel cfg'

namespace Reaches
variable {c : Setting} {cfg cfg' cfg'' : Config}

theorem refl (c : Setting) (cfg : Config) : Reaches c cfg cfg := ⟨0, fun _ => rfl⟩

theorem trans (h : Reaches c cfg cfg') (h' : Reaches c cfg' cfg'') : Reaches c cfg cfg'' := by
  obtain ⟨k, hk⟩ := h
  obtain ⟨k', hk'⟩ := h'
  refine ⟨k' + k, fun fuel => ?_⟩
  rw [← Nat.add_assoc, hk, hk']

theorem of_step (h : cfg.step c = .running cfg') : Reaches c cfg cfg' :=
  ⟨1, fun fuel => by rw [Config.run, h]⟩

theorem run_eq_none (h : Reaches c cfg cfg') {n : Nat} (hn : Config.run c n cfg' = none) :
    Config.run c n cfg = none := by
  obtain ⟨k, hk⟩ := h
  exact run_none ((hk n).trans hn) (Nat.le_add_right n k)

end Reaches

/-- The run stops at a division by zero after printing a text. -/
def Divides (c : Setting) (cfg : Config) (output : String) : Prop :=
  ∃ k routine pc s, (∀ fuel, Config.run c (fuel + k) cfg =
    some (.error (.fault routine pc .divisionByZero), s)) ∧ s.output = output

theorem Divides.of_reaches {c : Setting} {cfg cfg' : Config} {output : String}
    (h : Reaches c cfg cfg') (hd : Divides c cfg' output) : Divides c cfg output := by
  obtain ⟨k, hk⟩ := h
  obtain ⟨k', routine, pc, s, hs, ho⟩ := hd
  refine ⟨k' + k, routine, pc, s, fun fuel => ?_, ho⟩
  rw [← Nat.add_assoc, hk, hs]

/-! ## The simulation -/

/-- From every configuration of `P` the machine does what the outcome says; `n` is the least number
of steps that an evaluation without enough fuel stands for. -/
def Simulates {α : Type} (c : Setting) (n : Nat) (P : Config → Prop) (o : Reference.Outcome α)
    (post : α → World → Config → Prop) : Prop :=
  ∀ cfg, P cfg →
    match o with
    | .done a w => ∃ cfg', Reaches c cfg cfg' ∧ post a w cfg'
    | .divisionByZero w => Divides c cfg w.output
    | .timeout => Config.run c n cfg = none
    | .stuck => False

namespace Simulates
variable {α β : Type} {c : Setting} {n : Nat} {P Q : Config → Prop} {o : Reference.Outcome α}
  {post post' : α → World → Config → Prop}

theorem done {a : α} {w : World} (h : ∀ cfg, P cfg → post a w cfg) :
    Simulates c n P (.done a w) post :=
  fun cfg hcfg => ⟨cfg, .refl c cfg, h cfg hcfg⟩

theorem bind {f : α → World → Reference.Outcome β} {final : β → World → Config → Prop}
    (h : Simulates c n P o post) (hf : ∀ a w, Simulates c n (post a w) (f a w) final) :
    Simulates c n P (o.bind f) final := by
  intro cfg hcfg
  have ho := h cfg hcfg
  cases o with
  | done a w =>
    obtain ⟨cfg', hr, hpost⟩ := ho
    have hfinal := hf a w cfg' hpost
    simp only [Reference.Outcome.bind]
    cases hfa : f a w with
    | done b w' =>
      rw [hfa] at hfinal
      obtain ⟨cfg'', hr', hb⟩ := hfinal
      exact ⟨cfg'', hr.trans hr', hb⟩
    | divisionByZero w' =>
      rw [hfa] at hfinal
      exact .of_reaches hr hfinal
    | timeout =>
      rw [hfa] at hfinal
      exact hr.run_eq_none hfinal
    | stuck =>
      rw [hfa] at hfinal
      exact hfinal
  | divisionByZero w => exact ho
  | timeout => exact ho
  | stuck => exact ho

theorem mono (h : Simulates c n P o post) (hP : ∀ cfg, Q cfg → P cfg)
    (hpost : ∀ a w cfg, post a w cfg → post' a w cfg) : Simulates c n Q o post' := by
  intro cfg hcfg
  have ho := h cfg (hP cfg hcfg)
  cases o with
  | done a w =>
    obtain ⟨cfg', hr, ha⟩ := ho
    exact ⟨cfg', hr, hpost a w cfg' ha⟩
  | divisionByZero w => exact ho
  | timeout => exact ho
  | stuck => exact ho

theorem le {n' : Nat} (h : Simulates c n P o post) (hle : n' ≤ n) : Simulates c n' P o post := by
  intro cfg hcfg
  have ho := h cfg hcfg
  cases o with
  | timeout => exact run_none ho hle
  | done a w => exact ho
  | divisionByZero w => exact ho
  | stuck => exact ho

/-- Facts that do not concern the configuration are hypotheses. -/
theorem assuming {φ : Prop} (h : φ → Simulates c n P o post) :
    Simulates c n (fun cfg => φ ∧ P cfg) o post :=
  fun cfg hcfg => h hcfg.1 cfg hcfg.2

theorem assumingExists {ι : Type} {P : ι → Config → Prop}
    (h : ∀ i, Simulates c n (P i) o post) : Simulates c n (fun cfg => ∃ i, P i cfg) o post := by
  rintro cfg ⟨i, hi⟩
  exact h i cfg hi

/-- A step counts, so that an evaluation behind it may stand for one step less. -/
theorem of_step (h : Simulates c n Q o post)
    (hstep : ∀ cfg, P cfg → ∃ cfg', cfg.step c = .running cfg' ∧ Q cfg') :
    Simulates c (n + 1) P o post := by
  intro cfg hcfg
  obtain ⟨cfg', hs, hcfg'⟩ := hstep cfg hcfg
  have ho := h cfg' hcfg'
  cases o with
  | done a w =>
    obtain ⟨final, hr, ha⟩ := ho
    exact ⟨final, (Reaches.of_step hs).trans hr, ha⟩
  | divisionByZero w => exact .of_reaches (.of_step hs) ho
  | timeout => rw [Config.run, hs]; exact ho
  | stuck => exact ho

end Simulates

/-! ## Configurations of a routine -/

/-- A value of the language as the machine holds it. -/
def encode (v : Literal) : Value := Value.ofConstant (constantOf v)

/-- The store has the values of the global names, which have their types. -/
structure Holds (G : Globals) (w : World) (s : Store) : Prop where
  output : s.output = w.output
  globals : ∀ {name access t}, G.lookup name = some (.value access t) →
    ∃ v, valueType v = t ∧ w.globals name = some v ∧ s.statics.lookup name = some (encode v)

/-- The running routine, the instruction to come, the locals and the operand stack. -/
def At (G : Globals) (r : Routine) (pc : Nat) (locals : Array Value) (stack : List Value)
    (callers : List Frame) (w : World) (cfg : Config) : Prop :=
  ∃ last s, cfg = ⟨⟨r, pc, last, locals, stack⟩, callers, s⟩ ∧ Holds G w s

section
variable {α : Type} {c : Setting} {n : Nat} {G : Globals} {r : Routine} {pc pc' : Nat}
  {locals locals' : Array Value} {stack stack' : List Value} {callers : List Frame}
  {w w' : World} {o : Reference.Outcome α} {post : α → World → Config → Prop} {i : Instruction}

theorem step_of_perform (hc : Generous c) (hi : r.code[pc]? = some i) (last : Nat) (s : Store)
    {flow : Flow}
    (hp : perform c ⟨r, pc + 1, pc, locals, stack⟩ { s with steps := s.steps + 1 } i = .ok flow) :
    Config.step c ⟨⟨r, pc, last, locals, stack⟩, callers, s⟩ =
      Config.proceed c callers { s with steps := s.steps + 1 } flow := by
  have hlimit : c.options.exceeded? (s.steps + 1) = none := by
    simp only [Options.exceeded?, hc.stepLimit, Option.bind_none]
  have hattempt : attempt c ⟨r, pc, last, locals, stack⟩ s = (.ok flow, s.counted) :=
    attempt_of_perform hlimit hi hp
  rw [step_eq_attempt, hattempt]
  rfl

/-- One instruction of the running routine. -/
theorem Simulates.step (hc : Generous c) (hi : r.code[pc]? = some i)
    (hp : ∀ s, Holds G w s → ∃ s', perform c ⟨r, pc + 1, pc, locals, stack⟩ s i =
      .ok (.next ⟨r, pc', pc, locals', stack'⟩ s') ∧ Holds G w' s')
    (h : Simulates c n (At G r pc' locals' stack' callers w') o post) :
    Simulates c (n + 1) (At G r pc locals stack callers w) o post := by
  refine h.of_step ?_
  rintro cfg ⟨last, s, rfl, hs⟩
  obtain ⟨s', hperform, hs'⟩ := hp { s with steps := s.steps + 1 } ⟨hs.output, hs.globals⟩
  refine ⟨_, step_of_perform hc hi last s hperform, pc, s', rfl, hs'⟩

theorem Simulates.next (hc : Generous c) (hi : r.code[pc]? = some i)
    (hp : ∀ s, Holds G w s → ∃ s', perform c ⟨r, pc + 1, pc, locals, stack⟩ s i =
      .ok (.next ⟨r, pc', pc, locals', stack'⟩ s') ∧ Holds G w' s')
    (h : Simulates c n (At G r pc' locals' stack' callers w') o post) :
    Simulates c n (At G r pc locals stack callers w) o post :=
  (h.step hc hi hp).le (Nat.le_succ n)

/-- An instruction that leaves the store alone. -/
theorem Simulates.pure (hc : Generous c) (hi : r.code[pc]? = some i)
    (hp : ∀ s, perform c ⟨r, pc + 1, pc, locals, stack⟩ s i =
      .ok (.next ⟨r, pc', pc, locals', stack'⟩ s))
    (h : Simulates c n (At G r pc' locals' stack' callers w) o post) :
    Simulates c n (At G r pc locals stack callers w) o post :=
  h.next hc hi fun s hs => ⟨s, hp s, hs⟩

end

end PZero.Simulation
