import PZero.Proofs.Linking
import PZero.Proofs.Lowering.Owner

/-! # Machines for one program under two names

The machine compares the owner of every reference with the name of its module, and puts it
into the error when they differ. As long as all references lead somewhere, a module that is
renamed together with its references behaves as before: both machines go through the same
steps, with the routines of the one renamed in the other.
-/
namespace PZero.Machine
open Bytecode Safety

/-! ## Fields and routines -/

/-- There is a value for each field of a module. -/
def Offered (m : Module) (statics : List (String × Value)) : Prop :=
  ∀ field ∈ m.fields, ∃ v, statics.lookup field.name = some v

theorem offered_ofModule (m : Module) (o : Options) : Offered m (ofModule m o).statics := by
  intro field hfield
  have hmem : (field.name, Value.ofConstant field.initial) ∈ (ofModule m o).statics :=
    List.mem_reverse.mpr (List.mem_map.mpr ⟨field, hfield, rfl⟩)
  cases hlookup : (ofModule m o).statics.lookup field.name with
  | some v => exact ⟨v, rfl⟩
  | none => simpa using List.lookup_eq_none_iff.mp hlookup _ hmem

theorem Effect.offered {m : Module} {sink : Sink} {s s' : Store} (h : Effect sink s s')
    (hs : Offered m s.statics) : Offered m s'.statics := by
  cases h with
  | keep => exact hs
  | assign name v =>
    intro field hfield
    obtain ⟨u, hu⟩ := hs field hfield
    rw [lookup_setStatic, hu]
    split
    · exact ⟨v, rfl⟩
    · exact ⟨u, rfl⟩
  | print text h =>
    rw [print_eq_ok h]
    exact hs

theorem run_offered {m : Module} {c : Setting} {fuel : Nat} {config : Config}
    {result : Except Error (Option Value)} {s : Store}
    (h : Config.run c fuel config = some (result, s)) (hs : Offered m config.store.statics) :
    Offered m s.statics := by
  induction fuel generalizing config with
  | zero => cases h
  | succ fuel ih =>
    have hstep : Offered m (config.step c).store.statics := (step_effect c config).offered hs
    rw [Config.run] at h
    cases hnext : config.step c with
    | running next =>
      rw [hnext] at h hstep
      exact ih h hstep
    | finished result s' =>
      rw [hnext] at h hstep
      cases h
      exact hstep
    | failed e s' =>
      rw [hnext] at h hstep
      cases h
      exact hstep

/-- The setting with its module renamed. -/
def Setting.renamed (new : String) (c : Setting) : Setting :=
  { c with module := c.module.renamed c.module.name new }

section
variable {c : Setting} {new : String}

theorem renamed_name (m : Module) : (m.renamed m.name new).name = new :=
  reowned_self m.name new

theorem routine?_renamed (m : Module) (old name : String) :
    routine? (m.renamed old new) name = (routine? m name).map (Routine.reowned old new) := by
  simp only [routine?, Module.renamed, ← List.map_reverse, List.find?_map]
  rfl

/-- A field that is there is found under both names. -/
theorem static_renamed {s : Store} (hs : Offered c.module s.statics) {r : FieldRef}
    (howner : r.owner = c.module.name) (hfield : ∃ field ∈ c.module.fields, field.name = r.name) :
    (c.renamed new).static s (r.reowned c.module.name new) = c.static s r := by
  obtain ⟨field, hfield, hname⟩ := hfield
  obtain ⟨v, hv⟩ := hs field hfield
  rw [hname] at hv
  have howner' : (r.reowned c.module.name new).owner = (c.renamed new).module.name := by
    rw [FieldRef.reowned, howner, Setting.renamed, renamed_name, reowned_self]
  have hname' : (r.reowned c.module.name new).name = r.name := rfl
  simp only [Setting.static, howner, howner', hname', hv, beq_self_eq_true, if_true]

/-- So is a routine. -/
theorem callee_renamed {r : RoutineRef} (howner : r.owner = c.module.name)
    (hroutine : ∃ callee ∈ c.module.routines, callee.name = r.name) :
    ∃ callee ∈ c.module.routines, c.callee r = .ok callee ∧
      (c.renamed new).callee (r.reowned c.module.name new) =
        .ok (callee.reowned c.module.name new) := by
  obtain ⟨callee, hcallee⟩ := exists_routine? hroutine
  refine ⟨callee, mem_of_routine? hcallee, callee_eq howner hcallee, callee_eq ?_ ?_⟩
  · rw [RoutineRef.reowned, howner, Setting.renamed, renamed_name, reowned_self]
  · rw [Setting.renamed, routine?_renamed]
    exact congrArg (Option.map _) hcallee

end

/-! ## Frames -/

/-- The same activation of a routine of a module and of the routine renamed. -/
structure Mirrors (m : Module) (new : String) (f f' : Frame) : Prop where
  mem : f.routine ∈ m.routines
  eq : f' = { f with routine := f.routine.reowned m.name new }

/-- The same value taken off both. -/
def MirrorsBut {α : Type} (m : Module) (new : String) (a a' : α × Frame) : Prop :=
  a'.1 = a.1 ∧ Mirrors m new a.2 a'.2

namespace Mirrors
variable {m : Module} {new : String} {f f' : Frame}

theorem enter {r : Routine} (hr : r ∈ m.routines) (arguments : List Value) :
    Mirrors m new (Frame.enter r arguments) (Frame.enter (r.reowned m.name new) arguments) :=
  ⟨hr, rfl⟩

theorem push (h : Mirrors m new f f') (v : Value) : Mirrors m new (f.push v) (f'.push v) := by
  obtain ⟨hmem, rfl⟩ := h
  exact ⟨hmem, rfl⟩

theorem jump (h : Mirrors m new f f') (target : UInt32) :
    Mirrors m new (f.jump target) (f'.jump target) := by
  obtain ⟨hmem, rfl⟩ := h
  exact ⟨hmem, rfl⟩

theorem receive (h : Mirrors m new f f') (result : Option Value) :
    Mirrors m new (f.receive result) (f'.receive result) := by
  cases result with
  | none => exact h
  | some v => exact h.push v

/-- A fault names the routine, whose name is the same. -/
theorem throw_fault {α β : Type} {R : α → β → Prop} (h : Mirrors m new f f') (e : Fault) :
    Parallel R (throw (f.fault e) : Except Error α) (throw (f'.fault e) : Except Error β) := by
  obtain ⟨-, rfl⟩ := h
  exact .error _

theorem throw_mismatch {α β : Type} {R : α → β → Prop} (h : Mirrors m new f f') (k : Kind)
    (v : Value) :
    Parallel R (throw (f.mismatch k v) : Except Error α)
      (throw (f'.mismatch k v) : Except Error β) :=
  h.throw_fault _

theorem fetch (h : Mirrors m new f f') :
    Parallel (fun a a' => a.1 ∈ f.routine.code ∧ a'.1 = a.1.reowned m.name new ∧
      Mirrors m new a.2 a'.2) f.fetch f'.fetch := by
  obtain ⟨hmem, rfl⟩ := h
  simp only [Frame.fetch, Routine.reowned, Array.getElem?_map]
  cases hi : f.routine.code[f.pc]? with
  | none => exact .error _
  | some i => exact .ok ⟨Array.mem_of_getElem? hi, rfl, hmem, rfl⟩

theorem pop (h : Mirrors m new f f') : Parallel (MirrorsBut m new) f.pop f'.pop := by
  obtain ⟨hmem, rfl⟩ := h
  obtain ⟨routine, pc, last, locals, stack⟩ := f
  cases stack with
  | nil => exact .error _
  | cons v rest => exact .ok ⟨rfl, hmem, rfl⟩

theorem popInt (h : Mirrors m new f f') : Parallel (MirrorsBut m new) f.popInt f'.popInt := by
  refine h.pop.bind ?_
  rintro ⟨_, g⟩ ⟨v, g'⟩ ⟨rfl, hg⟩
  cases v with
  | int n => exact .ok ⟨rfl, hg⟩
  | float | string | stream | unit => exact hg.throw_mismatch _ _

theorem popFloat (h : Mirrors m new f f') :
    Parallel (MirrorsBut m new) f.popFloat f'.popFloat := by
  refine h.pop.bind ?_
  rintro ⟨_, g⟩ ⟨v, g'⟩ ⟨rfl, hg⟩
  cases v with
  | float x => exact .ok ⟨rfl, hg⟩
  | int | string | stream | unit => exact hg.throw_mismatch _ _

theorem popStream (h : Mirrors m new f f') :
    Parallel (Mirrors m new) f.popStream f'.popStream := by
  refine h.pop.bind ?_
  rintro ⟨_, g⟩ ⟨v, g'⟩ ⟨rfl, hg⟩
  cases v with
  | stream => exact .ok hg
  | int | float | string | unit => exact hg.throw_mismatch _ _

theorem popMany (h : Mirrors m new f f') (n : Nat) :
    Parallel (MirrorsBut m new) (f.popMany n) (f'.popMany n) := by
  obtain ⟨hmem, rfl⟩ := h
  unfold Frame.popMany
  split
  · exact .ok ⟨rfl, hmem, rfl⟩
  · exact .error _

theorem load_eq (h : Mirrors m new f f') (slot : UInt16) : f'.load slot = f.load slot := by
  obtain ⟨-, rfl⟩ := h
  rfl

theorem store (h : Mirrors m new f f') (slot : UInt16) (v : Value) :
    Parallel (Mirrors m new) (f.store slot v) (f'.store slot v) := by
  obtain ⟨hmem, rfl⟩ := h
  unfold Frame.store
  split
  · exact .ok ⟨hmem, rfl⟩
  · exact .error _

theorem intBinary (h : Mirrors m new f f') (op : Int32 → Int32 → Except Fault Int32) :
    Parallel (Mirrors m new) (f.intBinary op) (f'.intBinary op) := by
  refine h.popInt.bind ?_
  rintro ⟨_, g⟩ ⟨b, g'⟩ ⟨rfl, hg⟩
  refine hg.popInt.bind ?_
  rintro ⟨_, k⟩ ⟨a, k'⟩ ⟨rfl, hk⟩
  dsimp only
  cases op a b with
  | ok n => exact .ok (hk.push _)
  | error e => exact hk.throw_fault e

theorem floatBinary (h : Mirrors m new f f') (op : Single → Single → Single) :
    Parallel (Mirrors m new) (f.floatBinary op) (f'.floatBinary op) := by
  refine h.popFloat.bind ?_
  rintro ⟨_, g⟩ ⟨b, g'⟩ ⟨rfl, hg⟩
  refine hg.popFloat.bind ?_
  rintro ⟨_, k⟩ ⟨a, k'⟩ ⟨rfl, hk⟩
  exact .ok (hk.push _)

end Mirrors

/-! ## Instructions -/

/-- Both runs go on in the same way. -/
inductive FlowMirrors (m : Module) (new : String) : Flow → Flow → Prop
  | next {f f' : Frame} (s : Store) : Mirrors m new f f' →
      FlowMirrors m new (.next f s) (.next f' s)
  | call {r : Routine} {f f' : Frame} (arguments : List Value) : r ∈ m.routines →
      Mirrors m new f f' →
      FlowMirrors m new (.call r arguments f) (.call (r.reowned m.name new) arguments f')
  | leave (result : Option Value) : FlowMirrors m new (.leave result) (.leave result)

section
variable {c : Setting} {new : String} {f f' : Frame} {s : Store}

theorem Mirrors.print (h : Mirrors c.module new f f') (text : String) :
    Parallel (FlowMirrors c.module new) (do return .next f (← s.print c.sink text))
      (do return .next f' (← s.print (c.renamed new).sink text)) :=
  .bind_same fun s => .ok (.next s h)

/-- An instruction whose references lead somewhere does the same under both names. -/
theorem perform_mirrors (h : Mirrors c.module new f f') (hs : Offered c.module s.statics)
    {frame : UInt16} {i : Instruction} (hi : i.Resolves c.module frame) :
    Parallel (FlowMirrors c.module new) (perform c f s i)
      (perform (c.renamed new) f' s (i.reowned c.module.name new)) := by
  cases i with
  | iconst | fconst | sconst | getStdout => exact .ok (.next s (h.push _))
  | goto target => exact .ok (.next s (h.jump target))
  | ret => exact .ok (.leave none)
  | iload slot =>
    simp only [Instruction.reowned, perform, h.load_eq]
    refine .bind_same fun v => ?_
    cases v with
    | int n => exact .ok (.next s (h.push _))
    | float | string | stream | unit => exact h.throw_mismatch _ _
  | fload slot =>
    simp only [Instruction.reowned, perform, h.load_eq]
    refine .bind_same fun v => ?_
    cases v with
    | float x => exact .ok (.next s (h.push _))
    | int | string | stream | unit => exact h.throw_mismatch _ _
  | istore slot =>
    refine h.popInt.bind ?_
    rintro ⟨_, g⟩ ⟨v, g'⟩ ⟨rfl, hg⟩
    exact (hg.store slot _).bind fun k k' hk => .ok (.next s hk)
  | fstore slot =>
    refine h.popFloat.bind ?_
    rintro ⟨_, g⟩ ⟨v, g'⟩ ⟨rfl, hg⟩
    exact (hg.store slot _).bind fun k k' hk => .ok (.next s hk)
  | getStatic r =>
    obtain ⟨howner, field, hfield, hname, -⟩ := hi
    simp only [Instruction.reowned, perform, static_renamed hs howner ⟨field, hfield, hname⟩]
    exact .bind_same fun v => .ok (.next s (h.push v))
  | putStatic r =>
    obtain ⟨howner, ⟨field, hfield, hname, -⟩, -⟩ := hi
    refine h.pop.bind ?_
    rintro ⟨_, g⟩ ⟨v, g'⟩ ⟨rfl, hg⟩
    simp only [static_renamed hs howner ⟨field, hfield, hname⟩]
    exact .bind_same fun _ => .ok (.next _ hg)
  | iadd | isub | imul | idiv | iand | ior | ixor =>
    exact (h.intBinary _).bind fun g g' hg => .ok (.next s hg)
  | fadd | fsub | fmul | fdiv =>
    exact (h.floatBinary _).bind fun g g' hg => .ok (.next s hg)
  | ineg =>
    refine h.popInt.bind ?_
    rintro ⟨_, g⟩ ⟨v, g'⟩ ⟨rfl, hg⟩
    exact .ok (.next s (hg.push _))
  | fneg =>
    refine h.popFloat.bind ?_
    rintro ⟨_, g⟩ ⟨v, g'⟩ ⟨rfl, hg⟩
    exact .ok (.next s (hg.push _))
  | fcmpg =>
    refine h.popFloat.bind ?_
    rintro ⟨_, g⟩ ⟨b, g'⟩ ⟨rfl, hg⟩
    refine hg.popFloat.bind ?_
    rintro ⟨_, k⟩ ⟨a, k'⟩ ⟨rfl, hk⟩
    exact .ok (.next s (hk.push _))
  | ifZero condition target =>
    refine h.popInt.bind ?_
    rintro ⟨_, g⟩ ⟨v, g'⟩ ⟨rfl, hg⟩
    refine .ok (.next s ?_)
    dsimp only
    split
    · exact hg.jump target
    · exact hg
  | ifCompare condition target =>
    refine h.popInt.bind ?_
    rintro ⟨_, g⟩ ⟨b, g'⟩ ⟨rfl, hg⟩
    refine hg.popInt.bind ?_
    rintro ⟨_, k⟩ ⟨a, k'⟩ ⟨rfl, hk⟩
    refine .ok (.next s ?_)
    dsimp only
    split
    · exact hk.jump target
    · exact hk
  | invoke r =>
    obtain ⟨howner, callee, hcallee, hname, -⟩ := hi
    obtain ⟨callee, hmem, hcall, hcall'⟩ := @callee_renamed c new r howner ⟨callee, hcallee, hname⟩
    simp only [Instruction.reowned, perform, hcall, hcall']
    refine (h.popMany _).bind ?_
    rintro ⟨_, g⟩ ⟨arguments, g'⟩ ⟨rfl, hg⟩
    exact .ok (.call _ hmem hg)
  | iret =>
    refine h.popInt.bind ?_
    rintro ⟨_, g⟩ ⟨v, g'⟩ ⟨rfl, -⟩
    exact .ok (.leave _)
  | fret =>
    refine h.popFloat.bind ?_
    rintro ⟨_, g⟩ ⟨v, g'⟩ ⟨rfl, -⟩
    exact .ok (.leave _)
  | print type =>
    refine h.pop.bind ?_
    rintro ⟨_, g⟩ ⟨v, g'⟩ ⟨rfl, hg⟩
    refine hg.popStream.bind fun k k' hk => ?_
    dsimp only
    cases printed? type v with
    | some text => exact hk.print text
    | none => exact hk.throw_mismatch _ _
  | printFixed places =>
    refine h.popFloat.bind ?_
    rintro ⟨_, g⟩ ⟨v, g'⟩ ⟨rfl, hg⟩
    exact hg.popStream.bind fun k k' hk => hk.print _
  | printNewline => exact h.popStream.bind fun k k' hk => hk.print _
  | pop =>
    refine h.pop.bind ?_
    rintro ⟨_, g⟩ ⟨v, g'⟩ ⟨rfl, hg⟩
    exact .ok (.next s hg)

end

/-! ## Steps and runs -/

/-- Whatever the code of a module refers to is there. -/
def Closed (m : Module) : Prop := ∀ r ∈ m.routines, ∀ i ∈ r.code, i.Resolves m r.maxLocals

/-- The same run in progress under both names. -/
structure ConfigMirrors (m : Module) (new : String) (a a' : Config) : Prop where
  frame : Mirrors m new a.frame a'.frame
  callers : List.Forall₂ (Mirrors m new) a.callers a'.callers
  store : a'.store = a.store

inductive OutcomeMirrors (m : Module) (new : String) : Outcome → Outcome → Prop
  | running {a a' : Config} : ConfigMirrors m new a a' →
      OutcomeMirrors m new (.running a) (.running a')
  | finished (result : Option Value) (s : Store) :
      OutcomeMirrors m new (.finished result s) (.finished result s)
  | failed (e : Error) (s : Store) : OutcomeMirrors m new (.failed e s) (.failed e s)

section
variable {c : Setting} {new : String}

theorem attempt_mirrors (hm : Closed c.module) {f f' : Frame} {s : Store}
    (h : Mirrors c.module new f f') (hs : Offered c.module s.statics) :
    (attempt (c.renamed new) f' s).2 = (attempt c f s).2 ∧
      Parallel (FlowMirrors c.module new) (attempt c f s).1 (attempt (c.renamed new) f' s).1 := by
  refine ⟨by rw [attempt_snd, attempt_snd], ?_⟩
  have hoptions : (c.renamed new).options = c.options := rfl
  unfold attempt
  rw [hoptions]
  cases hlimit : c.options.exceeded? (s.steps + 1) with
  | some limit =>
    simp only [hlimit]
    exact .error _
  | none =>
    simp only [hlimit]
    refine h.fetch.bind ?_
    rintro ⟨i, g⟩ ⟨_, g'⟩ ⟨hi, rfl, hg⟩
    exact perform_mirrors (s := s.counted) hg hs (hm _ h.mem i hi)

theorem proceed_mirrors {callers callers' : List Frame}
    (h : List.Forall₂ (Mirrors c.module new) callers callers') (s : Store) {flow flow' : Flow}
    (hflow : FlowMirrors c.module new flow flow') :
    OutcomeMirrors c.module new (Config.proceed c callers s flow)
      (Config.proceed (c.renamed new) callers' s flow') := by
  cases hflow with
  | next s hf => exact .running ⟨hf, h, rfl⟩
  | call arguments hr hf =>
    have hoptions : (c.renamed new).options = c.options := rfl
    simp only [Config.proceed, hoptions, h.length_eq]
    split
    · exact .failed _ _
    · exact .running ⟨.enter hr arguments, .cons hf h, rfl⟩
  | leave result =>
    cases h with
    | nil => exact .finished result s
    | cons hf h => exact .running ⟨hf.receive result, h, rfl⟩

theorem step_mirrors (hm : Closed c.module) {a a' : Config} (h : ConfigMirrors c.module new a a')
    (hs : Offered c.module a.store.statics) :
    OutcomeMirrors c.module new (a.step c) (a'.step (c.renamed new)) := by
  obtain ⟨frame, callers, store⟩ := a
  obtain ⟨frame', callers', store'⟩ := a'
  obtain ⟨hframe, hcallers, hstore⟩ := h
  obtain rfl : store' = store := hstore
  obtain ⟨hcounted, hattempt⟩ := attempt_mirrors hm hframe hs
  dsimp only at hcounted hattempt
  rw [step_eq_attempt, step_eq_attempt]
  generalize attempt c frame store' = x at hcounted hattempt
  generalize attempt (c.renamed new) frame' store' = x' at hcounted hattempt
  obtain ⟨outcome, s⟩ := x
  obtain ⟨outcome', s'⟩ := x'
  obtain rfl : s' = s := hcounted
  cases hattempt with
  | error e => exact .failed e _
  | ok hflow => exact proceed_mirrors hcallers _ hflow

theorem run_mirrors (hm : Closed c.module) (fuel : Nat) {a a' : Config}
    (h : ConfigMirrors c.module new a a') (hs : Offered c.module a.store.statics) :
    Config.run (c.renamed new) fuel a' = Config.run c fuel a := by
  induction fuel generalizing a a' with
  | zero => rfl
  | succ fuel ih =>
    have hstep := step_mirrors hm h hs
    have hnext : Offered c.module (a.step c).store.statics := (step_effect c a).offered hs
    rw [Config.run, Config.run]
    generalize a.step c = x at hstep hnext
    generalize a'.step (c.renamed new) = x' at hstep
    cases hstep with
    | running hrunning => exact ih hrunning hnext
    | finished result s => rfl
    | failed e s => rfl

end

/-! ## Machines -/

/-- The machine with its module renamed. -/
def renamed (old new : String) (machine : Machine) : Machine :=
  { machine with module := machine.module.renamed old new }

/-- The report on a renamed machine: nothing but the module differs. -/
def Report.renamed (old new : String) (report : Report) : Report :=
  { report with machine := report.machine.renamed old new }

/-- The machine is one for the module, with a value for each field. -/
structure Over (m : Module) (machine : Machine) : Prop where
  module : machine.module = m
  offered : Offered m machine.statics

/-- The second report is the first one renamed, and what comes next can go on. -/
structure ReportsMirror (m : Module) (new : String) (x x' : Option Report) : Prop where
  renamed : x' = x.map (Report.renamed m.name new)
  continues : ∀ report, x = some report → Over m report.machine

section
variable {m : Module} {new : String} {machine : Machine} {sink : Sink} {fuel : Nat}

theorem ReportsMirror.some {report : Report} (h : Over m report.machine) :
    ReportsMirror m new (some report) (some (report.renamed m.name new)) := by
  refine ⟨rfl, fun report' heq => ?_⟩
  cases heq
  exact h

theorem ReportsMirror.bind {x x' : Option Report} {g : Report → Option Report}
    (h : ReportsMirror m new x x')
    (hg : ∀ report, Over m report.machine →
      ReportsMirror m new (g report) (g (report.renamed m.name new))) :
    ReportsMirror m new (x.bind g) (x'.bind g) := by
  obtain ⟨rfl, hover⟩ := h
  cases x with
  | none => exact ⟨rfl, fun _ heq => nomatch heq⟩
  | some report => exact hg report (hover report rfl)

theorem execute_mirrors (hm : Closed m) (h : Over m machine) {r : Routine} (hr : r ∈ m.routines)
    (arguments : List Value) (output : String) :
    ReportsMirror m new (machine.execute sink fuel r arguments output)
      ((machine.renamed m.name new).execute sink fuel (r.reowned m.name new) arguments output) := by
  obtain ⟨rfl, hs⟩ := h
  have hconfig : ConfigMirrors machine.module new
      ⟨Frame.enter r arguments, [], ⟨machine.statics, machine.steps, output⟩⟩
      ⟨Frame.enter (r.reowned machine.module.name new) arguments, [],
        ⟨machine.statics, machine.steps, output⟩⟩ :=
    ⟨.enter hr arguments, .nil, rfl⟩
  have hrun := @run_mirrors ⟨machine.module, machine.options, sink⟩ new hm fuel _ _ hconfig hs
  constructor
  · simp only [execute, Option.map_map]
    exact congrArg _ hrun
  · intro report hreport
    obtain ⟨⟨result, s⟩, hrun, rfl⟩ := Option.map_eq_some_iff.mp hreport
    exact ⟨rfl, run_offered hrun hs⟩

theorem executeNamed_mirrors (hm : Closed m) (h : Over m machine) (name : String)
    (arguments : List Value) (output : String) (otherwise : Except Error (Option Value)) :
    ReportsMirror m new (machine.executeNamed sink fuel name arguments output otherwise)
      ((machine.renamed m.name new).executeNamed sink fuel name arguments output otherwise) := by
  have hroutine : routine? (machine.renamed m.name new).module name =
      (routine? m name).map (Routine.reowned m.name new) := by
    rw [renamed, h.module]
    exact routine?_renamed m m.name name
  cases hr : routine? m name with
  | some r =>
    rw [hr] at hroutine
    rw [executeNamed_some (h.module ▸ hr), executeNamed_some hroutine]
    exact execute_mirrors hm h (mem_of_routine? hr) arguments output
  | none =>
    rw [hr] at hroutine
    rw [executeNamed_none (h.module ▸ hr), executeNamed_none hroutine]
    exact .some h

theorem runEntry_mirrors (hm : Closed m) (h : Over m machine) :
    ReportsMirror m new (machine.runEntry sink fuel)
      ((machine.renamed m.name new).runEntry sink fuel) := by
  rw [runEntry_eq_bind, runEntry_eq_bind]
  refine (executeNamed_mirrors hm h initializer [] "" _).bind fun first hfirst => ?_
  cases hresult : first.result with
  | error e =>
    have hstop : ∀ report : Report, report.result = .error e →
        report.andThenEntry sink fuel = some report := by
      intro report hreport
      simp only [Report.andThenEntry, hreport]
    rw [hstop first hresult, hstop (first.renamed m.name new) hresult]
    exact .some hfirst
  | ok v =>
    simp only [Report.andThenEntry, Report.renamed, hresult, call_eq_executeNamed]
    exact executeNamed_mirrors hm hfirst entryRoutine [.unit] first.output _

theorem flushed_renamed (report : Report) (old : String) (sink : Sink) :
    (report.renamed old new).flushed sink = (report.flushed sink).renamed old new := by
  unfold Report.flushed
  cases sink.refusesFlush <;> rfl

end

end PZero.Machine

namespace PZero.Safety
open Bytecode Machine

section
variable {m : Module} {new : String} {machine : Machine}

theorem apply_mirrors (hm : Closed m) (h : Over m machine) (operation : Operation) :
    ReportsMirror m new (operation.apply machine)
      (operation.apply (machine.renamed m.name new)) := by
  cases operation with
  | call name arguments sink fuel => exact executeNamed_mirrors hm h name arguments "" _
  | run sink fuel =>
    have hrunning : Over m { machine with state := .running } := ⟨h.module, h.offered⟩
    obtain ⟨hrenamed, hover⟩ := @runEntry_mirrors m new _ sink fuel hm hrunning
    constructor
    · have heq : ({ machine.renamed m.name new with state := .running } : Machine) =
          renamed m.name new { machine with state := .running } := rfl
      simp only [Operation.apply, run_eq_flushed, heq, hrenamed, Option.map_map]
      exact Option.map_congr fun report _ => flushed_renamed report m.name sink
    · intro report hreport
      obtain ⟨inner, hinner, rfl⟩ := exists_flushed_of_run hreport
      obtain ⟨hmodule, hoffered⟩ := hover inner hinner
      exact ⟨(flushed_module inner sink).trans hmodule, flushed_statics inner sink ▸ hoffered⟩

/-- Operations on a machine and on the machine renamed have the same reports. -/
theorem history_renamed (hm : Closed m) (h : Over m machine) (operations : List Operation) :
    history (machine.renamed m.name new) operations =
      (history machine operations).map fun entry => (entry.1, entry.2.renamed m.name new) := by
  induction operations generalizing machine with
  | nil => rfl
  | cons operation rest ih =>
    obtain ⟨hrenamed, hover⟩ := @apply_mirrors m new machine hm h operation
    rw [history, history, hrenamed]
    cases happly : operation.apply machine with
    | none => rfl
    | some report =>
      rw [Option.map_some, List.map_cons]
      exact congrArg _ (ih (hover report happly))

end

/-- The name of a module does not matter. Under two names a program has the same module but for the
name, in itself and in its references, or fails for the same reason; and the machines for the two
modules report the same on every sequence of operations. -/
theorem name_of_module (p : Surface.Program) (n₁ n₂ : String) :
    Compiler.compile p n₂ = (Compiler.compile p n₁).map (Module.renamed n₁ n₂) ∧
    ∀ m, Compiler.compile p n₁ = .ok m → ∀ options operations,
      history (ofModule (m.renamed n₁ n₂) options) operations =
        (history (ofModule m options) operations).map fun entry =>
          (entry.1, entry.2.renamed n₁ n₂) := by
  refine ⟨Compiler.compile_renamed p n₁ n₂, fun m hcompile options operations => ?_⟩
  obtain ⟨rfl, hclosed⟩ := Linking.compile_resolves hcompile
  exact history_renamed hclosed ⟨rfl, offered_ofModule m options⟩ operations

/-- Adds to a global name and tells what it has become. -/
def adding : Surface.Program where
  declarations :=
    [.global .readWrite ⟨"sum", {}⟩ (.value (.int "0" {})),
      .function ⟨"add", {}⟩ [(⟨"x", {}⟩, .int)]
        [.assign ⟨"sum", {}⟩ (.binary .plus (.name ⟨"sum", {}⟩) (.name ⟨"x", {}⟩))]
        (some (.int, .name ⟨"sum", {}⟩)),
      .function ⟨"main", {}⟩ []
        [.call ⟨"print", {}⟩ [.call ⟨"add", {}⟩ [.literal (.int "3" {})] {}]] none]

def addingModule : Module where
  name := "demo"
  fields := [⟨"sum", false, .int, .int 0⟩]
  routines :=
    [Lowering.initializer,
      ⟨"add", ⟨[.int], some .int⟩, 1, #[.getStatic ⟨"demo", "sum", .int⟩, .iload 0, .iadd,
        .putStatic ⟨"demo", "sum", .int⟩, .getStatic ⟨"demo", "sum", .int⟩, .iret]⟩,
      ⟨"main", .void, 1, #[.getStdout, .iconst 3, .invoke ⟨"demo", "add", ⟨[.int], some .int⟩⟩,
        .print .int, .ret]⟩]

def addingOperations : List Operation := [.run {} 30, .call "add" [.int 4] {} 10]

/-- The second name is that of a field. -/
theorem name_of_module_adding :
    Compiler.compile adding "demo" = .ok addingModule ∧
    Compiler.compile adding "sum" = .ok (addingModule.renamed "demo" "sum") ∧
    (history (ofModule addingModule {}) addingOperations).map (fun entry => entry.2.result) =
      [.ok none, .ok (some (.int 7))] ∧
    history (ofModule (addingModule.renamed "demo" "sum") {}) addingOperations =
      (history (ofModule addingModule {}) addingOperations).map fun entry =>
        (entry.1, entry.2.renamed "demo" "sum") := by
  have hcompile : Compiler.compile adding "demo" = .ok addingModule := by decide +kernel
  obtain ⟨hrenamed, hhistory⟩ := name_of_module adding "demo" "sum"
  rw [hcompile] at hrenamed
  exact ⟨hcompile, hrenamed, by decide +kernel, hhistory addingModule hcompile {} addingOperations⟩

end PZero.Safety
