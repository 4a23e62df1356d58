import PZero.Proofs.Safety.Perform

/-! # Runs of annotated routines are safe

Every active routine is at an index for which it has the shape, except that those
which wait lack the result of the routine that they called. A step leads from such a
configuration to another one, ends the run with a result of the right kind, or fails
in a permitted way; so does a run, and whatever it stops with, the fields have values
of their kinds.
-/
namespace PZero.Safety
open Bytecode Machine

/-! ## Configurations -/

/-- The frame can go on once values of the kinds that are due are on its stack. -/
def Rests (m : Module) (f : Frame) (due : List Kind) : Prop :=
  ∃ shape, Annotated m f.routine shape ∧ f.pc < f.routine.code.size ∧ Shaped f due (shape f.pc)

/-- Each frame waits for a result of the one inside; the outermost one returns values of the kinds
`final`. -/
inductive Waiting (m : Module) (final : List Kind) : List Kind → List Frame → Prop
  | nil : Waiting m final final []
  | cons {due : List Kind} {f : Frame} {callers : List Frame} : Rests m f due →
      Waiting m final f.routine.descriptor.resultKinds callers →
      Waiting m final due (f :: callers)

structure ConfigFits (m : Module) (final : List Kind) (cfg : Config) : Prop where
  frame : Rests m cfg.frame []
  callers : Waiting m final cfg.frame.routine.descriptor.resultKinds cfg.callers
  statics : StaticsFit m cfg.store.statics

def OutcomeFits (m : Module) (final : List Kind) : Outcome → Prop
  | .running cfg => ConfigFits m final cfg
  | .finished v store => v.toList.map Value.kind = final ∧ StaticsFit m store.statics
  | .failed e store => Permitted e ∧ StaticsFit m store.statics

theorem slotsFit_kinds (locals : Array Value) :
    SlotsFit (locals.toList.map Value.kind) locals := by
  intro n k hn
  rw [List.getElem?_map, Array.getElem?_toList] at hn
  exact Option.map_eq_some_iff.mp hn

theorem enter_shaped {r : Routine} {arguments : List Value}
    (h : (entryShape r).slots <+: arguments.map Value.kind ++
      List.replicate (r.maxLocals.toNat - arguments.length) .unit) :
    Shaped (Frame.enter r arguments) [] (entryShape r) := by
  refine ⟨rfl, (slotsFit_kinds _).shorten ?_, size_enter r arguments⟩
  simpa [Frame.enter, Value.kind] using h

theorem enter_rests {m : Module} (hm : Verified m) {r : Routine} (hr : r ∈ m.routines)
    {arguments : List Value}
    (h : (entryShape r).slots <+: arguments.map Value.kind ++
      List.replicate (r.maxLocals.toNat - arguments.length) .unit) :
    Rests m (Frame.enter r arguments) [] := by
  obtain ⟨shape, hshape⟩ := hm.routines r hr
  exact ⟨shape, hshape, hshape.nonempty, (enter_shaped h).narrow hshape.entry⟩

/-- Arguments of the kinds of the parameters are what a routine begins with. -/
theorem entrySlots_of_kinds {r : Routine} {arguments : List Value}
    (h : arguments.map Value.kind = r.descriptor.parameters.map Kind.ofFieldType) :
    (entryShape r).slots <+: arguments.map Value.kind ++
      List.replicate (r.maxLocals.toNat - arguments.length) .unit := by
  have hlength : arguments.length = r.descriptor.parameters.length := by
    rw [← List.length_map (f := Value.kind), h, List.length_map]
  rw [h, hlength]
  exact List.prefix_rfl

theorem Rests.receive {m : Module} {f : Frame} {due : List Kind} (h : Rests m f due)
    {v : Option Value} (hv : v.toList.map Value.kind = due) : Rests m (f.receive v) [] := by
  obtain ⟨shape, hshape, hpc, hstack, hslots, hsize⟩ := h
  subst hv
  cases v with
  | none => exact ⟨shape, hshape, hpc, hstack, hslots, hsize⟩
  | some v => exact ⟨shape, hshape, hpc, hstack, hslots, hsize⟩

/-! ## Steps and runs -/

section
variable {c : Setting} {final : List Kind}

theorem proceed_fits (hm : Verified c.module) {r : Routine} {shape : Nat → Shape} {pc : Nat}
    {i : Instruction} {s : Shape} {callers : List Frame} {store : Store} {flow : Flow}
    (hr : Annotated c.module r shape)
    (hsucc : ∀ next ∈ i.successors pc, next < r.code.size ∧ s.Narrows (shape next))
    (hflow : FlowFits c.module r pc i s flow)
    (hw : Waiting c.module final r.descriptor.resultKinds callers)
    (hs : StaticsFit c.module store.statics) :
    OutcomeFits c.module final (Config.proceed c callers store flow) := by
  have hrests : ∀ {f : Frame} {due : List Kind}, f.routine = r → f.pc ∈ i.successors pc →
      Shaped f due s → Rests c.module f due := by
    intro f due hroutine hpc hf
    obtain ⟨hlt, hnarrows⟩ := hsucc _ hpc
    exact ⟨shape, hroutine ▸ hr, hroutine ▸ hlt, hf.narrow hnarrows⟩
  cases flow with
  | next f store' =>
    obtain ⟨hroutine, hpc, hf, hs'⟩ := hflow
    exact ⟨hrests hroutine hpc hf, hroutine ▸ hw, hs'⟩
  | call callee arguments f =>
    obtain ⟨hcallee, harguments, hroutine, hpc, hf⟩ := hflow
    rw [Config.proceed]
    split
    · exact ⟨.callDepth _, hs⟩
    · exact ⟨enter_rests hm hcallee (entrySlots_of_kinds harguments),
        .cons (hrests hroutine hpc hf) (hroutine ▸ hw), hs⟩
  | leave v =>
    cases hw with
    | nil => exact ⟨hflow, hs⟩
    | cons hf hw =>
      refine ⟨hf.receive hflow, ?_, hs⟩
      cases v <;> exact hw

/-- One step. -/
theorem step_fits (hm : Verified c.module) {cfg : Config} (h : ConfigFits c.module final cfg) :
    OutcomeFits c.module final (cfg.step c) := by
  obtain ⟨⟨shape, hshape, hpc, hf⟩, hw, hs⟩ := h
  obtain ⟨i, s, hi, hfits, hsucc⟩ := hshape.code _ hpc
  rw [Config.step]
  split
  · exact ⟨.stepLimit _, hs⟩
  · have hsafe : Safe (FlowFits c.module cfg.frame.routine cfg.frame.pc i s)
        (perform c { cfg.frame with pc := cfg.frame.pc + 1, last := cfg.frame.pc }
          { cfg.store with steps := cfg.store.steps + 1 } i) :=
      perform_safe hm.fields hfits rfl ⟨hf.stack, hf.slots, hf.size⟩ hs
    simp only [Frame.fetch, hi]
    cases hflow : perform c _ _ i with
    | error e =>
      rw [hflow] at hsafe
      exact ⟨hsafe, hs⟩
    | ok flow =>
      rw [hflow] at hsafe
      exact proceed_fits hm hshape hsucc hsafe hw hs

/-- A whole run. -/
theorem run_fits (hm : Verified c.module) {fuel : Nat} {cfg : Config}
    (h : ConfigFits c.module final cfg) {result : Except Machine.Error (Option Value)}
    {store : Store} (hrun : Config.run c fuel cfg = some (result, store)) :
    Safe (fun v => v.toList.map Value.kind = final) result ∧
      StaticsFit c.module store.statics := by
  induction fuel generalizing cfg with
  | zero => cases hrun
  | succ fuel ih =>
    have hstep := step_fits hm h
    rw [Config.run] at hrun
    cases hs : cfg.step c with
    | running next =>
      rw [hs] at hstep hrun
      exact ih hstep hrun
    | finished v s =>
      rw [hs] at hstep hrun
      cases hrun
      exact hstep
    | failed e s =>
      rw [hs] at hstep hrun
      cases hrun
      exact hstep

end

/-! ## Operations of a machine -/

/-- The fields have values of their kinds. -/
structure MachineFits (m : Module) (machine : Machine) : Prop where
  module : machine.module = m
  statics : StaticsFit m machine.statics

/-- The operation failed in a permitted way or has a result of the given kinds, and the machine is
fit for the next one. -/
structure ReportFits (m : Module) (ks : List Kind) (report : Report) : Prop where
  result : Safe (fun v => v.toList.map Value.kind = ks) report.result
  machine : MachineFits m report.machine

theorem ofModule_fits {m : Module} (hm : Verified m) (o : Options) :
    MachineFits m (ofModule m o) := by
  refine ⟨rfl, fun field hf => ⟨_, lookup_statics hm.fields o hf, ?_⟩⟩
  rw [← hm.initial field hf]
  cases field.initial <;> rfl

section
variable {m : Module} {machine : Machine} {sink : Sink} {fuel : Nat} {report : Report}

theorem execute_fits (hm : Verified m) (h : MachineFits m machine) {r : Routine}
    (hr : r ∈ m.routines) {arguments : List Value} {output : String}
    (harguments : (entryShape r).slots <+: arguments.map Value.kind ++
      List.replicate (r.maxLocals.toNat - arguments.length) .unit)
    (hexecute : machine.execute sink fuel r arguments output = some report) :
    ReportFits m r.descriptor.resultKinds report := by
  obtain ⟨rfl, hs⟩ := h
  obtain ⟨⟨result, store⟩, hrun, rfl⟩ := Option.map_eq_some_iff.mp hexecute
  obtain ⟨hresult, hstore⟩ := run_fits hm ⟨enter_rests hm hr harguments, .nil, hs⟩ hrun
  exact ⟨hresult, rfl, hstore⟩

theorem call_fits (hm : Verified m) (h : MachineFits m machine) {name : String} {r : Routine}
    (hr : routine? m name = some r) {arguments : List Value} {output : String}
    (harguments : (entryShape r).slots <+: arguments.map Value.kind ++
      List.replicate (r.maxLocals.toNat - arguments.length) .unit)
    (hcall : machine.call sink fuel name arguments output = some report) :
    ReportFits m r.descriptor.resultKinds report := by
  rw [Machine.call, h.module, hr] at hcall
  exact execute_fits hm h (mem_of_routine? hr) harguments hcall

/-- An entry routine without parameters may be called with the one argument that it never uses. -/
theorem entrySlots_of_unit {r : Routine} (hr : r.descriptor.parameters = []) :
    (entryShape r).slots <+: [Value.unit].map Value.kind ++
      List.replicate (r.maxLocals.toNat - [Value.unit].length) .unit := by
  have hunit : [Value.unit].map Value.kind = List.replicate 1 .unit := rfl
  rw [entryShape, hr, hunit, List.replicate_append_replicate]
  refine ⟨List.replicate (1 - r.maxLocals.toNat) .unit, ?_⟩
  simp only [List.map_nil, List.nil_append, List.length_nil, List.length_singleton,
    List.replicate_append_replicate]
  congr 1
  omega

theorem runEntry_fits (hm : Verified m) (h : MachineFits m machine)
    (hrun : machine.runEntry sink fuel = some report) : ReportFits m [] report := by
  obtain ⟨first, hfirst, hvoid⟩ := hm.initializer
  obtain ⟨entry, hentry, hvoid'⟩ := hm.entry
  rw [Machine.runEntry, h.module, hfirst] at hrun
  obtain ⟨report', hexecute, hrest⟩ := Option.bind_eq_some_iff.mp hrun
  beta_reduce at hrest
  have hnone : ([] : List Value).map Value.kind =
      first.descriptor.parameters.map Kind.ofFieldType := by
    rw [hvoid]
    rfl
  have hfits := execute_fits hm h (mem_of_routine? hfirst) (entrySlots_of_kinds hnone) hexecute
  cases hr : report'.result with
  | error e =>
    rw [hr] at hrest
    cases hrest
    rwa [hvoid] at hfits
  | ok v =>
    rw [hr] at hrest
    have hcall := call_fits hm hfits.machine hentry (entrySlots_of_unit (by rw [hvoid']; rfl)) hrest
    rwa [hvoid'] at hcall

theorem whole_run_fits (hm : Verified m) (h : MachineFits m machine)
    (hrun : machine.run sink fuel = some report) : ReportFits m [] report := by
  obtain ⟨report', hrunEntry, hrest⟩ := Option.bind_eq_some_iff.mp hrun
  have hstart : MachineFits m { machine with state := .running } := ⟨h.module, h.statics⟩
  have hfits := runEntry_fits hm hstart hrunEntry
  cases hflush : sink.refusesFlush with
  | some message =>
    rw [hflush] at hrest
    cases hrest
    exact ⟨.output message, hfits.machine⟩
  | none =>
    rw [hflush] at hrest
    cases hrest
    exact ⟨hfits.result, hfits.machine.module, hfits.machine.statics⟩

end

end PZero.Safety
