import PZero.Proofs.Machine.Statics
import PZero.Proofs.Safety.Shape

/-! # Instructions that fit are safe

Values on the stack and in the slots are of the kinds that a shape says. Then an
instruction that fits it finds its operands, and behind it they are of the kinds
that the next shape says; it fails only when it divides by zero or when a text is
refused.
-/
namespace PZero.Safety
open Bytecode Machine

/-- How a compiled program may fail. -/
inductive Permitted : Machine.Error → Prop
  | divisionByZero (routine : String) (pc : Nat) : Permitted (.fault routine pc .divisionByZero)
  | callDepth (limit : Nat) : Permitted (.callDepthExceeded limit)
  | stepLimit (limit : Nat) : Permitted (.stepLimitExceeded limit)
  | output (message : String) : Permitted (.output message)

/-- A computation that fails in a permitted way or has a result of a set. -/
def Safe {α : Type} (post : α → Prop) : Except Machine.Error α → Prop
  | .ok a => post a
  | .error e => Permitted e

theorem Safe.bind {α β : Type} {post : α → Prop} {final : β → Prop} {x : Except Machine.Error α}
    {g : α → Except Machine.Error β} (h : Safe post x) (hg : ∀ a, post a → Safe final (g a)) :
    Safe final (x >>= g) := by
  cases x with
  | error e => exact h
  | ok a => exact hg a h

theorem Safe.mono {α : Type} {post post' : α → Prop} {x : Except Machine.Error α}
    (h : Safe post x) (hpost : ∀ a, post a → post' a) : Safe post' x := by
  cases x with
  | error e => exact h
  | ok a => exact hpost a h

/-! ## Slots -/

/-- The first slots have values of the given kinds. -/
def SlotsFit (ks : List Kind) (locals : Array Value) : Prop :=
  ∀ (n : Nat) k, ks[n]? = some k → ∃ v : Value, locals[n]? = some v ∧ v.kind = k

namespace SlotsFit
variable {ks ks' : List Kind} {locals : Array Value}

theorem shorten (h : SlotsFit ks locals) (hp : ks' <+: ks) : SlotsFit ks' locals := by
  obtain ⟨rest, rfl⟩ := hp
  intro n k hn
  have hlt : n < ks'.length := (List.getElem?_eq_some_iff.mp hn).1
  exact h n k (by rw [List.getElem?_append_left hlt, hn])

theorem store (h : SlotsFit ks locals) {n : Nat} (hn : n ≤ ks.length) (hsize : n < locals.size)
    (v : Value) :
    SlotsFit (ks.take n ++ v.kind :: ks.drop (n + 1)) (locals.setIfInBounds n v) := by
  intro j k hj
  have htake : (ks.take n).length = n := by rw [List.length_take]; omega
  rcases Nat.lt_trichotomy j n with hlt | rfl | hgt
  · rw [List.getElem?_append_left (by omega), List.getElem?_take_of_lt hlt] at hj
    rw [Array.getElem?_setIfInBounds_ne (by omega)]
    exact h j k hj
  · rw [List.getElem?_append_right (by omega), htake, Nat.sub_self, List.getElem?_cons_zero] at hj
    exact ⟨v, Array.getElem?_setIfInBounds_self_of_lt hsize, Option.some.inj hj⟩
  · obtain ⟨d, rfl⟩ : ∃ d, j = n + 1 + d := ⟨j - (n + 1), by omega⟩
    rw [List.getElem?_append_right (by omega), htake, show n + 1 + d - n = d + 1 by omega,
      List.getElem?_cons_succ, List.getElem?_drop] at hj
    rw [Array.getElem?_setIfInBounds_ne (by omega)]
    exact h _ k hj

end SlotsFit

/-! ## Frames and fields -/

/-- The frame has the shape once values of the kinds that are due are on its stack. -/
structure Shaped (f : Frame) (due : List Kind) (s : Shape) : Prop where
  stack : due ++ f.stack.map Value.kind = s.stack
  slots : SlotsFit s.slots f.locals
  size : f.routine.maxLocals.toNat ≤ f.locals.size

theorem Shaped.narrow {f : Frame} {due : List Kind} {s s' : Shape} (h : Shaped f due s)
    (hs : s.Narrows s') : Shaped f due s' :=
  ⟨h.stack.trans hs.1.symm, h.slots.shorten hs.2, h.size⟩

/-- Every field has a value of its kind. -/
def StaticsFit (m : Module) (statics : List (String × Value)) : Prop :=
  ∀ field ∈ m.fields, ∃ v, statics.lookup field.name = some v ∧
    v.kind = Kind.ofFieldType field.type

theorem StaticsFit.setStatic {m : Module} {s : Store} (h : StaticsFit m s.statics)
    (hm : (m.fields.map (·.name)).Nodup) {field : Field} (hf : field ∈ m.fields) {v : Value}
    (hv : v.kind = Kind.ofFieldType field.type) :
    StaticsFit m (s.setStatic field.name v).statics := by
  intro field' hf'
  obtain ⟨u, hu, hkind⟩ := h field' hf'
  rw [lookup_setStatic, hu]
  by_cases hname : field'.name = field.name
  · obtain rfl := List.inj_on_of_nodup_map hm hf' hf hname
    exact ⟨v, by rw [if_pos rfl]; rfl, hv⟩
  · exact ⟨u, by rw [if_neg hname], hkind⟩

theorem static_eq {c : Setting} {s : Store} (hs : StaticsFit c.module s.statics) {f : FieldRef}
    {field : Field} (howner : f.owner = c.module.name) (hf : field ∈ c.module.fields)
    (hname : field.name = f.name) (htype : field.type = f.type) :
    ∃ v, c.static s f = .ok v ∧ v.kind = Kind.ofFieldType f.type := by
  obtain ⟨v, hv, hkind⟩ := hs field hf
  refine ⟨v, ?_, htype ▸ hkind⟩
  rw [hname] at hv
  simp [Setting.static, howner, hv]

theorem callee_eq {c : Setting} {f : RoutineRef} {callee : Routine}
    (howner : f.owner = c.module.name) (hcallee : routine? c.module f.name = some callee) :
    c.callee f = .ok callee := by
  simp [Setting.callee, howner, hcallee]

/-! ## Operands -/

section
variable {f : Frame} {k : Kind} {ks : List Kind}

theorem pop_eq (h : f.stack.map Value.kind = k :: ks) :
    ∃ v rest, v.kind = k ∧ rest.map Value.kind = ks ∧ f.pop = .ok (v, { f with stack := rest }) := by
  obtain ⟨v, rest, hstack, hv, hrest⟩ := List.map_eq_cons_iff.mp h
  exact ⟨v, rest, hv, hrest, by rw [Frame.pop, hstack]⟩

theorem popInt_eq (h : f.stack.map Value.kind = .int :: ks) :
    ∃ n rest, rest.map Value.kind = ks ∧ f.popInt = .ok (n, { f with stack := rest }) := by
  obtain ⟨v, rest, hv, hrest, hpop⟩ := pop_eq h
  cases v with
  | int n => exact ⟨n, rest, hrest, by rw [Frame.popInt, hpop]; rfl⟩
  | float | string | stream | unit => cases hv

theorem popFloat_eq (h : f.stack.map Value.kind = .float :: ks) :
    ∃ x rest, rest.map Value.kind = ks ∧ f.popFloat = .ok (x, { f with stack := rest }) := by
  obtain ⟨v, rest, hv, hrest, hpop⟩ := pop_eq h
  cases v with
  | float x => exact ⟨x, rest, hrest, by rw [Frame.popFloat, hpop]; rfl⟩
  | int | string | stream | unit => cases hv

theorem popStream_eq (h : f.stack.map Value.kind = .stream :: ks) :
    ∃ rest, rest.map Value.kind = ks ∧ f.popStream = .ok { f with stack := rest } := by
  obtain ⟨v, rest, hv, hrest, hpop⟩ := pop_eq h
  cases v with
  | stream => exact ⟨rest, hrest, by rw [Frame.popStream, hpop]; rfl⟩
  | int | float | string | unit => cases hv

/-- As many values as there are parameters come off in the order they were pushed. -/
theorem popMany_eq {ps : List Kind} (h : f.stack.map Value.kind = ps.reverse ++ ks) :
    ∃ vs rest, vs.map Value.kind = ps ∧ rest.map Value.kind = ks ∧
      f.popMany ps.length = .ok (vs, { f with stack := rest }) := by
  obtain ⟨front, rest, hstack, hfront, hrest⟩ := List.map_eq_append_iff.mp h
  have hlength : ps.length = front.length := by
    rw [← List.length_reverse, ← hfront, List.length_map]
  refine ⟨front.reverse, rest, by rw [List.map_reverse, hfront, List.reverse_reverse], hrest, ?_⟩
  rw [Frame.popMany, hstack, hlength, if_pos (by simp), List.take_left, List.drop_left]

theorem load_int (h : SlotsFit ks f.locals) {slot : UInt16} (hk : ks[slot.toNat]? = some .int) :
    ∃ n, f.load slot = .ok (.int n) := by
  obtain ⟨v, hload, hv⟩ := h _ _ hk
  cases v with
  | int n => exact ⟨n, by rw [Frame.load, hload]⟩
  | float | string | stream | unit => cases hv

theorem load_float (h : SlotsFit ks f.locals) {slot : UInt16}
    (hk : ks[slot.toNat]? = some .float) : ∃ x, f.load slot = .ok (.float x) := by
  obtain ⟨v, hload, hv⟩ := h _ _ hk
  cases v with
  | float x => exact ⟨x, by rw [Frame.load, hload]⟩
  | int | string | stream | unit => cases hv

theorem intBinary_safe (h : f.stack.map Value.kind = .int :: .int :: ks)
    {op : Int32 → Int32 → Except Fault Int32}
    (hop : ∀ a b e, op a b = .error e → e = .divisionByZero) :
    Safe (fun f' => ∃ n rest, rest.map Value.kind = ks ∧ f' = { f with stack := .int n :: rest })
      (f.intBinary op) := by
  obtain ⟨b, rest, hrest, hpop⟩ := popInt_eq h
  obtain ⟨a, rest', hrest', hpop'⟩ := popInt_eq (f := { f with stack := rest }) hrest
  simp only [Frame.intBinary, hpop, hpop', bind, Except.bind]
  cases hab : op a b with
  | ok n => exact ⟨n, rest', hrest', rfl⟩
  | error e =>
    obtain rfl := hop a b e hab
    exact .divisionByZero _ _

theorem floatBinary_safe (h : f.stack.map Value.kind = .float :: .float :: ks)
    (op : Single → Single → Single) :
    Safe (fun f' => ∃ x rest, rest.map Value.kind = ks ∧ f' = { f with stack := .float x :: rest })
      (f.floatBinary op) := by
  obtain ⟨b, rest, hrest, hpop⟩ := popFloat_eq h
  obtain ⟨a, rest', hrest', hpop'⟩ := popFloat_eq (f := { f with stack := rest }) hrest
  simp only [Frame.floatBinary, hpop, hpop', bind, Except.bind]
  exact ⟨op a b, rest', hrest', rfl⟩

end

theorem divide_error {a b : Int32} {e : Fault} (h : divide a b = .error e) :
    e = .divisionByZero := by
  unfold divide at h
  split at h
  · exact (Except.error.inj h).symm
  · cases h

theorem print_safe (s : Store) (sink : Sink) (text : String) :
    Safe (fun s' => s'.statics = s.statics) (s.print sink text) := by
  unfold Store.print
  split
  · exact rfl
  · split
    · exact .output _
    · exact rfl

theorem printed?_of_kind {t : FieldType} {v : Value} (h : v.kind = Kind.ofFieldType t) :
    ∃ text, printed? t v = some text := by
  cases v with
  | int n =>
    cases t with
    | int | bool => exact ⟨_, rfl⟩
    | float | string => cases h
  | float x =>
    cases t with
    | float => exact ⟨_, rfl⟩
    | int | bool | string => cases h
  | string text =>
    cases t with
    | string => exact ⟨_, rfl⟩
    | int | bool | float => cases h
  | stream | unit => cases t <;> cases h

/-! ## One instruction -/

/-- What follows the instruction at an index has the shape behind it. -/
def FlowFits (m : Module) (r : Routine) (pc : Nat) (i : Instruction) (s : Shape) : Flow → Prop
  | .next f store => f.routine = r ∧ f.pc ∈ i.successors pc ∧ Shaped f [] s ∧
      StaticsFit m store.statics
  | .call callee arguments f => callee ∈ m.routines ∧
      arguments.map Value.kind = callee.descriptor.parameters.map Kind.ofFieldType ∧
      f.routine = r ∧ f.pc ∈ i.successors pc ∧ Shaped f callee.descriptor.resultKinds s
  | .leave v => v.toList.map Value.kind = r.descriptor.resultKinds

section
variable {m : Module} {c : Setting} {f : Frame} {pc : Nat} {store : Store} {i : Instruction}
  {a b : Shape}

/-- An instruction that changes nothing but the stack and the place. -/
theorem next_fits (hf : Shaped f [] a) (hslots : b.slots = a.slots) {next : Nat}
    {stack : List Value} (hnext : next ∈ i.successors pc)
    (hstack : stack.map Value.kind = b.stack) (hs : StaticsFit m store.statics) :
    Safe (FlowFits m f.routine pc i b) (.ok (.next { f with pc := next, stack } store)) :=
  ⟨rfl, hnext, ⟨hstack, hslots ▸ hf.slots, hf.size⟩, hs⟩

theorem push_fits (hf : Shaped f [] a) (hslots : b.slots = a.slots) (hnext : f.pc ∈ i.successors pc)
    {stack : List Value} {v : Value} {ks : List Kind} (hstack : stack.map Value.kind = ks)
    (hb : b.stack = v.kind :: ks) (hs : StaticsFit m store.statics) :
    Safe (FlowFits m f.routine pc i b) (.ok (.next ({ f with stack }.push v) store)) :=
  next_fits hf hslots hnext (by rw [List.map_cons, hstack, hb]) hs

theorem jump_fits (hf : Shaped f [] a) (hslots : b.slots = a.slots) {tgt : UInt32}
    (htgt : tgt.toNat ∈ i.successors pc) (hnext : f.pc ∈ i.successors pc) {stack : List Value}
    (hstack : stack.map Value.kind = b.stack) (hs : StaticsFit m store.statics) (taken : Bool) :
    Safe (FlowFits m f.routine pc i b)
      (.ok (.next (if taken then { f with stack }.jump tgt else { f with stack }) store)) := by
  cases taken with
  | true => exact next_fits hf hslots htgt hstack hs
  | false => exact next_fits hf hslots hnext hstack hs

theorem print_fits (hf : Shaped f [] a) (hslots : b.slots = a.slots)
    (hnext : f.pc ∈ i.successors pc) {stack : List Value} (hstack : stack.map Value.kind = b.stack)
    (hs : StaticsFit m store.statics) (sink : Sink) (text : String) :
    Safe (FlowFits m f.routine pc i b)
      (do return .next { f with stack } (← store.print sink text)) := by
  refine (print_safe store sink text).bind ?_
  intro store' hstatics
  exact next_fits hf hslots hnext hstack (hstatics ▸ hs)

theorem store_fits (hf : Shaped f [] a) {slot : UInt16} (hslot : slot.toNat ≤ a.slots.length)
    (hmax : slot.toNat < f.routine.maxLocals.toNat) {v : Value}
    (hslots : b.slots = a.slots.take slot.toNat ++ v.kind :: a.slots.drop (slot.toNat + 1))
    (hnext : f.pc ∈ i.successors pc) {stack : List Value} (hstack : stack.map Value.kind = b.stack)
    (hs : StaticsFit m store.statics) :
    Safe (FlowFits m f.routine pc i b)
      (do return .next (← Frame.store { f with stack } slot v) store) := by
  have hsize : slot.toNat < f.locals.size := Nat.lt_of_lt_of_le hmax hf.size
  simp only [Frame.store, if_pos hsize]
  refine ⟨rfl, hnext, ⟨hstack, ?_, ?_⟩, hs⟩
  · rw [hslots]
    exact hf.slots.store hslot hsize v
  · exact Nat.le_trans hf.size (Nat.le_of_eq (Array.size_setIfInBounds).symm)

/-- An instruction that fits fails only in a permitted way. -/
theorem perform_safe (hm : (c.module.fields.map (·.name)).Nodup)
    (hfits : Fits c.module f.routine i a b) (hpc : f.pc = pc + 1) (hf : Shaped f [] a)
    (hs : StaticsFit c.module store.statics) :
    Safe (FlowFits c.module f.routine pc i b) (perform c f store i) := by
  obtain ⟨hallowed, ⟨rest, ha, hb⟩, hslots⟩ := hfits
  have hstack : f.stack.map Value.kind = i.operands ++ rest := hf.stack.trans ha
  have hnext : i.successors pc = [pc + 1] → f.pc ∈ i.successors pc := by
    intro hsucc
    rw [hsucc, hpc]
    exact .head _
  cases i with
  | iconst | fconst | sconst | getStdout =>
    exact push_fits hf hslots (hnext rfl) hstack hb hs
  | goto => exact next_fits hf hslots (.head _) (by rw [hb, hstack]; rfl) hs
  | iload slot =>
    obtain ⟨n, hload⟩ := load_int hf.slots hallowed
    rw [perform, hload]
    exact push_fits hf hslots (hnext rfl) hstack hb hs
  | fload slot =>
    obtain ⟨x, hload⟩ := load_float hf.slots hallowed
    rw [perform, hload]
    exact push_fits hf hslots (hnext rfl) hstack hb hs
  | istore slot =>
    obtain ⟨n, stack, hstack, hpop⟩ := popInt_eq hstack
    rw [perform, hpop]
    exact store_fits hf hallowed.1 hallowed.2 hslots (hnext rfl) (hstack.trans hb.symm) hs
  | fstore slot =>
    obtain ⟨x, stack, hstack, hpop⟩ := popFloat_eq hstack
    rw [perform, hpop]
    exact store_fits hf hallowed.1 hallowed.2 hslots (hnext rfl) (hstack.trans hb.symm) hs
  | getStatic ref =>
    obtain ⟨howner, field, hfield, hname, htype⟩ := hallowed
    obtain ⟨v, hv, hkind⟩ := static_eq hs howner hfield hname htype
    rw [perform, hv]
    exact push_fits hf hslots (hnext rfl) hstack (hkind ▸ hb) hs
  | putStatic ref =>
    obtain ⟨howner, field, hfield, hname, htype⟩ := hallowed
    obtain ⟨u, hu, -⟩ := static_eq hs howner hfield hname htype
    obtain ⟨v, stack, hv, hstack, hpop⟩ := pop_eq hstack
    simp only [perform, hpop, hu, bind, Except.bind]
    refine next_fits hf hslots (hnext rfl) (hstack.trans hb.symm) ?_
    exact hname ▸ hs.setStatic hm hfield (htype ▸ hv)
  | iadd | isub | imul | iand | ior | ixor =>
    refine (intBinary_safe hstack (by simp)).bind ?_
    rintro _ ⟨n, stack, hstack, rfl⟩
    exact push_fits hf hslots (hnext rfl) hstack hb hs
  | idiv =>
    refine (intBinary_safe hstack fun _ _ _ => divide_error).bind ?_
    rintro _ ⟨n, stack, hstack, rfl⟩
    exact push_fits hf hslots (hnext rfl) hstack hb hs
  | fadd | fsub | fmul | fdiv =>
    refine (floatBinary_safe hstack _).bind ?_
    rintro _ ⟨x, stack, hstack, rfl⟩
    exact push_fits hf hslots (hnext rfl) hstack hb hs
  | ineg =>
    obtain ⟨n, stack, hstack, hpop⟩ := popInt_eq hstack
    rw [perform, hpop]
    exact push_fits hf hslots (hnext rfl) hstack hb hs
  | fneg =>
    obtain ⟨x, stack, hstack, hpop⟩ := popFloat_eq hstack
    rw [perform, hpop]
    exact push_fits hf hslots (hnext rfl) hstack hb hs
  | fcmpg =>
    obtain ⟨y, stack, hstack, hpop⟩ := popFloat_eq hstack
    obtain ⟨x, stack', hstack', hpop'⟩ := popFloat_eq (f := { f with stack }) hstack
    simp only [perform, hpop, hpop', bind, Except.bind]
    exact push_fits hf hslots (hnext rfl) hstack' hb hs
  | ifZero condition tgt =>
    obtain ⟨n, stack, hstack, hpop⟩ := popInt_eq hstack
    rw [perform, hpop]
    exact jump_fits hf hslots (.tail _ (.head _)) (hpc ▸ .head _) (hstack.trans hb.symm) hs _
  | ifCompare condition tgt =>
    obtain ⟨y, stack, hstack, hpop⟩ := popInt_eq hstack
    obtain ⟨x, stack', hstack', hpop'⟩ := popInt_eq (f := { f with stack }) hstack
    simp only [perform, hpop, hpop', bind, Except.bind]
    exact jump_fits hf hslots (.tail _ (.head _)) (hpc ▸ .head _) (hstack'.trans hb.symm) hs _
  | invoke ref =>
    obtain ⟨howner, callee, hcallee, hd⟩ := hallowed
    obtain ⟨arguments, stack, hargs, hstack, hpop⟩ := popMany_eq hstack
    rw [List.length_map] at hpop
    simp only [perform, callee_eq howner hcallee, hpop, bind, Except.bind]
    refine ⟨mem_of_routine? hcallee, hd ▸ hargs, rfl, hnext rfl, ?_, hslots ▸ hf.slots, hf.size⟩
    rw [hb, hd, hstack]
    rfl
  | ret => exact hallowed.2.symm
  | iret =>
    obtain ⟨n, stack, -, hpop⟩ := popInt_eq hstack
    rw [perform, hpop]
    exact hallowed.2.symm
  | fret =>
    obtain ⟨x, stack, -, hpop⟩ := popFloat_eq hstack
    rw [perform, hpop]
    exact hallowed.2.symm
  | print t =>
    obtain ⟨v, stack, hv, hstack, hpop⟩ := pop_eq hstack
    obtain ⟨stack', hstack', hpop'⟩ := popStream_eq (f := { f with stack }) hstack
    obtain ⟨text, htext⟩ := printed?_of_kind hv
    simp only [perform, hpop, hpop', htext, bind, Except.bind]
    exact print_fits hf hslots (hnext rfl) (hstack'.trans hb.symm) hs c.sink text
  | printFixed places =>
    obtain ⟨x, stack, hstack, hpop⟩ := popFloat_eq hstack
    obtain ⟨stack', hstack', hpop'⟩ := popStream_eq (f := { f with stack }) hstack
    simp only [perform, hpop, hpop', bind, Except.bind]
    exact print_fits hf hslots (hnext rfl) (hstack'.trans hb.symm) hs c.sink _
  | printNewline =>
    obtain ⟨stack, hstack, hpop⟩ := popStream_eq hstack
    simp only [perform, hpop, bind, Except.bind]
    exact print_fits hf hslots (hnext rfl) (hstack.trans hb.symm) hs c.sink _
  | pop => exact hallowed.elim

end

end PZero.Safety
