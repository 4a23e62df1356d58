import Mathlib
import PZero.Machine.Step

/-! # What an instruction does

An instruction is carried out for the frame that fetched it. Its faults name the place of
that frame, and the errors besides are few. What it returns is for the same frame at the
same place, unless it jumps, and of the store it changes one field or the output at most.
-/
namespace PZero.Machine
open Bytecode

namespace Frame

/-- Both frames are at the same place of the same routine. -/
structure SamePlace (f f' : Frame) : Prop where
  routine : f'.routine = f.routine
  pc : f'.pc = f.pc
  last : f'.last = f.last

theorem SamePlace.refl (f : Frame) : f.SamePlace f := ⟨rfl, rfl, rfl⟩

theorem SamePlace.fault_eq {f f' : Frame} (h : f.SamePlace f') (e : Fault) :
    f'.fault e = f.fault e := by
  rw [fault, fault, h.routine, h.last]

theorem SamePlace.push {f f' : Frame} (h : f.SamePlace f') (v : Value) : f.SamePlace (f'.push v) :=
  ⟨h.routine, h.pc, h.last⟩

/-- The frame after its next instruction was fetched. -/
def fetched (f : Frame) : Frame := { f with pc := f.pc + 1, last := f.pc }

end Frame

/-- An error of an instruction that was fetched. A fault names the place of the frame. The other ones
that an instruction can have concern what it refers to and the text that it prints. -/
def Error.FaultsAt (f : Frame) : Error → Prop
  | fault name pc e => name = f.routine.name ∧ pc = f.last ∧ e ≠ .fellOffEnd
  | unknownRoutine _ | unknownField _ | output _ => True
  | callDepthExceeded _ | stepLimitExceeded _ | load _ => False

/-- What can become of the store when an instruction is carried out. -/
inductive Effect (sink : Sink) (s : Store) : Store → Prop
  | keep : Effect sink s s
  | assign (name : String) (v : Value) : Effect sink s (s.setStatic name v)
  | print {s' : Store} (text : String) : s.print sink text = .ok s' → Effect sink s s'

/-- A computation for a frame: its faults name the place of the frame, its result is one of a set. -/
def AtPlace {α : Type} (f : Frame) (post : α → Prop) : Except Error α → Prop
  | .ok a => post a
  | .error e => e.FaultsAt f

namespace AtPlace
variable {α β : Type} {f f' : Frame} {post : α → Prop} {final : β → Prop}

theorem bind {x : Except Error α} {g : α → Except Error β} (h : AtPlace f post x)
    (hg : ∀ a, post a → AtPlace f final (g a)) : AtPlace f final (x >>= g) := by
  cases x with
  | error e => exact h
  | ok a => exact hg a h

theorem fault (h : f.SamePlace f') {e : Fault} (he : e ≠ .fellOffEnd) :
    AtPlace f post (.error (f'.fault e)) :=
  h.fault_eq e ▸ ⟨rfl, rfl, he⟩

theorem mismatch (h : f.SamePlace f') (k : Kind) (v : Value) :
    AtPlace f post (throw (f'.mismatch k v)) :=
  fault h nofun

theorem pop (h : f.SamePlace f') : AtPlace f (fun p => f.SamePlace p.2) f'.pop := by
  unfold Frame.pop
  cases f'.stack with
  | nil => exact fault h nofun
  | cons v rest => exact ⟨h.routine, h.pc, h.last⟩

theorem popInt (h : f.SamePlace f') : AtPlace f (fun p => f.SamePlace p.2) f'.popInt := by
  refine (pop h).bind fun (v, f'') h' => ?_
  cases v with
  | int n => exact h'
  | float | string | stream | unit => exact mismatch h' _ _

theorem popFloat (h : f.SamePlace f') : AtPlace f (fun p => f.SamePlace p.2) f'.popFloat := by
  refine (pop h).bind fun (v, f'') h' => ?_
  cases v with
  | float x => exact h'
  | int | string | stream | unit => exact mismatch h' _ _

theorem popStream (h : f.SamePlace f') : AtPlace f f.SamePlace f'.popStream := by
  refine (pop h).bind fun (v, f'') h' => ?_
  cases v with
  | stream => exact h'
  | int | float | string | unit => exact mismatch h' _ _

theorem popMany (h : f.SamePlace f') (n : Nat) :
    AtPlace f (fun p => f.SamePlace p.2) (f'.popMany n) := by
  unfold Frame.popMany
  split
  · exact ⟨h.routine, h.pc, h.last⟩
  · exact fault h nofun

theorem load (h : f.SamePlace f') (slot : UInt16) : AtPlace f (fun _ => True) (f'.load slot) := by
  unfold Frame.load
  split
  · trivial
  · exact fault h nofun

theorem store (h : f.SamePlace f') (slot : UInt16) (v : Value) :
    AtPlace f f.SamePlace (f'.store slot v) := by
  unfold Frame.store
  split
  · exact ⟨h.routine, h.pc, h.last⟩
  · exact fault h nofun

theorem intBinary (h : f.SamePlace f') {op : Int32 → Int32 → Except Fault Int32}
    (hop : ∀ a b, op a b ≠ .error .fellOffEnd) : AtPlace f f.SamePlace (f'.intBinary op) := by
  refine (popInt h).bind fun (b, g) hg => (popInt hg).bind fun (a, g') hg' => ?_
  dsimp only
  cases hop' : op a b with
  | ok n => exact hg'.push _
  | error e => exact fault hg' fun he => hop a b (he ▸ hop')

theorem floatBinary (h : f.SamePlace f') (op : Single → Single → Single) :
    AtPlace f f.SamePlace (f'.floatBinary op) :=
  (popFloat h).bind fun (_, _) hg => (popFloat hg).bind fun (_, _) hg' => hg'.push _

theorem static (c : Setting) (s : Store) (r : FieldRef) :
    AtPlace f (fun _ => True) (c.static s r) := by
  unfold Setting.static
  split <;> trivial

theorem callee (c : Setting) (r : RoutineRef) :
    AtPlace f (fun routine => c.callee r = .ok routine) (c.callee r) := by
  unfold Setting.callee
  split
  · rfl
  · trivial

theorem print (s : Store) (sink : Sink) (text : String) :
    AtPlace f (fun s' => s.print sink text = .ok s') (s.print sink text) := by
  unfold Store.print
  split
  · rfl
  · split
    · trivial
    · rfl

end AtPlace

/-- Where an instruction leaves the frame that it was fetched for, and what has become of the
store. -/
def Flow.From (c : Setting) (f : Frame) (s : Store) (i : Instruction) : Flow → Prop
  | next f' s' => f'.routine = f.routine ∧ f'.last = f.last ∧
      (f'.pc = f.pc ∨ ∃ t, i.target? = some t ∧ f'.pc = t.toNat) ∧ Effect c.sink s s'
  | call r _ f' => (∃ ref, i = .invoke ref ∧ c.callee ref = .ok r) ∧ f.SamePlace f'
  | leave _ => True

theorem AtPlace.next {c : Setting} {f f' : Frame} {i : Instruction} {s s' : Store}
    (h : f.SamePlace f') (hs : Effect c.sink s s') :
    AtPlace f (Flow.From c f s i) (pure (.next f' s')) :=
  ⟨h.routine, h.last, .inl h.pc, hs⟩

theorem AtPlace.jump {c : Setting} {f f' : Frame} {i : Instruction} {s : Store} {t : UInt32}
    (h : f.SamePlace f') (ht : i.target? = some t) :
    AtPlace f (Flow.From c f s i) (pure (.next (f'.jump t) s)) :=
  ⟨h.routine, h.last, .inr ⟨t, ht, rfl⟩, .keep⟩

/-- Faults name the place of the instruction, nothing but a jump takes its frame elsewhere, and a
value is stored or a text is printed at most. -/
theorem perform_atPlace (c : Setting) (f : Frame) (s : Store) (i : Instruction) :
    AtPlace f (Flow.From c f s i) (perform c f s i) := by
  have hf := Frame.SamePlace.refl f
  have hdivide : ∀ a b, divide a b ≠ .error .fellOffEnd := by
    intro a b
    unfold divide
    split <;> nofun
  cases i with
  | iconst | fconst | sconst | getStdout => exact .next (hf.push _) .keep
  | goto t => exact .jump hf rfl
  | ret => trivial
  | iload slot =>
    refine (AtPlace.load hf slot).bind fun v _ => ?_
    cases v with
    | int => exact .next (hf.push _) .keep
    | float | string | stream | unit => exact .mismatch hf _ _
  | fload slot =>
    refine (AtPlace.load hf slot).bind fun v _ => ?_
    cases v with
    | float => exact .next (hf.push _) .keep
    | int | string | stream | unit => exact .mismatch hf _ _
  | istore slot =>
    exact (AtPlace.popInt hf).bind fun (_, _) h => (AtPlace.store h slot _).bind fun _ h =>
      .next h .keep
  | fstore slot =>
    exact (AtPlace.popFloat hf).bind fun (_, _) h => (AtPlace.store h slot _).bind fun _ h =>
      .next h .keep
  | getStatic r => exact (AtPlace.static c s r).bind fun _ _ => .next (hf.push _) .keep
  | putStatic r =>
    exact (AtPlace.pop hf).bind fun (_, _) h => (AtPlace.static c s r).bind fun _ _ =>
      .next h (.assign _ _)
  | iadd | isub | imul | iand | ior | ixor =>
    exact AtPlace.bind (.intBinary hf fun _ _ => nofun) fun _ h => .next h .keep
  | idiv => exact (AtPlace.intBinary hf hdivide).bind fun _ h => .next h .keep
  | fadd | fsub | fmul | fdiv =>
    exact (AtPlace.floatBinary hf _).bind fun _ h => .next h .keep
  | ineg => exact (AtPlace.popInt hf).bind fun (_, _) h => .next (h.push _) .keep
  | fneg => exact (AtPlace.popFloat hf).bind fun (_, _) h => .next (h.push _) .keep
  | fcmpg =>
    exact (AtPlace.popFloat hf).bind fun (_, _) h => (AtPlace.popFloat h).bind fun (_, _) h =>
      .next (h.push _) .keep
  | ifZero condition t =>
    refine (AtPlace.popInt hf).bind fun (v, f') h => ?_
    dsimp only
    split
    · exact .jump h rfl
    · exact .next h .keep
  | ifCompare condition t =>
    refine (AtPlace.popInt hf).bind fun (b, f') h => (AtPlace.popInt h).bind fun (a, f'') h => ?_
    dsimp only
    split
    · exact .jump h rfl
    · exact .next h .keep
  | invoke r =>
    exact (AtPlace.callee c r).bind fun _ hr => (AtPlace.popMany hf _).bind fun (_, _) h =>
      ⟨⟨r, rfl, hr⟩, h⟩
  | iret => exact (AtPlace.popInt hf).bind fun _ _ => trivial
  | fret => exact (AtPlace.popFloat hf).bind fun _ _ => trivial
  | print t =>
    refine (AtPlace.pop hf).bind fun (v, f') h => (AtPlace.popStream h).bind fun f'' h => ?_
    cases printed? t v with
    | some text => exact (AtPlace.print s c.sink text).bind fun _ hs => .next h (.print _ hs)
    | none => exact .mismatch h _ _
  | printFixed =>
    exact (AtPlace.popFloat hf).bind fun (_, _) h => (AtPlace.popStream h).bind fun _ h =>
      (AtPlace.print s c.sink _).bind fun _ hs => .next h (.print _ hs)
  | printNewline =>
    exact (AtPlace.popStream hf).bind fun _ h => (AtPlace.print s c.sink _).bind fun _ hs =>
      .next h (.print _ hs)
  | pop => exact (AtPlace.pop hf).bind fun (_, _) h => .next h .keep

end PZero.Machine
