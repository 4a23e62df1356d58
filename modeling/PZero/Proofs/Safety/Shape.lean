import Mathlib
import PZero.Machine.Basic

/-! # Shapes of frames

A shape says what is known of a frame at an instruction: the kinds of the values on
the operand stack and those of the values in the first slots. An instruction fits
two shapes when it can be carried out from one of them and leads to the other. A
routine is annotated when each index has a shape which its instruction fits and from
which its successors can go on.
-/
namespace PZero.Bytecode.Instruction
open Machine

/-- The kinds of the values that an instruction takes off the stack, the top first. -/
def operands : Instruction → List Kind
  | iconst _ | fconst _ | sconst _ | iload _ | fload _ | getStatic _ => []
  | istore _ | ineg | ifZero _ _ | iret => [.int]
  | fstore _ | fneg | fret => [.float]
  | putStatic f => [Kind.ofFieldType f.type]
  | iadd | isub | imul | idiv | iand | ior | ixor | ifCompare _ _ => [.int, .int]
  | fadd | fsub | fmul | fdiv | fcmpg => [.float, .float]
  | invoke f => (f.descriptor.parameters.map Kind.ofFieldType).reverse
  | print t => [Kind.ofFieldType t, .stream]
  | printFixed _ => [.float, .stream]
  | printNewline => [.stream]
  | goto _ | ret | getStdout | pop => []

end Instruction

/-- The kind of the result, if there is one. -/
def Descriptor.resultKinds (d : Descriptor) : List Machine.Kind :=
  (d.result.map Machine.Kind.ofFieldType).toList

namespace Instruction
open Machine

/-- The kinds of the values that an instruction leaves on the stack; a call leaves what the called
routine returns. -/
def results : Instruction → List Kind
  | iconst _ | iload _ | iadd | isub | imul | idiv | ineg | iand | ior | ixor | fcmpg => [.int]
  | fconst _ | fload _ | fadd | fsub | fmul | fdiv | fneg => [.float]
  | sconst _ => [.string]
  | getStatic f => [Kind.ofFieldType f.type]
  | invoke f => f.descriptor.resultKinds
  | getStdout => [.stream]
  | istore _ | fstore _ | putStatic _ | ifZero _ _ | ifCompare _ _ | goto _ | ret | iret | fret
  | print _ | printFixed _ | printNewline | pop => []

/-- Where the routine goes on behind the instruction at an index. -/
def successors (pc : Nat) : Instruction → List Nat
  | ifZero _ t | ifCompare _ t => [pc + 1, t.toNat]
  | goto t => [t.toNat]
  | ret | iret | fret => []
  | _ => [pc + 1]

theorem successors_ifZero (pc : Nat) (condition : Condition) (t : UInt32) :
    (ifZero condition t).successors pc = [pc + 1, t.toNat] := rfl

/-- The kinds of the slots behind an instruction. -/
def slotsBehind (slots : List Kind) : Instruction → List Kind
  | istore n => slots.take n.toNat ++ .int :: slots.drop (n.toNat + 1)
  | fstore n => slots.take n.toNat ++ .float :: slots.drop (n.toNat + 1)
  | _ => slots

end PZero.Bytecode.Instruction

namespace PZero.Safety
open Bytecode Machine

structure Shape where
  /-- The top of the stack comes first. -/
  stack : List Kind
  slots : List Kind

namespace Shape

def push (s : Shape) (k : Kind) : Shape := { s with stack := k :: s.stack }

/-- The other shape has the same stack and does not know more slots. -/
def Narrows (s s' : Shape) : Prop := s'.stack = s.stack ∧ s'.slots <+: s.slots

theorem Narrows.refl (s : Shape) : s.Narrows s := ⟨rfl, List.prefix_rfl⟩

theorem Narrows.trans {s s' s'' : Shape} (h : s.Narrows s') (h' : s'.Narrows s'') :
    s.Narrows s'' :=
  ⟨h'.1.trans h.1, h'.2.trans h.2⟩

end Shape

/-! ## Instructions -/

/-- A routine may be left from the shape: nothing but its result is on the stack. -/
def Leaves (r : Routine) (s : Shape) (ks : List Kind) : Prop :=
  s.stack = ks ∧ r.descriptor.resultKinds = ks

/-- What an instruction refers to is there: slots of the shape, fields and routines of the module.
No code discards a value. -/
def Allowed (m : Module) (r : Routine) (s : Shape) : Instruction → Prop
  | .iload n => s.slots[n.toNat]? = some .int
  | .fload n => s.slots[n.toNat]? = some .float
  | .istore n | .fstore n => n.toNat ≤ s.slots.length ∧ n.toNat < r.maxLocals.toNat
  | .getStatic f | .putStatic f =>
    f.owner = m.name ∧ ∃ field ∈ m.fields, field.name = f.name ∧ field.type = f.type
  | .invoke f =>
    f.owner = m.name ∧ ∃ callee, routine? m f.name = some callee ∧ callee.descriptor = f.descriptor
  | .ret => Leaves r s []
  | .iret => Leaves r s [.int]
  | .fret => Leaves r s [.float]
  | .pop => False
  | _ => True

/-- The instruction can be carried out from the first shape and leads to the second. -/
structure Fits (m : Module) (r : Routine) (i : Instruction) (s s' : Shape) : Prop where
  allowed : Allowed m r s i
  stack : ∃ rest, s.stack = i.operands ++ rest ∧ s'.stack = i.results ++ rest
  slots : s'.slots = i.slotsBehind s.slots

/-- The instruction at an index fits the shapes, and its successors are of a set. -/
def FitsAt (m : Module) (r : Routine) (shape : Nat → Shape) (inside : Nat → Prop) (pc : Nat) :
    Prop :=
  ∃ i s, r.code[pc]? = some i ∧ Fits m r i (shape pc) s ∧
    ∀ next ∈ i.successors pc, inside next ∧ s.Narrows (shape next)

theorem FitsAt.mono {m : Module} {r : Routine} {shape shape' : Nat → Shape}
    {inside inside' : Nat → Prop} {pc : Nat} (h : FitsAt m r shape inside pc)
    (hpc : shape' pc = shape pc)
    (hnext : ∀ next, inside next → inside' next ∧ (shape next).Narrows (shape' next)) :
    FitsAt m r shape' inside' pc := by
  obtain ⟨i, s, hi, hfits, hsucc⟩ := h
  refine ⟨i, s, hi, hpc ▸ hfits, fun next hmem => ?_⟩
  obtain ⟨hinside, hs⟩ := hsucc next hmem
  obtain ⟨hinside', hs'⟩ := hnext next hinside
  exact ⟨hinside', hs.trans hs'⟩

/-! ## Routines -/

/-- The shape with which a routine begins: its arguments are in the first slots. -/
def entryShape (r : Routine) : Shape where
  stack := []
  slots := r.descriptor.parameters.map Kind.ofFieldType ++
    List.replicate (r.maxLocals.toNat - r.descriptor.parameters.length) .unit

/-- Every instruction fits the shapes, and no one leads out of the code. -/
structure Annotated (m : Module) (r : Routine) (shape : Nat → Shape) : Prop where
  nonempty : 0 < r.code.size
  entry : (entryShape r).Narrows (shape 0)
  code : ∀ pc < r.code.size, FitsAt m r shape (· < r.code.size) pc

/-- A module that can be run and whose routines can all be annotated. -/
structure Verified (m : Module) : Prop where
  fields : (m.fields.map (·.name)).Nodup
  initial : ∀ field ∈ m.fields, field.initial.type = field.type
  initializer : ∃ r, routine? m Machine.initializer = some r ∧ r.descriptor = .void
  entry : ∃ r, routine? m Machine.entryRoutine = some r ∧ r.descriptor = .void
  routines : ∀ r ∈ m.routines, ∃ shape, Annotated m r shape

end PZero.Safety
