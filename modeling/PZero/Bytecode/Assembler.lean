import PZero.Bytecode.Instruction

/-! # Assembling code with labels

Jumps may name a label before it is placed. Finishing fills in, for each jump, the
number of instructions that came before its label.
-/
namespace PZero.Bytecode

/-- A symbolic jump target. -/
structure Label where
  id : UInt32
  deriving DecidableEq, Inhabited

structure Assembler where
  code : List Instruction := []
  /-- Where each label was placed, by its id. -/
  labels : List (Option UInt32) := []
  /-- The index of each symbolic jump with its label, in the order of emission. -/
  jumps : List (Nat × Label) := []

namespace Assembler

def newLabel (a : Assembler) : Label × Assembler :=
  (⟨UInt32.ofNat a.labels.length⟩, { a with labels := a.labels ++ [none] })

/-- Binds a label to the next instruction. A label of another assembler, or one already placed, is
refused. -/
def place (a : Assembler) (l : Label) : Except Error Assembler :=
  match a.labels[l.id.toNat]? with
  | some none =>
    .ok { a with labels := a.labels.set l.id.toNat (some (UInt32.ofNat a.code.length)) }
  | _ => .error (.labelPlacedTwice l.id)

def emit (a : Assembler) (i : Instruction) : Assembler := { a with code := a.code ++ [i] }

/-- Emits an instruction whose target is filled in later. -/
def emitTo (a : Assembler) (i : Instruction) (l : Label) : Assembler :=
  { a with code := a.code ++ [i], jumps := a.jumps ++ [(a.code.length, l)] }

/-- A jump on a comparison with zero, or without a condition. -/
def jump (a : Assembler) (condition : Option Condition) (l : Label) : Assembler :=
  match condition with
  | some c => a.emitTo (.ifZero c 0) l
  | none => a.emitTo (.goto 0) l

/-- A jump on a comparison of two ints. -/
def jumpCompare (a : Assembler) (condition : Condition) (l : Label) : Assembler :=
  a.emitTo (.ifCompare condition 0) l

def size (a : Assembler) : Nat := a.code.length

/-- The place of a label, if it has one. -/
def position? (a : Assembler) (l : Label) : Option UInt32 := (a.labels[l.id.toNat]?).join

/-- Fills in the target of one jump. -/
def resolve (a : Assembler) (code : List Instruction) (jump : Nat × Label) :
    Except Error (List Instruction) :=
  match a.position? jump.2 with
  | some target => .ok (code.modify jump.1 (Instruction.withTarget target))
  | none => .error (.unplacedLabel jump.2.id)

/-- The finished code; the first jump to a label that was never placed is an error. -/
def finish (a : Assembler) : Except Error (List Instruction) := a.jumps.foldlM a.resolve a.code

end Assembler
end PZero.Bytecode
