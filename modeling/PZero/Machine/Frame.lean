import PZero.Machine.Error

/-! # Activations of routines

A frame holds the local slots and the operand stack of one activation. Besides the
instruction to come it knows the one fetched last, which is where a fault is
reported.
-/
namespace PZero.Machine
open Bytecode

structure Frame where
  routine : Routine
  pc : Nat := 0
  /-- The index of the instruction fetched last. -/
  last : Nat := 0
  locals : Array Value
  /-- The top of the stack comes first. -/
  stack : List Value := []
  deriving Inhabited

namespace Frame

/-- The arguments fill the first slots, the others hold nothing yet. -/
def enter (r : Routine) (arguments : List Value) : Frame :=
  { routine := r
    locals :=
      arguments.toArray ++ Array.replicate (r.maxLocals.toNat - arguments.length) .unit }

def fault (f : Frame) (e : Fault) : Error := .fault f.routine.name f.last e

def mismatch (f : Frame) (expected : Kind) (found : Value) : Error :=
  f.fault (.typeMismatch expected found.kind)

def fetch (f : Frame) : Except Error (Instruction × Frame) :=
  match f.routine.code[f.pc]? with
  | some i => .ok (i, { f with pc := f.pc + 1, last := f.pc })
  | none => .error (f.fault .fellOffEnd)

def jump (f : Frame) (target : UInt32) : Frame := { f with pc := target.toNat }

def push (f : Frame) (v : Value) : Frame := { f with stack := v :: f.stack }

def pop (f : Frame) : Except Error (Value × Frame) :=
  match f.stack with
  | v :: rest => .ok (v, { f with stack := rest })
  | [] => .error (f.fault .stackUnderflow)

def popInt (f : Frame) : Except Error (Int32 × Frame) := do
  let (v, f) ← f.pop
  match v with
  | .int n => return (n, f)
  | v => throw (f.mismatch .int v)

def popFloat (f : Frame) : Except Error (Single × Frame) := do
  let (v, f) ← f.pop
  match v with
  | .float x => return (x, f)
  | v => throw (f.mismatch .float v)

def popStream (f : Frame) : Except Error Frame := do
  let (v, f) ← f.pop
  match v with
  | .stream => return f
  | v => throw (f.mismatch .stream v)

/-- The top `n` values in the order they were pushed. -/
def popMany (f : Frame) (n : Nat) : Except Error (List Value × Frame) :=
  if n ≤ f.stack.length then
    .ok ((f.stack.take n).reverse, { f with stack := f.stack.drop n })
  else .error (f.fault .stackUnderflow)

def load (f : Frame) (slot : UInt16) : Except Error Value :=
  match f.locals[slot.toNat]? with
  | some v => .ok v
  | none => .error (f.fault (.badLocal slot))

def store (f : Frame) (slot : UInt16) (v : Value) : Except Error Frame :=
  if slot.toNat < f.locals.size then
    .ok { f with locals := f.locals.setIfInBounds slot.toNat v }
  else .error (f.fault (.badLocal slot))

/-- Pops two ints and pushes what becomes of the lower and the upper one. -/
def intBinary (f : Frame) (op : Int32 → Int32 → Except Fault Int32) : Except Error Frame := do
  let (b, f) ← f.popInt
  let (a, f) ← f.popInt
  match op a b with
  | .ok n => return f.push (.int n)
  | .error e => throw (f.fault e)

def floatBinary (f : Frame) (op : Single → Single → Single) : Except Error Frame := do
  let (b, f) ← f.popFloat
  let (a, f) ← f.popFloat
  return f.push (.float (op a b))

end Frame
end PZero.Machine
