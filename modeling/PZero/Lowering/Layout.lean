import PZero.Bytecode.Instruction

/-! # Layout of code

Jump targets count from the start of the routine, so every piece of code is laid
out for the place where it begins.
-/
namespace PZero.Lowering
open Bytecode

abbrev Code := List Instruction

/-- An index as a jump target. -/
def target (index : Nat) : UInt32 := UInt32.ofNat index

/-- Where the branch for a true guard begins. -/
def yesStart (base : Nat) (guard : Code) : Nat := base + guard.length + 1

/-- Where the branch for a false guard begins. -/
def noStart (base : Nat) (guard yes : Code) : Nat := yesStart base guard + yes.length + 1

/-- One of two branches, chosen by the guard. -/
def conditional (base : Nat) (guard yes no : Code) : Code :=
  guard ++ .ifZero .eq (target (noStart base guard yes)) :: yes ++
    .goto (target (noStart base guard yes + no.length)) :: no

/-- A body repeated as long as the guard holds. -/
def loop (base : Nat) (guard body : Code) : Code :=
  guard ++ .ifZero .eq (target (yesStart base guard + body.length + 1)) :: body ++
    [.goto (target base)]

/-- Pushes 1 when the jump is taken and 0 when not. -/
def verdict (base : Nat) (jump : UInt32 → Instruction) : Code :=
  [jump (target (base + 3)), .iconst 0, .goto (target (base + 4)), .iconst 1]

end PZero.Lowering
