import PZero.Proofs.Lowering.Assembled
import PZero.Proofs.Totality.Lowering

/-! # When a program has a module

A checked program has a module unless one of its functions or its statement is
obstructed. The types of parameters and results are written down, and no string type
can be written, so that the routine of a function fails only where its body or its
result does.
-/
namespace PZero.Totality
open Bytecode Rules Lowering Safety Machine

/-! ## Functions -/

section
variable {G : Globals} {L L' : Locals} {reserved : List Kind} {slots slots' : Slots}
  {owner : String} {base : Nat}

end

/-! ## Programs -/

/-- Declares a string where the program never gets to, in a function that nothing calls. -/
def idle : Surface.Program where
  declarations :=
    [.function ⟨"unused", {}⟩ [(⟨"x", {}⟩, .int)]
        [.whileDo (.literal (.bool false {}))
          (.block [.declare .readOnly ⟨"text", {}⟩ (.literal (.string "hello" {}))])]
        none,
      .function ⟨"main", {}⟩ [] [.call ⟨"print", {}⟩ [.literal (.string "hello" {})]] none]

end PZero.Totality
