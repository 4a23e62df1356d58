import PZero.Proofs.Machine.Perform

/-! # What an instruction cannot exceed

How many steps a run takes and how many activations it has is not for an instruction
to decide: carrying one out fails because of its operands, because of what it refers
to or because a text is refused, and for no other reason.
-/
namespace PZero.Machine
open Bytecode

/-- The errors of a run as a whole: it has too many activations or takes too many steps. -/
def Error.IsBudget : Error → Prop
  | callDepthExceeded _ | stepLimitExceeded _ => True
  | fault .. | unknownRoutine _ | unknownField _ | output _ | load _ => False

/-- A computation that does not exceed the budget of the run. -/
def WithinBudget {α : Type} (x : Except Error α) : Prop := ∀ e, x = .error e → ¬ e.IsBudget

namespace WithinBudget
variable {α β : Type}

theorem ok (a : α) : WithinBudget (.ok a) := fun _ h => nomatch h

theorem error {e : Error} (h : ¬ e.IsBudget) : WithinBudget (.error e : Except Error α) := by
  intro e' heq
  cases heq
  exact h

theorem bind {x : Except Error α} {g : α → Except Error β} (hx : WithinBudget x)
    (hg : ∀ a, WithinBudget (g a)) : WithinBudget (x >>= g) := by
  cases x with
  | error e => exact error (hx e rfl)
  | ok a => exact hg a

theorem fetch (f : Frame) : WithinBudget f.fetch := by
  unfold Frame.fetch
  split
  · exact ok _
  · exact error id

theorem of_atPlace {f : Frame} {post : α → Prop} {x : Except Error α} (h : AtPlace f post x) :
    WithinBudget x := by
  rintro e rfl
  cases e with
  | callDepthExceeded | stepLimitExceeded => exact h.elim
  | fault | unknownRoutine | unknownField | output | load => exact id

end WithinBudget

/-- No instruction exceeds the budget by itself. -/
theorem perform_withinBudget (c : Setting) (f : Frame) (s : Store) (i : Instruction) :
    WithinBudget (perform c f s i) :=
  .of_atPlace (perform_atPlace c f s i)

end PZero.Machine
