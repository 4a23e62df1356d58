import PZero.Proofs.Analysis.Log
import PZero.Proofs.Analysis.Names

/-! # The types that diagnostics show

A diagnostic shows types where they do not fit. The error type fits everywhere, so
that it is never shown.
-/
namespace PZero

/-- The types that a diagnostic shows. -/
def Diagnostic.types : Diagnostic → List Ty
  | operandsIncompatible _ _ left _ right => [left, right]
  | binaryOperandType _ t _ | unaryOperandType _ t _ | ifGuardNotBool t _
  | whileGuardNotBool t _ => [t]
  | resultMismatch _ expected found _ => [expected, found]
  | argumentType t parameter _ => [t, parameter]
  | assignIncompatible target _ t _ => [target, t]
  | _ => []

theorem Ty.ne_error_of_compatible_eq_false {t u : Ty} (h : t.compatible u = false) :
    t ≠ .error ∧ u ≠ .error := by
  constructor
  · rintro rfl
    cases u <;> cases h
  · rintro rfl
    cases t <;> cases h

namespace Analysis
open Surface (Identifier)

/-- None of the diagnostics shows the error type. -/
def Unerring (ds : List Diagnostic) : Prop := Every (fun d => Ty.error ∉ d.types) ds

theorem not_mem_types_pair {t u : Ty} (h : t ≠ .error ∧ u ≠ .error) : Ty.error ∉ [t, u] := by
  rw [List.mem_pair, not_or]
  exact ⟨h.1.symm, h.2.symm⟩

theorem not_mem_types_single {t : Ty} (h : t ≠ .error) : Ty.error ∉ [t] := by
  rw [List.mem_singleton]
  exact h.symm

theorem unerring_diagnoseLiteral (v : Surface.Literal) : Unerring (diagnoseLiteral v) := by
  cases v with
  | bool b span => exact .nil
  | int text span => exact .guarded fun _ => by nofun
  | float text span =>
    rw [diagnoseLiteral]
    cases Single.ofText? text with
    | none => exact .singleton nofun
    | some f => exact Every.conditional fun _ => by nofun
  | string text span => exact .nil

theorem unerring_diagnoseLiteralExpr (e : Surface.LiteralExpr) : Unerring (diagnoseLiteralExpr e) := by
  unfold diagnoseLiteralExpr
  split
  · exact unerring_diagnoseLiteral _
  · exact unerring_diagnoseLiteral _
  · rename_i s op v _
    have hv : v.ty ≠ .error := by cases v <;> nofun
    exact .append (.singleton (not_mem_types_single hv)) (unerring_diagnoseLiteral v)

theorem unerring_diagnoseOperands (op : BinOp) (left right : Span × Ty) :
    Unerring (diagnoseOperands op left right) := by
  have hrejected : ∀ t, acceptsOperand op t = false → t ≠ .error := by
    rintro t h rfl
    cases h
  refine .append (.append (.guarded fun h => ?_) (.guarded fun h => ?_)) (.conditional fun h => ?_)
  · exact not_mem_types_single (hrejected _ h)
  · exact not_mem_types_single (hrejected _ h)
  · simp only [Bool.and_eq_true, Bool.not_eq_true'] at h
    exact not_mem_types_pair (Ty.ne_error_of_compatible_eq_false h.2)

theorem unerring_diagnoseOperand (op : UnOp) (operand : Span × Ty) :
    Unerring (diagnoseOperand op operand) := by
  refine .guarded fun h => not_mem_types_single fun heq => ?_
  rw [heq] at h
  simp [Ty.isError] at h

theorem unerring_diagnoseArgumentTypes (parameters : List Ty) (arguments : List (Span × Ty)) :
    Unerring (diagnoseArgumentTypes parameters arguments) := by
  induction parameters generalizing arguments with
  | nil => exact .nil
  | cons p parameters ih =>
    cases arguments with
    | nil => exact .nil
    | cons a arguments =>
      exact .append (.guarded fun h => not_mem_types_pair (Ty.ne_error_of_compatible_eq_false h))
        (ih arguments)

theorem unerring_diagnoseArguments (callee : Identifier) (parameters : List Ty)
    (arguments : List (Span × Ty)) : Unerring (diagnoseArguments callee parameters arguments) := by
  unfold diagnoseArguments
  split
  · exact unerring_diagnoseArgumentTypes parameters arguments
  · exact .singleton nofun

theorem unerring_diagnoseName (env : Env) (i : Identifier) : Unerring (diagnoseName env i) := by
  unfold diagnoseName
  split
  · exact .nil
  · exact .nil
  · exact .singleton List.not_mem_nil
  · exact .singleton List.not_mem_nil

theorem unerring_complaints (env : Env) (e : Surface.Expr) : Unerring (complaints env e) := by
  unfold complaints
  split
  · exact .append (.guarded fun _ => List.not_mem_nil) (.guarded fun _ => List.not_mem_nil)
  · exact unerring_diagnoseOperands _ _ _
  · exact unerring_diagnoseLiteral _
  · exact unerring_diagnoseOperand _ _
  · split
    · exact .singleton List.not_mem_nil
    · exact .singleton List.not_mem_nil
    · exact .append (unerring_diagnoseArguments _ _ _) (.guarded fun _ => List.not_mem_nil)
    · exact .singleton List.not_mem_nil
  · exact unerring_diagnoseName env _
  · exact .nil
  · exact unerring_diagnoseLiteral _

theorem unerring_diagnoseAssignment (env : Env) (target : Identifier) (value : Span × Ty) :
    Unerring (diagnoseAssignment env target value) := by
  unfold diagnoseAssignment
  split
  · exact .singleton List.not_mem_nil
  · exact .singleton List.not_mem_nil
  · exact .singleton List.not_mem_nil
  · exact .guarded fun h => not_mem_types_pair (Ty.ne_error_of_compatible_eq_false h)

theorem unerring_redefinitions (seen : List String) (ids : List Identifier) :
    Unerring (redefinitions seen ids) := by
  induction ids generalizing seen with
  | nil => exact .nil
  | cons i rest ih => exact .append (.conditional fun _ => by nofun) (ih _)

end Analysis

end PZero
