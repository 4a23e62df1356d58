import PZero.Proofs.Checker.Tree
import PZero.Proofs.Totality.Obstacle

/-! # The expressions of a typed program

Every expression of a program that follows the rules has a type, however deep it
stands, and that is never the error type.
-/
namespace PZero

namespace Typed

mutual

/-- All expressions in a statement. -/
def Stmt.exprs : Stmt → List Expr
  | .assign _ e | .declare _ _ e => e.inside
  | .ifThen guard yes => guard.inside ++ yes.exprs
  | .ifElse guard yes no => guard.inside ++ yes.exprs ++ no.exprs
  | .whileDo guard body => guard.inside ++ body.exprs
  | .block body => stmtsExprs body
  | .call _ arguments => exprsInside arguments
  | .empty => []

def stmtsExprs : List Stmt → List Expr
  | [] => []
  | s :: rest => s.exprs ++ stmtsExprs rest

end

def Function.exprs (f : Function) : List Expr := stmtsExprs f.body ++ exprsInside f.result.toList

def Decl.exprs : Decl → List Expr
  | .global .. => []
  | .function f => f.exprs

/-- All expressions in a program. -/
def Program.exprs (p : Program) : List Expr := p.declarations.flatMap Decl.exprs ++ p.statement.exprs

end Typed

namespace Rules

theorem typeOf_ne_error (t : Bytecode.FieldType) : typeOf t ≠ .error := by
  cases t <;> nofun

mutual

theorem ExprType.inside_ne_error {G : Globals} {L : Locals} {e : Typed.Expr} {t : Bytecode.FieldType}
    (h : ExprType G L e t) : ∀ x ∈ e.inside, x.ty ≠ .error := by
  have htop : e.ty ≠ .error := by
    rw [h.ty_eq]
    exact typeOf_ne_error t
  match h with
  | .ternary hguard hyes hno =>
    intro x hx
    simp only [Typed.Expr.inside, List.mem_cons, List.mem_append] at hx
    rcases hx with rfl | (hx | hx) | hx
    · exact htop
    · exact hguard.inside_ne_error x hx
    · exact hyes.inside_ne_error x hx
    · exact hno.inside_ne_error x hx
  | .binary hleft hright _ =>
    intro x hx
    simp only [Typed.Expr.inside, List.mem_cons, List.mem_append] at hx
    rcases hx with rfl | hx | hx
    · exact htop
    · exact hleft.inside_ne_error x hx
    · exact hright.inside_ne_error x hx
  | .unary ho _ =>
    intro x hx
    simp only [Typed.Expr.inside, List.mem_cons] at hx
    rcases hx with rfl | hx
    · exact htop
    · exact ho.inside_ne_error x hx
  | .call _ harguments =>
    intro x hx
    simp only [Typed.Expr.inside, List.mem_cons] at hx
    rcases hx with rfl | hx
    · exact htop
    · exact harguments.inside_ne_error x hx
  | .name _ =>
    intro x hx
    obtain rfl := List.mem_singleton.mp hx
    exact htop
  | .literal =>
    intro x hx
    obtain rfl := List.mem_singleton.mp hx
    exact htop

theorem ExprTypes.inside_ne_error {G : Globals} {L : Locals} {es : List Typed.Expr}
    {ts : List Bytecode.FieldType} (h : ExprTypes G L es ts) :
    ∀ x ∈ Typed.exprsInside es, x.ty ≠ .error := by
  match h with
  | .nil => nofun
  | .cons he hs =>
    intro x hx
    rcases List.mem_append.mp hx with hx | hx
    · exact he.inside_ne_error x hx
    · exact hs.inside_ne_error x hx

end

mutual

theorem StmtType.exprs_ne_error {G : Globals} {L L' : Locals} {s : Typed.Stmt}
    (h : StmtType G L s L') : ∀ x ∈ s.exprs, x.ty ≠ .error := by
  match h with
  | .assign _ he => exact he.inside_ne_error
  | .declare he => exact he.inside_ne_error
  | .ifThen hguard hyes =>
    exact List.forall_mem_append.mpr ⟨hguard.inside_ne_error, hyes.exprs_ne_error⟩
  | .ifElse hguard hyes hno =>
    exact List.forall_mem_append.mpr ⟨List.forall_mem_append.mpr
      ⟨hguard.inside_ne_error, hyes.exprs_ne_error⟩, hno.exprs_ne_error⟩
  | .whileDo hguard hbody =>
    exact List.forall_mem_append.mpr ⟨hguard.inside_ne_error, hbody.exprs_ne_error⟩
  | .block hbody => exact hbody.exprs_ne_error
  | .call _ harguments => exact harguments.inside_ne_error
  | .print harguments => exact harguments.inside_ne_error
  | .println harguments => exact harguments.inside_ne_error
  | .empty => nofun

theorem StmtTypes.exprs_ne_error {G : Globals} {L L' : Locals} {body : List Typed.Stmt}
    (h : StmtTypes G L body L') : ∀ x ∈ Typed.stmtsExprs body, x.ty ≠ .error := by
  match h with
  | .nil => nofun
  | .cons hs hrest => exact List.forall_mem_append.mpr ⟨hs.exprs_ne_error, hrest.exprs_ne_error⟩

end

theorem FunctionType.exprs_ne_error {G : Globals} {f : Typed.Function}
    {parameters : List Bytecode.FieldType} {result : Option Bytecode.FieldType}
    (h : FunctionType G f parameters result) : ∀ x ∈ f.exprs, x.ty ≠ .error := by
  cases h with
  | intro hbody hresult =>
    refine List.forall_mem_append.mpr ⟨hbody.exprs_ne_error, ?_⟩
    cases hresult with
    | none => nofun
    | some he => exact List.forall_mem_append.mpr ⟨he.inside_ne_error, nofun⟩

theorem ProgramType.exprs_ne_error {G : Globals} {p : Typed.Program} (h : ProgramType G p) :
    ∀ x ∈ p.exprs, x.ty ≠ .error := by
  obtain ⟨L, hs⟩ := h.statement
  refine List.forall_mem_append.mpr ⟨fun x hx => ?_, hs.exprs_ne_error⟩
  obtain ⟨d, hd, hx⟩ := List.mem_flatMap.mp hx
  cases d with
  | «global» access name value => cases hx
  | function f =>
    obtain ⟨parameters, result, hf⟩ := h.declared hd
    exact hf.exprs_ne_error x hx

end Rules

end PZero
