import Mathlib
import PZero.Typed.Tree

/-! # What has no machine code

Strings are neither kept in local slots nor compared, and a routine has finitely many
slots. Whether one of these stands in the way of a typed tree is said by looking into
it: at the statements and expressions inside, however deep, and at the numbers that
its local names would have if there were any number of slots.
-/
namespace PZero.Typed

/-! ## Expressions -/

mutual

/-- An expression and those inside it. -/
def Expr.inside : Expr → List Expr
  | .ternary guard yes no => .ternary guard yes no :: (guard.inside ++ yes.inside ++ no.inside)
  | .binary op left right => .binary op left right :: (left.inside ++ right.inside)
  | .unary t op operand => .unary t op operand :: operand.inside
  | .call t name arguments => .call t name arguments :: exprsInside arguments
  | .name t name => [.name t name]
  | .literal v => [.literal v]

def exprsInside : List Expr → List Expr
  | [] => []
  | e :: rest => e.inside ++ exprsInside rest

end

def Expr.comparesStrings : Expr → Bool
  | .binary op left right => op.isEquality && left.ty == .string && right.ty == .string
  | _ => false

/-- Somewhere inside, strings are compared. -/
def Expr.Obstructed (e : Expr) : Prop := ∃ x ∈ e.inside, x.comparesStrings

instance (e : Expr) : Decidable e.Obstructed := inferInstanceAs (Decidable (∃ x ∈ e.inside, _))

/-! ## Statements -/

mutual

/-- A statement and those inside it. -/
def Stmt.inside : Stmt → List Stmt
  | .ifThen guard yes => .ifThen guard yes :: yes.inside
  | .ifElse guard yes no => .ifElse guard yes no :: (yes.inside ++ no.inside)
  | .whileDo guard body => .whileDo guard body :: body.inside
  | .block body => .block body :: stmtsInside body
  | s => [s]

def stmtsInside : List Stmt → List Stmt
  | [] => []
  | s :: rest => s.inside ++ stmtsInside rest

end

def Stmt.declaresString : Stmt → Bool
  | .declare _ _ value => value.ty == .string
  | _ => false

/-- The expressions that a statement itself evaluates. -/
def Stmt.operands : Stmt → List Expr
  | .assign _ e | .declare _ _ e | .ifThen e _ | .ifElse e _ _ | .whileDo e _ => [e]
  | .call _ arguments => arguments
  | .block _ | .empty => []

/-- The first free slot behind a statement; what a scope takes is free again behind it. -/
def Stmt.freeAfter (free : Nat) : Stmt → Nat
  | .declare .. => free + 1
  | _ => free

mutual

/-- The slots of the names declared inside a statement, from the first free one on. -/
def Stmt.slotNumbers (free : Nat) : Stmt → List Nat
  | .declare .. => [free]
  | .ifThen _ yes => yes.slotNumbers free
  | .ifElse _ yes no => yes.slotNumbers free ++ no.slotNumbers free
  | .whileDo _ body => body.slotNumbers free
  | .block body => slotNumbersAll free body
  | _ => []

def slotNumbersAll (free : Nat) : List Stmt → List Nat
  | [] => []
  | s :: rest => s.slotNumbers free ++ slotNumbersAll (s.freeAfter free) rest

end

/-- One of the statements declares a string or compares strings, or one of the slots would be the
one whose number is never given away. -/
def Obstructed (stmts : List Stmt) (numbers : List Nat) : Prop :=
  (∃ s ∈ stmts, s.declaresString) ∨ (∃ s ∈ stmts, ∃ e ∈ s.operands, e.Obstructed) ∨
    65535 ∈ numbers

instance (stmts : List Stmt) (numbers : List Nat) : Decidable (Obstructed stmts numbers) :=
  inferInstanceAs (Decidable (_ ∨ _))

def Stmt.Obstructed (free : Nat) (s : Stmt) : Prop :=
  Typed.Obstructed s.inside (s.slotNumbers free)

def AllObstructed (free : Nat) (body : List Stmt) : Prop :=
  Typed.Obstructed (stmtsInside body) (slotNumbersAll free body)

/-! ## Programs -/

/-- Parameters have the first slots; the result is evaluated behind the statements. -/
def Function.Obstructed (f : Function) : Prop :=
  Typed.Obstructed (stmtsInside f.body)
      (List.range f.parameters.length ++ slotNumbersAll f.parameters.length f.body) ∨
    ∃ e ∈ f.result, e.Obstructed

instance (f : Function) : Decidable f.Obstructed := inferInstanceAs (Decidable (_ ∨ _))

def Decl.Obstructed : Decl → Prop
  | .global .. => False
  | .function f => f.Obstructed

instance (d : Decl) : Decidable d.Obstructed :=
  match d with
  | .global .. => inferInstanceAs (Decidable False)
  | .function f => inferInstanceAs (Decidable f.Obstructed)

/-- The first slot is reserved while the statement of the program is carried out. -/
def Program.Obstructed (p : Program) : Prop :=
  (∃ d ∈ p.declarations, d.Obstructed) ∨ p.statement.Obstructed 1

instance (p : Program) : Decidable p.Obstructed :=
  inferInstanceAs (Decidable ((∃ d ∈ p.declarations, d.Obstructed) ∨ Typed.Obstructed _ _))

/-! ## One constructor at a time -/

@[simp] theorem exists_mem_exprsInside {P : Expr → Prop} {es : List Expr} :
    (∃ x ∈ exprsInside es, P x) ↔ ∃ e ∈ es, ∃ x ∈ e.inside, P x := by
  induction es with
  | nil => simp [exprsInside]
  | cons e es ih => simp only [exprsInside, List.mem_append, List.mem_cons, or_and_right, exists_or,
      ih, exists_eq_left]

section
-- The equations are made here, once for all constructors.
attribute [local simp] Expr.inside Expr.comparesStrings
variable {guard yes no left right operand : Expr} {op : BinOp} {name : String} {t : Ty}

@[simp] theorem Expr.obstructed_ternary : (Expr.ternary guard yes no).Obstructed ↔
    guard.Obstructed ∨ yes.Obstructed ∨ no.Obstructed := by
  simp [Expr.Obstructed, Expr.inside, Expr.comparesStrings, or_and_right, exists_or]

@[simp] theorem Expr.obstructed_binary : (Expr.binary op left right).Obstructed ↔
    left.Obstructed ∨ right.Obstructed ∨ (Expr.binary op left right).comparesStrings := by
  simp [Expr.Obstructed, Expr.inside, or_and_right, exists_or, or_comm, or_left_comm]

@[simp] theorem Expr.obstructed_unary {op : UnOp} :
    (Expr.unary t op operand).Obstructed ↔ operand.Obstructed := by
  simp [Expr.Obstructed, Expr.inside, Expr.comparesStrings]

@[simp] theorem Expr.obstructed_call {arguments : List Expr} :
    (Expr.call t name arguments).Obstructed ↔ ∃ e ∈ arguments, e.Obstructed := by
  simp [Expr.Obstructed, Expr.inside, Expr.comparesStrings]

@[simp] theorem Expr.not_obstructed_name : ¬ (Expr.name t name).Obstructed := by
  simp [Expr.Obstructed, Expr.inside, Expr.comparesStrings]

@[simp] theorem Expr.not_obstructed_literal {v : Literal} : ¬ (Expr.literal v).Obstructed := by
  simp [Expr.Obstructed, Expr.inside, Expr.comparesStrings]

end

theorem obstructed_append {stmts stmts' : List Stmt} {numbers numbers' : List Nat} :
    Obstructed (stmts ++ stmts') (numbers ++ numbers') ↔
      Obstructed stmts numbers ∨ Obstructed stmts' numbers' := by
  simp only [Obstructed, List.mem_append, or_and_right, exists_or]
  grind

/-- What a statement does itself, in front of the statements inside it. -/
theorem obstructed_cons {s : Stmt} {stmts : List Stmt} {numbers : List Nat} :
    Obstructed (s :: stmts) numbers ↔
      s.declaresString ∨ (∃ e ∈ s.operands, e.Obstructed) ∨ Obstructed stmts numbers := by
  simp only [Obstructed, List.mem_cons, or_and_right, exists_or, exists_eq_left]
  grind

@[simp] theorem obstructed_nil {numbers : List Nat} :
    Obstructed [] numbers ↔ 65535 ∈ numbers := by
  simp [Obstructed]

section
attribute [local simp] Stmt.inside Stmt.slotNumbers Stmt.declaresString Stmt.operands
variable {free : Nat} {guard value : Expr} {s yes no body : Stmt} {stmts : List Stmt}
  {arguments : List Expr} {name : String} {access : Access} {callee : Callee}

@[simp] theorem Stmt.obstructed_assign :
    (Stmt.assign name value).Obstructed free ↔ value.Obstructed := by
  simp [Stmt.Obstructed, Stmt.inside, Stmt.slotNumbers, obstructed_cons, Stmt.declaresString,
    Stmt.operands]

@[simp] theorem Stmt.obstructed_declare : (Stmt.declare access name value).Obstructed free ↔
    value.Obstructed ∨ free = 65535 ∨ value.ty = .string := by
  simp only [Stmt.Obstructed, Stmt.inside, Stmt.slotNumbers, obstructed_cons, Stmt.declaresString,
    Stmt.operands, obstructed_nil]
  grind

@[simp] theorem Stmt.obstructed_ifThen : (Stmt.ifThen guard yes).Obstructed free ↔
    guard.Obstructed ∨ yes.Obstructed free := by
  simp [Stmt.Obstructed, Stmt.inside, Stmt.slotNumbers, obstructed_cons, Stmt.declaresString,
    Stmt.operands]

@[simp] theorem Stmt.obstructed_ifElse : (Stmt.ifElse guard yes no).Obstructed free ↔
    guard.Obstructed ∨ yes.Obstructed free ∨ no.Obstructed free := by
  simp [Stmt.Obstructed, Stmt.inside, Stmt.slotNumbers, obstructed_cons, obstructed_append,
    Stmt.declaresString, Stmt.operands]

@[simp] theorem Stmt.obstructed_whileDo : (Stmt.whileDo guard body).Obstructed free ↔
    guard.Obstructed ∨ body.Obstructed free := by
  simp [Stmt.Obstructed, Stmt.inside, Stmt.slotNumbers, obstructed_cons, Stmt.declaresString,
    Stmt.operands]

@[simp] theorem Stmt.obstructed_block :
    (Stmt.block stmts).Obstructed free ↔ AllObstructed free stmts := by
  simp [Stmt.Obstructed, AllObstructed, Stmt.inside, Stmt.slotNumbers, obstructed_cons,
    Stmt.declaresString, Stmt.operands]

@[simp] theorem Stmt.obstructed_call :
    (Stmt.call callee arguments).Obstructed free ↔ ∃ e ∈ arguments, e.Obstructed := by
  simp [Stmt.Obstructed, Stmt.inside, Stmt.slotNumbers, obstructed_cons, Stmt.declaresString,
    Stmt.operands]

@[simp] theorem Stmt.not_obstructed_empty : ¬ Stmt.empty.Obstructed free := by
  simp [Stmt.Obstructed, Stmt.inside, Stmt.slotNumbers, obstructed_cons, Stmt.declaresString,
    Stmt.operands]

@[simp] theorem not_allObstructed_nil : ¬ AllObstructed free [] := by
  simp [AllObstructed, stmtsInside, slotNumbersAll]

@[simp] theorem allObstructed_cons : AllObstructed free (s :: stmts) ↔
    s.Obstructed free ∨ AllObstructed (s.freeAfter free) stmts :=
  obstructed_append

end

end PZero.Typed
