import Mathlib
import PZero.Machine.Value
import PZero.Typed.Tree

/-! # Reference semantics

What a typed program does, by recursion on its tree and without a machine. Local
names are a list with the innermost first; leaving a scope forgets the names that
were declared in it. Operands are evaluated from left to right, both of them for
every operator. A call or a loop uses up fuel, so that every evaluation ends; a
program ends when it does so with enough fuel.
-/
namespace PZero.Reference
open Typed (Literal)

/-- What outlives the scopes: the values of the global names and the text printed so far. -/
structure World where
  globals : String → Option Literal
  output : String

inductive Outcome (α : Type)
  | done (a : α) (w : World)
  | divisionByZero (w : World)
  /-- The fuel did not last. -/
  | timeout
  /-- The tree does not follow the rules of the language. -/
  | stuck

def Outcome.bind {α β : Type} : Outcome α → (α → World → Outcome β) → Outcome β
  | done a w, f => f a w
  | divisionByZero w, _ => divisionByZero w
  | timeout, _ => timeout
  | stuck, _ => stuck

/-- A computation that may change the world. -/
def Eval (α : Type) : Type := World → Outcome α

instance : Monad Eval where
  pure a := fun w => .done a w
  bind x f := fun w => (x w).bind fun a => f a

def stuck {α : Type} : Eval α := fun _ => .stuck

def timeout {α : Type} : Eval α := fun _ => .timeout

def divisionByZero {α : Type} : Eval α := fun w => .divisionByZero w

/-! ## Operators -/

/-- Whether a comparison holds of operands in the given order. -/
def holds : BinOp → Ordering → Option Bool
  | .equal, o => some (o == .eq)
  | .notEqual, o => some (o != .eq)
  | .lessThan, o => some (o == .lt)
  | .lessEqual, o => some (o != .gt)
  | .greaterThan, o => some (o == .gt)
  | .greaterEqual, o => some (o != .lt)
  | _, _ => none

def compared (op : BinOp) (o : Ordering) : Eval Literal :=
  match holds op o with
  | some b => return .bool b
  | none => stuck

/-- The int that a number is modulo 2 ^ 32. -/
def wrapped (n : Int) : Literal := .int (Int32.ofInt n)

/-- Division drops the fraction. -/
def intBinary (op : BinOp) (a b : Int) : Eval Literal :=
  match op with
  | .plus => return wrapped (a + b)
  | .minus => return wrapped (a - b)
  | .times => return wrapped (a * b)
  | .divide => if b = 0 then divisionByZero else return wrapped (a.tdiv b)
  | op => compared op (compare a b)

/-- Numbers that cannot be compared count as if the left one were greater. -/
def floatBinary (op : BinOp) (a b : Single) : Eval Literal :=
  match op with
  | .plus => return .float (a.add b)
  | .minus => return .float (a.sub b)
  | .times => return .float (a.mul b)
  | .divide => return .float (a.div b)
  | op => compared op ((a.compare? b).getD .gt)

def boolBinary (op : BinOp) (a b : Bool) : Eval Literal :=
  match op with
  | .and => return .bool (a && b)
  | .or => return .bool (a || b)
  | .equal => return .bool (a == b)
  | .notEqual => return .bool (a != b)
  | _ => stuck

def stringBinary (op : BinOp) (a b : String) : Eval Literal :=
  match op with
  | .equal => return .bool (a == b)
  | .notEqual => return .bool (a != b)
  | _ => stuck

def binary (op : BinOp) : Literal → Literal → Eval Literal
  | .int a, .int b => intBinary op a.toInt b.toInt
  | .float a, .float b => floatBinary op a b
  | .bool a, .bool b => boolBinary op a b
  | .string a, .string b => stringBinary op a b
  | _, _ => stuck

def unary : UnOp → Literal → Eval Literal
  | .not, .bool b => return .bool !b
  | .minus, .int n => return wrapped (-n.toInt)
  | .minus, .float x => return .float x.neg
  | .plus, .int n => return .int n
  | .plus, .float x => return .float x
  | _, _ => stuck

def truth : Literal → Eval Bool
  | .bool b => return b
  | _ => stuck

/-! ## Names -/

abbrev Locals := List (String × Literal)

def valueOf (ρ : Locals) (name : String) : Eval Literal := fun w =>
  match ρ.lookup name with
  | some v => .done v w
  | none =>
    match w.globals name with
    | some v => .done v w
    | none => .stuck

/-- Gives the innermost local name a value. -/
def replace (name : String) (v : Literal) : Locals → Locals
  | [] => []
  | (x, u) :: rest => if name = x then (x, v) :: rest else (x, u) :: replace name v rest

def World.setGlobal (w : World) (name : String) (v : Literal) : World :=
  { w with globals := fun x => if x = name then some v else w.globals x }

/-- Gives a local name a value, or else a global one. -/
def assign (ρ : Locals) (name : String) (v : Literal) : Eval Locals := fun w =>
  if (ρ.lookup name).isSome then .done (replace name v ρ) w
  else if (w.globals name).isSome then .done ρ (w.setGlobal name v)
  else .stuck

/-- Forgets the names declared inside, and keeps the values of those outside. -/
def inScope (body : Locals → Eval Locals) (ρ : Locals) : Eval Locals := do
  let ρ' ← body ρ
  return ρ'.drop (ρ'.length - ρ.length)

/-! ## Expressions -/

/-- Carries out the call of a function. -/
abbrev Call := String → List Literal → Eval (Option Literal)

mutual

def expr (call : Call) (ρ : Locals) : Typed.Expr → Eval Literal
  | .ternary guard yes no => do
    if ← truth (← expr call ρ guard) then expr call ρ yes else expr call ρ no
  | .binary op left right => do
    let a ← expr call ρ left
    let b ← expr call ρ right
    binary op a b
  | .unary _ op operand => do unary op (← expr call ρ operand)
  | .call _ name arguments => do
    match ← call name (← exprs call ρ arguments) with
    | some v => return v
    | none => stuck
  | .name _ name => valueOf ρ name
  | .literal v => return v

def exprs (call : Call) (ρ : Locals) : List Typed.Expr → Eval (List Literal)
  | [] => return []
  | e :: rest => do
    let v ← expr call ρ e
    let vs ← exprs call ρ rest
    return v :: vs

end

/-! ## Statements -/

/-- What is printed for a value; floats have six decimal places. -/
def text : Literal → String
  | .bool b => if b then "True" else "False"
  | .int n => s!"{n.toInt}"
  | .float x => Machine.printedFloat (some 6) x
  | .string s => s

def write (s : String) : Eval Unit := fun w => .done () { w with output := w.output ++ s }

/-- Each argument is printed before the next one is evaluated. -/
def print (call : Call) (ρ : Locals) : List Typed.Expr → Eval Unit
  | [] => return ()
  | e :: rest => do
    write (text (← expr call ρ e))
    print call ρ rest

/-- Repeats a body as long as the guard holds. -/
def iterate (guard : Locals → Eval Literal) (body : Locals → Eval Locals) :
    Nat → Locals → Eval Locals
  | 0, _ => timeout
  | fuel + 1, ρ => do
    if ← truth (← guard ρ) then iterate guard body fuel (← body ρ) else return ρ

def perform (call : Call) (ρ : Locals) (arguments : List Typed.Expr) : Typed.Callee → Eval Unit
  | .print => print call ρ arguments
  | .println => do
    print call ρ arguments
    write "\n"
  | .function name => do
    match ← call name (← exprs call ρ arguments) with
    | some _ => stuck
    | none => return ()

mutual

/-- Carries out a statement and returns the local names behind it. -/
def stmt (call : Call) (fuel : Nat) : Typed.Stmt → Locals → Eval Locals
  | .assign name value, ρ => do assign ρ name (← expr call ρ value)
  | .declare _ name value, ρ => do return (name, ← expr call ρ value) :: ρ
  | .ifThen guard yes, ρ => do
    if ← truth (← expr call ρ guard) then inScope (stmt call fuel yes) ρ else return ρ
  | .ifElse guard yes no, ρ => do
    if ← truth (← expr call ρ guard) then inScope (stmt call fuel yes) ρ
    else inScope (stmt call fuel no) ρ
  | .whileDo guard body, ρ =>
    iterate (fun ρ => expr call ρ guard) (inScope (stmt call fuel body)) fuel ρ
  | .block body, ρ => inScope (stmts call fuel body) ρ
  | .call callee arguments, ρ => do
    perform call ρ arguments callee
    return ρ
  | .empty, ρ => return ρ

def stmts (call : Call) (fuel : Nat) : List Typed.Stmt → Locals → Eval Locals
  | [], ρ => return ρ
  | s :: rest, ρ => do stmts call fuel rest (← stmt call fuel s ρ)

end

/-! ## Programs -/

def function? (p : Typed.Program) (name : String) : Option Typed.Function :=
  p.declarations.findSome? fun
    | .function f => if f.name = name then some f else none
    | .global .. => none

/-- The parameters and the names of the body are in one scope. -/
def activation (call : Call) (fuel : Nat) (f : Typed.Function) (arguments : List Literal) :
    Eval (Option Literal) := do
  let ρ ← stmts call fuel f.body ((f.parameters.map (·.1)).zip arguments).reverse
  match f.result with
  | some e => return some (← expr call ρ e)
  | none => return none

/-- The call of a function; a call of the entry function carries out the statement of the program
with no local names. -/
def call (p : Typed.Program) : Nat → Call
  | 0, _, _ => timeout
  | fuel + 1, name, arguments =>
    if name = "main" then do
      let _ ← stmt (call p fuel) (fuel + 1) p.statement []
      return none
    else
      match function? p name with
      | some f => activation (call p fuel) (fuel + 1) f arguments
      | none => stuck

/-- Every global name has its initial value, and nothing was printed. -/
def World.initial (p : Typed.Program) : World where
  globals name := p.declarations.findSome? fun
    | .global _ x v => if x = name then some v else none
    | .function _ => none
  output := ""

inductive Ending
  | normal
  | divisionByZero
  deriving DecidableEq

/-- How a finished evaluation ended, and the text it printed. -/
def Outcome.ending? {α : Type} : Outcome α → Option (Ending × String)
  | done _ w => some (.normal, w.output)
  | divisionByZero w => some (.divisionByZero, w.output)
  | timeout | stuck => none

/-- The program ends in the given way after printing the given text. -/
def Ends (p : Typed.Program) (ending : Ending) (output : String) : Prop :=
  ∃ fuel, (call p fuel "main" [] (.initial p)).ending? = some (ending, output)

end PZero.Reference
