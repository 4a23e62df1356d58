import PZero.Lowering.Layout
import PZero.Lowering.Slots
import PZero.Typed.Tree

/-! # Code of expressions

The code of an expression leaves one value on the operand stack. Both operands of
an operator are always evaluated. The machine cannot push the outcome of a
comparison, so comparisons jump to code that does.
-/
namespace PZero.Lowering
open Bytecode

/-- The storage type of a value. -/
def fieldType : Ty → Except Error FieldType
  | .int => .ok .int
  | .float => .ok .float
  | .bool => .ok .bool
  | .string => .ok .string
  | .error => .error .errorType

def descriptor (parameters : List Ty) (result : Option Ty) : Except Error Descriptor := do
  let parameters ← parameters.mapM fieldType
  let result ← match result with
    | some t => some <$> fieldType t
    | none => pure none
  return { parameters, result }

def fieldRef (owner name : String) (t : Ty) : Except Error FieldRef := do
  return { owner, name, type := ← fieldType t }

/-- The routine that arguments of the given types are passed to. -/
def routineRef (owner name : String) (arguments : List Ty) (result : Option Ty) :
    Except Error RoutineRef := do
  return { owner, name, descriptor := ← descriptor arguments result }

def literalCode : Typed.Literal → Instruction
  | .bool v => .iconst (if v then 1 else 0)
  | .int v => .iconst v
  | .float v => .fconst v
  | .string v => .sconst v

def arithmetic (op : BinOp) (t : Ty) : Except Error Instruction :=
  match t, op with
  | .int, .plus => .ok .iadd
  | .int, .minus => .ok .isub
  | .int, .times => .ok .imul
  | .int, .divide => .ok .idiv
  | .float, .plus => .ok .fadd
  | .float, .minus => .ok .fsub
  | .float, .times => .ok .fmul
  | .float, .divide => .ok .fdiv
  | t, op => .error (.unsupported (.binary op) t)

/-- The condition under which a comparison holds. -/
def conditionOf : BinOp → Condition
  | .notEqual => .ne
  | .lessThan => .lt
  | .lessEqual => .le
  | .greaterThan => .gt
  | .greaterEqual => .ge
  | _ => .eq

/-- Compares the two operands on the stack; truth values are equal when they do not differ. -/
def comparisonCode (base : Nat) (op : BinOp) (t : Ty) : Except Error Code :=
  match t, op with
  | .int, _ => .ok (verdict base (.ifCompare (conditionOf op)))
  | .float, _ => .ok (.fcmpg :: verdict (base + 1) (.ifZero (conditionOf op)))
  | .bool, .notEqual => .ok [.ixor]
  | .bool, .equal => .ok [.ixor, .iconst 1, .ixor]
  | t, op => .error (.unsupported (.binary op) t)

/-- Combines the two operands on the stack, which have type `t`. -/
def binaryCode (base : Nat) (op : BinOp) (t : Ty) : Except Error Code :=
  match op with
  | .and => .ok [.iand]
  | .or => .ok [.ior]
  | .plus | .minus | .times | .divide => do return [← arithmetic op t]
  | .equal | .notEqual | .lessThan | .lessEqual | .greaterThan | .greaterEqual =>
    comparisonCode base op t

/-- Applies an operator to the operand on the stack; `t` is the type of the result. -/
def unaryCode (base : Nat) (op : UnOp) (t : Ty) : Except Error Code :=
  match op, t with
  | .not, _ => .ok (verdict base (.ifZero .eq))
  | .minus, .int => .ok [.ineg]
  | .minus, .float => .ok [.fneg]
  | .minus, t => .error (.unsupported .negation t)
  | .plus, _ => .ok []

/-- Pushes the value of a name: a local slot, or else a field. -/
def nameCode (owner : String) (slots : Slots) (t : Ty) (name : String) :
    Except Error Instruction :=
  match slots.get? name, t with
  | some slot, .int | some slot, .bool => .ok (.iload slot)
  | some slot, .float => .ok (.fload slot)
  | some _, t => .error (.unsupported .localLoad t)
  | none, t => do return .getStatic (← fieldRef owner name t)

mutual

/-- The code of an expression that begins at `base`. -/
def exprCode (owner : String) (slots : Slots) (base : Nat) : Typed.Expr → Except Error Code
  | .ternary guard yes no => do
    let guard ← exprCode owner slots base guard
    let yes ← exprCode owner slots (yesStart base guard) yes
    let no ← exprCode owner slots (noStart base guard yes) no
    return conditional base guard yes no
  | .binary op left right => do
    let l ← exprCode owner slots base left
    let r ← exprCode owner slots (base + l.length) right
    let combine ← binaryCode (base + l.length + r.length) op left.ty
    return l ++ r ++ combine
  | .unary t op operand => do
    let code ← exprCode owner slots base operand
    let apply ← unaryCode (base + code.length) op t
    return code ++ apply
  | .call t name arguments => do
    let code ← exprsCode owner slots base arguments
    let routine ← routineRef owner name (arguments.map (·.ty)) (some t)
    return code ++ [.invoke routine]
  | .name t name => do return [← nameCode owner slots t name]
  | .literal v => .ok [literalCode v]

/-- The values of several expressions, one above the other. -/
def exprsCode (owner : String) (slots : Slots) (base : Nat) : List Typed.Expr → Except Error Code
  | [] => .ok []
  | e :: rest => do
    let code ← exprCode owner slots base e
    let others ← exprsCode owner slots (base + code.length) rest
    return code ++ others

end

end PZero.Lowering
