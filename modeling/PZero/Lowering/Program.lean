import PZero.Bytecode.Module
import PZero.Lowering.Stmt

/-! # Modules of programs

Global names become fields, functions become routines, and the statement of the
program becomes the entry routine. Every module has an initializer that does
nothing.
-/
namespace PZero.Lowering
open Bytecode

def initializer : Routine := ⟨"<init>", .void, 0, #[.ret]⟩

def constantOf : Typed.Literal → Constant
  | .bool v => .bool v
  | .int v => .int v
  | .float v => .float v
  | .string v => .string v

def fieldOf (access : Access) (name : String) (value : Typed.Literal) : Field :=
  let initial := constantOf value
  { name, isFinal := access == .readOnly, type := initial.type, initial }

/-- Parameters take the first slots. -/
def bindAll (slots : Slots) : List String → Except Error Slots
  | [] => .ok slots
  | name :: rest => do
    let (_, slots) ← slots.bind name
    bindAll slots rest

/-- Leaves a routine with the value on the stack. -/
def returnCode (name : String) (t : Ty) : Except Error Instruction :=
  match t with
  | .int | .bool => .ok .iret
  | .float => .ok .fret
  | t => .error (.unsupportedResult name t)

/-- The last part of a function: its result, if it has one, and the return. -/
def resultCode (owner : String) (slots : Slots) (base : Nat) (name : String) :
    Option Typed.Expr → Except Error Code
  | none => .ok [.ret]
  | some e => do
    let code ← exprCode owner slots base e
    return code ++ [← returnCode name e.ty]

def functionRoutine (owner : String) (f : Typed.Function) : Except Error Routine := do
  let slots ← bindAll (Slots.start 0) (f.parameters.map (·.1))
  let (body, slots) ← stmtsCode owner slots 0 f.body
  let tail ← resultCode owner slots body.length f.name f.result
  let descriptor ← descriptor (f.parameters.map (·.2)) (f.result.map (·.ty))
  return ⟨f.name, descriptor, slots.maxLocals, (body ++ tail).toArray⟩

/-- The first slot of the entry routine holds its argument, which nothing uses. -/
def entryRoutine (owner : String) (statement : Typed.Stmt) : Except Error Routine := do
  let (code, slots) ← stmtCode owner (Slots.start 1) 0 statement
  return ⟨"main", .void, slots.maxLocals, (code ++ [Instruction.ret]).toArray⟩

def fields (p : Typed.Program) : List Field :=
  p.declarations.filterMap fun
    | .global access name value => some (fieldOf access name value)
    | .function _ => none

def functions (p : Typed.Program) : List Typed.Function :=
  p.declarations.filterMap fun
    | .function f => some f
    | .global .. => none

/-- The module of a typed program under the given name. -/
def compile (p : Typed.Program) (name : String) : Except Error Module := do
  let routines ← (functions p).mapM (functionRoutine name)
  let entry ← entryRoutine name p.statement
  return { name, fields := fields p, routines := initializer :: routines ++ [entry] }

end PZero.Lowering
