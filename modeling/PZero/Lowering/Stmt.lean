import PZero.Lowering.Expr

/-! # Code of statements

The code of a statement leaves the operand stack as it was. A declaration takes a
slot, which is why the slots are handed from one statement to the next.
-/
namespace PZero.Lowering
open Bytecode

/-- How many decimal places a printed float has. -/
def printedPlaces : UInt8 := 6

/-- Takes a value off the stack into a local slot. -/
def storeCode (t : Ty) (slot : UInt16) : Except Error Instruction :=
  match t with
  | .int | .bool => .ok (.istore slot)
  | .float => .ok (.fstore slot)
  | t => .error (.noStore t)

/-- Assigns the value on the stack to a name. -/
def assignCode (owner : String) (slots : Slots) (t : Ty) (name : String) :
    Except Error Instruction :=
  match slots.get? name with
  | some slot => storeCode t slot
  | none => do return .putStatic (← fieldRef owner name t)

def printCode (t : Ty) : Except Error Instruction :=
  match t with
  | .float => .ok (.printFixed printedPlaces)
  | t => do return .print (← fieldType t)

/-- Prints each argument before the next one is evaluated. -/
def printsCode (owner : String) (slots : Slots) (base : Nat) :
    List Typed.Expr → Except Error Code
  | [] => .ok []
  | e :: rest => do
    let code ← exprCode owner slots (base + 1) e
    let print ← printCode e.ty
    let others ← printsCode owner slots (base + 1 + code.length + 1) rest
    return .getStdout :: code ++ print :: others

def callCode (owner : String) (slots : Slots) (base : Nat) (callee : Typed.Callee)
    (arguments : List Typed.Expr) : Except Error Code :=
  match callee with
  | .print => printsCode owner slots base arguments
  | .println => do return (← printsCode owner slots base arguments) ++ [.getStdout, .printNewline]
  | .function name => do
    let code ← exprsCode owner slots base arguments
    let routine ← routineRef owner name (arguments.map (·.ty)) none
    return code ++ [.invoke routine]

mutual

/-- The code of a statement that begins at `base`, and the slots behind it. -/
def stmtCode (owner : String) (slots : Slots) (base : Nat) :
    Typed.Stmt → Except Error (Code × Slots)
  | .assign name value => do
    let code ← exprCode owner slots base value
    let store ← assignCode owner slots value.ty name
    return (code ++ [store], slots)
  | .declare _ name value => do
    let code ← exprCode owner slots base value
    let (slot, slots) ← slots.bind name
    let store ← storeCode value.ty slot
    return (code ++ [store], slots)
  | .ifThen guard yes => do
    let guard ← exprCode owner slots base guard
    let (yes, slots) ← stmtCode owner slots.openScope (yesStart base guard) yes
    return (conditional base guard yes [], slots.closeScope)
  | .ifElse guard yes no => do
    let guard ← exprCode owner slots base guard
    let (yes, slots) ← stmtCode owner slots.openScope (yesStart base guard) yes
    let (no, slots) ←
      stmtCode owner slots.closeScope.openScope (noStart base guard yes) no
    return (conditional base guard yes no, slots.closeScope)
  | .whileDo guard body => do
    let guard ← exprCode owner slots base guard
    let (body, slots) ← stmtCode owner slots.openScope (yesStart base guard) body
    return (loop base guard body, slots.closeScope)
  | .block body => do
    let (code, slots) ← stmtsCode owner slots.openScope base body
    return (code, slots.closeScope)
  | .call callee arguments => do
    return (← callCode owner slots base callee arguments, slots)
  | .empty => .ok ([], slots)

def stmtsCode (owner : String) (slots : Slots) (base : Nat) :
    List Typed.Stmt → Except Error (Code × Slots)
  | [] => .ok ([], slots)
  | s :: rest => do
    let (code, slots) ← stmtCode owner slots base s
    let (others, slots) ← stmtsCode owner slots (base + code.length) rest
    return (code ++ others, slots)

end

end PZero.Lowering
