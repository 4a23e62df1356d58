import PZero.Proofs.Lowering.Code

/-! # What lowering does with names

The trace of lowering says in which order names are bound and looked up, and in which
table. It ends where lowering ends, be it with a module or with an error. Without its
events a trace is the lowering itself.
-/
namespace PZero.Resolution

/-! ## Events -/

/-- What is done with a name. A look-up comes with the table in which the name is looked up. -/
inductive Event (α : Type)
  /-- A parameter or local name is declared. -/
  | declare (name : String) (a : α)
  /-- The value of a name is used. -/
  | refer (name : String) (table : Scope α)
  /-- A name is assigned to. -/
  | assign (name : String) (table : Scope α)

/-- A computation of the lowering and what it has done with names until it ended. -/
structure Trace (α : Type) where
  events : List (Event UInt16)
  result : Except Lowering.Error α

namespace Trace
variable {α β : Type}

instance : Monad Trace where
  pure a := ⟨[], .ok a⟩
  bind x f :=
    match x.result with
    | .error e => ⟨x.events, .error e⟩
    | .ok a => ⟨x.events ++ (f a).events, (f a).result⟩

/-- Does nothing with names. -/
def lift (x : Except Lowering.Error α) : Trace α := ⟨[], x⟩

def note (event : Event UInt16) : Trace Unit := ⟨[event], .ok ()⟩

theorem bind_of_error {x : Trace α} {e : Lowering.Error} (h : x.result = .error e)
    (f : α → Trace β) : (x >>= f) = ⟨x.events, .error e⟩ := by
  simp only [bind, h]

theorem bind_of_ok {x : Trace α} {a : α} (h : x.result = .ok a) (f : α → Trace β) :
    (x >>= f) = ⟨x.events ++ (f a).events, (f a).result⟩ := by
  simp only [bind, h]

@[simp] theorem result_pure (a : α) : (pure a : Trace α).result = .ok a := rfl

@[simp] theorem result_lift (x : Except Lowering.Error α) : (lift x).result = x := rfl

@[simp] theorem result_note (event : Event UInt16) : (note event).result = .ok () := rfl

@[simp] theorem result_bind (x : Trace α) (f : α → Trace β) :
    (x >>= f).result = x.result >>= fun a => (f a).result := by
  cases h : x.result with
  | error e =>
    rw [bind_of_error h]
    rfl
  | ok a =>
    rw [bind_of_ok h]
    rfl

end Trace

/-! ## Lowering with its trace -/

open Lowering Bytecode Trace

mutual

def exprTrace (owner : String) (slots : Slots) (base : Nat) : Typed.Expr → Trace Code
  | .ternary guard yes no => do
    let guard ← exprTrace owner slots base guard
    let yes ← exprTrace owner slots (yesStart base guard) yes
    let no ← exprTrace owner slots (noStart base guard yes) no
    return conditional base guard yes no
  | .binary op left right => do
    let l ← exprTrace owner slots base left
    let r ← exprTrace owner slots (base + l.length) right
    let combine ← lift (binaryCode (base + l.length + r.length) op left.ty)
    return l ++ r ++ combine
  | .unary t op operand => do
    let code ← exprTrace owner slots base operand
    let apply ← lift (unaryCode (base + code.length) op t)
    return code ++ apply
  | .call t name arguments => do
    let code ← exprsTrace owner slots base arguments
    let routine ← lift (routineRef owner name (arguments.map (·.ty)) (some t))
    return code ++ [.invoke routine]
  | .name t name => do
    note (.refer name slots.names)
    return [← lift (nameCode owner slots t name)]
  | .literal v => return [literalCode v]

def exprsTrace (owner : String) (slots : Slots) (base : Nat) : List Typed.Expr → Trace Code
  | [] => return []
  | e :: rest => do
    let code ← exprTrace owner slots base e
    let others ← exprsTrace owner slots (base + code.length) rest
    return code ++ others

end

def printsTrace (owner : String) (slots : Slots) (base : Nat) : List Typed.Expr → Trace Code
  | [] => return []
  | e :: rest => do
    let code ← exprTrace owner slots (base + 1) e
    let print ← lift (printCode e.ty)
    let others ← printsTrace owner slots (base + 1 + code.length + 1) rest
    return .getStdout :: code ++ print :: others

def callTrace (owner : String) (slots : Slots) (base : Nat) (callee : Typed.Callee)
    (arguments : List Typed.Expr) : Trace Code :=
  match callee with
  | .print => printsTrace owner slots base arguments
  | .println => do return (← printsTrace owner slots base arguments) ++ [.getStdout, .printNewline]
  | .function name => do
    let code ← exprsTrace owner slots base arguments
    let routine ← lift (routineRef owner name (arguments.map (·.ty)) none)
    return code ++ [.invoke routine]

/-- Gives a name the next slot. -/
def bindTrace (slots : Slots) (name : String) : Trace (UInt16 × Slots) := do
  let bound ← lift (slots.bind name)
  note (.declare name bound.1)
  return bound

mutual

def stmtTrace (owner : String) (slots : Slots) (base : Nat) : Typed.Stmt → Trace (Code × Slots)
  | .assign name value => do
    let code ← exprTrace owner slots base value
    note (.assign name slots.names)
    let store ← lift (assignCode owner slots value.ty name)
    return (code ++ [store], slots)
  | .declare _ name value => do
    let code ← exprTrace owner slots base value
    let (slot, slots) ← bindTrace slots name
    let store ← lift (storeCode value.ty slot)
    return (code ++ [store], slots)
  | .ifThen guard yes => do
    let guard ← exprTrace owner slots base guard
    let (yes, slots) ← stmtTrace owner slots.openScope (yesStart base guard) yes
    return (conditional base guard yes [], slots.closeScope)
  | .ifElse guard yes no => do
    let guard ← exprTrace owner slots base guard
    let (yes, slots) ← stmtTrace owner slots.openScope (yesStart base guard) yes
    let (no, slots) ←
      stmtTrace owner slots.closeScope.openScope (noStart base guard yes) no
    return (conditional base guard yes no, slots.closeScope)
  | .whileDo guard body => do
    let guard ← exprTrace owner slots base guard
    let (body, slots) ← stmtTrace owner slots.openScope (yesStart base guard) body
    return (loop base guard body, slots.closeScope)
  | .block body => do
    let (code, slots) ← stmtsTrace owner slots.openScope base body
    return (code, slots.closeScope)
  | .call callee arguments => do
    return (← callTrace owner slots base callee arguments, slots)
  | .empty => return ([], slots)

def stmtsTrace (owner : String) (slots : Slots) (base : Nat) :
    List Typed.Stmt → Trace (Code × Slots)
  | [] => return ([], slots)
  | s :: rest => do
    let (code, slots) ← stmtTrace owner slots base s
    let (others, slots) ← stmtsTrace owner slots (base + code.length) rest
    return (code ++ others, slots)

end

def bindAllTrace (slots : Slots) : List String → Trace Slots
  | [] => return slots
  | name :: rest => do
    let (_, slots) ← bindTrace slots name
    bindAllTrace slots rest

def resultTrace (owner : String) (slots : Slots) (base : Nat) (name : String) :
    Option Typed.Expr → Trace Code
  | none => return [.ret]
  | some e => do
    let code ← exprTrace owner slots base e
    return code ++ [← lift (returnCode name e.ty)]

def functionTrace (owner : String) (f : Typed.Function) : Trace Routine := do
  let slots ← bindAllTrace (Slots.start 0) (f.parameters.map (·.1))
  let (body, slots) ← stmtsTrace owner slots 0 f.body
  let tail ← resultTrace owner slots body.length f.name f.result
  let descriptor ← lift (descriptor (f.parameters.map (·.2)) (f.result.map (·.ty)))
  return ⟨f.name, descriptor, slots.maxLocals, (body ++ tail).toArray⟩

def functionsTrace (owner : String) : List Typed.Function → Trace (List Routine)
  | [] => return []
  | f :: rest => do
    let routine ← functionTrace owner f
    let others ← functionsTrace owner rest
    return routine :: others

def entryTrace (owner : String) (statement : Typed.Stmt) : Trace Routine := do
  let (code, slots) ← stmtTrace owner (Slots.start 1) 0 statement
  return ⟨"main", .void, slots.maxLocals, (code ++ [Instruction.ret]).toArray⟩

def compileTrace (p : Typed.Program) (name : String) : Trace Module := do
  let routines ← functionsTrace name (functions p)
  let entry ← entryTrace name p.statement
  return { name, fields := fields p, routines := initializer :: routines ++ [entry] }

/-! ## Without the events -/

section
variable (owner : String) (slots : Slots)

mutual

theorem exprTrace_result (base : Nat) (e : Typed.Expr) :
    (exprTrace owner slots base e).result = exprCode owner slots base e := by
  match e with
  | .ternary guard yes no =>
    simp only [exprTrace, exprCode, result_bind, result_pure, exprTrace_result _ guard,
      exprTrace_result _ yes, exprTrace_result _ no]
    rfl
  | .binary op left right =>
    simp only [exprTrace, exprCode, result_bind, result_pure, result_lift,
      exprTrace_result _ left, exprTrace_result _ right]
    rfl
  | .unary t op operand =>
    simp only [exprTrace, exprCode, result_bind, result_pure, result_lift,
      exprTrace_result _ operand]
    rfl
  | .call t name arguments =>
    simp only [exprTrace, exprCode, result_bind, result_pure, result_lift,
      exprsTrace_result _ arguments]
    rfl
  | .name t name =>
    simp only [exprTrace, exprCode, result_bind, result_pure, result_lift, result_note]
    rfl
  | .literal v =>
    simp only [exprTrace, exprCode, result_pure]

theorem exprsTrace_result (base : Nat) (es : List Typed.Expr) :
    (exprsTrace owner slots base es).result = exprsCode owner slots base es := by
  match es with
  | [] => simp only [exprsTrace, exprsCode, result_pure]
  | e :: rest =>
    simp only [exprsTrace, exprsCode, result_bind, result_pure, exprTrace_result _ e,
      exprsTrace_result _ rest]
    rfl

end

theorem printsTrace_result (base : Nat) (es : List Typed.Expr) :
    (printsTrace owner slots base es).result = printsCode owner slots base es := by
  induction es generalizing base with
  | nil => rfl
  | cons e rest ih =>
    simp only [printsTrace, printsCode, result_bind, result_pure, result_lift,
      exprTrace_result owner slots _ e, ih]
    rfl

theorem callTrace_result (base : Nat) (callee : Typed.Callee) (arguments : List Typed.Expr) :
    (callTrace owner slots base callee arguments).result =
      callCode owner slots base callee arguments := by
  cases callee with
  | print => exact printsTrace_result owner slots base arguments
  | println =>
    simp only [callTrace, callCode, result_bind, result_pure, printsTrace_result]
    rfl
  | function name =>
    simp only [callTrace, callCode, result_bind, result_pure, result_lift, exprsTrace_result]
    rfl

theorem bindTrace_result (name : String) : (bindTrace slots name).result = slots.bind name := by
  simp only [bindTrace, result_bind, result_lift, result_note, result_pure]
  cases slots.bind name <;> rfl

end

mutual

theorem stmtTrace_result (owner : String) (slots : Slots) (base : Nat) (s : Typed.Stmt) :
    (stmtTrace owner slots base s).result = stmtCode owner slots base s := by
  match s with
  | .assign name value =>
    simp only [stmtTrace, stmtCode, result_bind, result_pure, result_lift, result_note,
      exprTrace_result]
    rfl
  | .declare access name value =>
    simp only [stmtTrace, stmtCode, result_bind, result_pure, result_lift, exprTrace_result,
      bindTrace_result]
    rfl
  | .ifThen guard yes =>
    simp only [stmtTrace, stmtCode, result_bind, result_pure, exprTrace_result,
      stmtTrace_result _ _ _ yes]
    rfl
  | .ifElse guard yes no =>
    simp only [stmtTrace, stmtCode, result_bind, result_pure, exprTrace_result,
      stmtTrace_result _ _ _ yes, stmtTrace_result _ _ _ no]
    rfl
  | .whileDo guard body =>
    simp only [stmtTrace, stmtCode, result_bind, result_pure, exprTrace_result,
      stmtTrace_result _ _ _ body]
    rfl
  | .block body =>
    simp only [stmtTrace, stmtCode, result_bind, result_pure, stmtsTrace_result _ _ _ body]
    rfl
  | .call callee arguments =>
    simp only [stmtTrace, stmtCode, result_bind, result_pure, callTrace_result]
    rfl
  | .empty => simp only [stmtTrace, stmtCode, result_pure]

theorem stmtsTrace_result (owner : String) (slots : Slots) (base : Nat) (body : List Typed.Stmt) :
    (stmtsTrace owner slots base body).result = stmtsCode owner slots base body := by
  match body with
  | [] => simp only [stmtsTrace, stmtsCode, result_pure]
  | s :: rest =>
    simp only [stmtsTrace, stmtsCode, result_bind, result_pure, stmtTrace_result _ _ _ s,
      stmtsTrace_result _ _ _ rest]
    rfl

end

theorem bindAllTrace_result (slots : Slots) (names : List String) :
    (bindAllTrace slots names).result = bindAll slots names := by
  induction names generalizing slots with
  | nil => rfl
  | cons name rest ih =>
    simp only [bindAllTrace, bindAll, result_bind, bindTrace_result, ih]

theorem resultTrace_result (owner : String) (slots : Slots) (base : Nat) (name : String)
    (result : Option Typed.Expr) :
    (resultTrace owner slots base name result).result =
      resultCode owner slots base name result := by
  cases result with
  | none => rfl
  | some e =>
    simp only [resultTrace, resultCode, result_bind, result_pure, result_lift, exprTrace_result]
    rfl

theorem functionTrace_result (owner : String) (f : Typed.Function) :
    (functionTrace owner f).result = functionRoutine owner f := by
  simp only [functionTrace, functionRoutine, result_bind, result_pure, result_lift,
    bindAllTrace_result, stmtsTrace_result, resultTrace_result]
  rfl

theorem functionsTrace_result (owner : String) (fs : List Typed.Function) :
    (functionsTrace owner fs).result = fs.mapM (functionRoutine owner) := by
  induction fs with
  | nil => rfl
  | cons f rest ih =>
    simp only [functionsTrace, List.mapM_cons, result_bind, result_pure, functionTrace_result, ih]
    rfl

theorem entryTrace_result (owner : String) (statement : Typed.Stmt) :
    (entryTrace owner statement).result = entryRoutine owner statement := by
  simp only [entryTrace, entryRoutine, result_bind, result_pure, stmtTrace_result]
  rfl

/-- The trace of a program is that of the lowering itself. -/
theorem compileTrace_result (p : Typed.Program) (name : String) :
    (compileTrace p name).result = compile p name := by
  simp only [compileTrace, compile, result_bind, result_pure,
    functionsTrace_result, entryTrace_result]
  rfl

end PZero.Resolution
