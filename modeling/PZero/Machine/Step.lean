import PZero.Machine.Frame

/-! # One step of the machine

A configuration is the running frame, its callers and what outlives them: the
static fields, the number of steps so far and the text printed so far. A step
counts itself, fetches an instruction and carries it out.
-/
namespace PZero.Machine
open Bytecode

structure Options where
  /-- How many routines may be active at once. -/
  maxCallDepth : Nat := 1024
  /-- How many instructions may be carried out. -/
  stepLimit : Option Nat := none
  deriving DecidableEq, Inhabited

/-- Where printed text goes. It may refuse a text, seeing what was printed before, or the final
flush; a refusal is a message. -/
structure Sink where
  refuses : String → String → Option String := fun _ _ => none
  refusesFlush : Option String := none

/-- What frames share. -/
structure Store where
  statics : List (String × Value)
  steps : Nat := 0
  output : String := ""
  deriving Inhabited

/-- What does not change during a run. -/
structure Setting where
  module : Module
  options : Options
  sink : Sink

namespace Store

/-- Prints a text; an empty one never reaches the sink. -/
def print (s : Store) (sink : Sink) (text : String) : Except Error Store :=
  if text.isEmpty then .ok s
  else match sink.refuses s.output text with
    | some message => .error (.output message)
    | none => .ok { s with output := s.output ++ text }

def setStatic (s : Store) (name : String) (v : Value) : Store :=
  { s with statics := s.statics.map fun p => if p.1 == name then (p.1, v) else p }

end Store

/-- The last routine of a name is the one that is called. -/
def routine? (m : Module) (name : String) : Option Routine :=
  m.routines.reverse.find? (·.name == name)

namespace Setting

/-- The value of a field; it has to belong to the running module. -/
def static (c : Setting) (s : Store) (r : FieldRef) : Except Error Value :=
  match if r.owner == c.module.name then s.statics.lookup r.name else none with
  | some v => .ok v
  | none => .error (.unknownField s!"{r.owner}.{r.name}")

def callee (c : Setting) (r : RoutineRef) : Except Error Routine :=
  match if r.owner == c.module.name then routine? c.module r.name else none with
  | some routine => .ok routine
  | none => .error (.unknownRoutine s!"{r.owner}.{r.name}")

end Setting

/-- How a run goes on after an instruction. -/
inductive Flow
  | next (f : Frame) (s : Store)
  | call (r : Routine) (arguments : List Value) (f : Frame)
  | leave (result : Option Value)

/-- The int that a comparison of floats pushes. -/
def comparison (a b : Single) : Int32 :=
  match a.compare? b with
  | some .lt => -1
  | some .eq => 0
  | some .gt | none => 1

/-- Division rounds toward zero and wraps around. -/
def divide (a b : Int32) : Except Fault Int32 :=
  if b = 0 then .error .divisionByZero else .ok (a / b)

/-- Carries out an instruction that was just fetched. -/
def perform (c : Setting) (f : Frame) (s : Store) : Instruction → Except Error Flow
  | .iconst v => return .next (f.push (.int v)) s
  | .fconst v => return .next (f.push (.float v)) s
  | .sconst v => return .next (f.push (.string v)) s
  | .iload slot => do
    match ← f.load slot with
    | .int v => return .next (f.push (.int v)) s
    | v => throw (f.mismatch .int v)
  | .fload slot => do
    match ← f.load slot with
    | .float v => return .next (f.push (.float v)) s
    | v => throw (f.mismatch .float v)
  | .istore slot => do
    let (v, f) ← f.popInt
    return .next (← f.store slot (.int v)) s
  | .fstore slot => do
    let (v, f) ← f.popFloat
    return .next (← f.store slot (.float v)) s
  | .getStatic r => do
    return .next (f.push (← c.static s r)) s
  | .putStatic r => do
    let (v, f) ← f.pop
    let _ ← c.static s r
    return .next f (s.setStatic r.name v)
  | .iadd => return .next (← f.intBinary fun a b => .ok (a + b)) s
  | .isub => return .next (← f.intBinary fun a b => .ok (a - b)) s
  | .imul => return .next (← f.intBinary fun a b => .ok (a * b)) s
  | .idiv => return .next (← f.intBinary divide) s
  | .ineg => do
    let (v, f) ← f.popInt
    return .next (f.push (.int (-v))) s
  | .fadd => return .next (← f.floatBinary Single.add) s
  | .fsub => return .next (← f.floatBinary Single.sub) s
  | .fmul => return .next (← f.floatBinary Single.mul) s
  | .fdiv => return .next (← f.floatBinary Single.div) s
  | .fneg => do
    let (v, f) ← f.popFloat
    return .next (f.push (.float v.neg)) s
  | .iand => return .next (← f.intBinary fun a b => .ok (a &&& b)) s
  | .ior => return .next (← f.intBinary fun a b => .ok (a ||| b)) s
  | .ixor => return .next (← f.intBinary fun a b => .ok (a ^^^ b)) s
  | .fcmpg => do
    let (b, f) ← f.popFloat
    let (a, f) ← f.popFloat
    return .next (f.push (.int (comparison a b))) s
  | .ifZero condition target => do
    let (v, f) ← f.popInt
    return .next (if condition.holds (compare v 0) then f.jump target else f) s
  | .ifCompare condition target => do
    let (b, f) ← f.popInt
    let (a, f) ← f.popInt
    return .next (if condition.holds (compare a b) then f.jump target else f) s
  | .goto target => return .next (f.jump target) s
  | .invoke r => do
    let routine ← c.callee r
    let (arguments, f) ← f.popMany r.descriptor.parameters.length
    return .call routine arguments f
  | .ret => return .leave none
  | .iret => do
    let (v, _) ← f.popInt
    return .leave (some (.int v))
  | .fret => do
    let (v, _) ← f.popFloat
    return .leave (some (.float v))
  | .getStdout => return .next (f.push .stream) s
  | .print type => do
    let (v, f) ← f.pop
    let f ← f.popStream
    match printed? type v with
    | some text => return .next f (← s.print c.sink text)
    | none => throw (f.mismatch (Kind.ofFieldType type) v)
  | .printFixed places => do
    let (v, f) ← f.popFloat
    let f ← f.popStream
    return .next f (← s.print c.sink (printedFloat (some places.toNat) v))
  | .printNewline => do
    let f ← f.popStream
    return .next f (← s.print c.sink "\n")
  | .pop => do
    let (_, f) ← f.pop
    return .next f s

/-- A run in progress. -/
structure Config where
  frame : Frame
  /-- The frames that wait for a result, innermost first. -/
  callers : List Frame := []
  store : Store
  deriving Inhabited

inductive Outcome
  | running (c : Config)
  | finished (result : Option Value) (s : Store)
  | failed (e : Error) (s : Store)

/-- The caller goes on with the result on its stack. -/
def Frame.receive (f : Frame) : Option Value → Frame
  | some v => f.push v
  | none => f

/-- What follows an instruction of the running frame. -/
def Config.proceed (c : Setting) (callers : List Frame) (s : Store) : Flow → Outcome
  | .next f s => .running ⟨f, callers, s⟩
  | .call r arguments f =>
    if c.options.maxCallDepth ≤ callers.length + 1 then
      .failed (.callDepthExceeded c.options.maxCallDepth) s
    else .running ⟨Frame.enter r arguments, f :: callers, s⟩
  | .leave result =>
    match callers with
    | [] => .finished result s
    | caller :: rest => .running ⟨caller.receive result, rest, s⟩

/-- The limit that a number of steps exceeds. -/
def Options.exceeded? (o : Options) (steps : Nat) : Option Nat :=
  o.stepLimit.bind fun limit => if limit < steps then some limit else none

/-- One step: an instruction that fails leaves no trace but the count. -/
def Config.step (c : Setting) (config : Config) : Outcome :=
  let s := { config.store with steps := config.store.steps + 1 }
  match c.options.exceeded? s.steps with
  | some limit => .failed (.stepLimitExceeded limit) s
  | none =>
    match config.frame.fetch with
    | .error e => .failed e s
    | .ok (i, f) =>
      match perform c f s i with
      | .error e => .failed e s
      | .ok flow => Config.proceed c config.callers s flow

/-- Steps until the first routine returns or something fails; `none` when the fuel does not last. -/
def Config.run (c : Setting) : Nat → Config → Option (Except Error (Option Value) × Store)
  | 0, _ => none
  | fuel + 1, config =>
    match config.step c with
    | .running next => Config.run c fuel next
    | .finished result s => some (.ok result, s)
    | .failed e s => some (.error e, s)

end PZero.Machine
