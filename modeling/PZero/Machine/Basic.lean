import PZero.Bytecode.Codec
import PZero.Machine.Step

/-! # The machine

A machine holds a module with the present values of its fields. It can run the
whole program or call a single routine, and keeps its fields and its step count
from one operation to the next.
-/
namespace PZero.Machine
open Bytecode

/-- Runs before the entry routine if the module has it. -/
def initializer : String := "<init>"

def entryRoutine : String := "main"

inductive State
  | setup
  | running
  | halted
  | failed (message : String)
  deriving DecidableEq, Inhabited

end Machine

open Bytecode Machine

structure Machine where
  module : Module
  options : Options := {}
  statics : List (String × Value)
  state : State := .setup
  /-- How many instructions were carried out so far. -/
  steps : Nat := 0

namespace Machine

/-- A machine before its first step; of two fields with one name the last one counts. -/
def ofModule (m : Module) (options : Options) : Machine :=
  { module := m, options
    statics := (m.fields.map fun f => (f.name, Value.ofConstant f.initial)).reverse }

def load (bytes : Bytes) (options : Options) : Except Error Machine :=
  match Module.decode bytes with
  | .ok m => .ok (ofModule m options)
  | .error e => .error (.load e)

def static? (m : Machine) (name : String) : Option Value := m.statics.lookup name

/-- How an operation ended: its result, what it printed, and the machine after it. -/
structure Report where
  result : Except Error (Option Value)
  output : String
  machine : Machine

/-- Carries a routine out from its start, after `output` was printed. -/
def execute (m : Machine) (sink : Sink) (fuel : Nat) (r : Routine) (arguments : List Value)
    (output : String) : Option Report :=
  let setting := ⟨m.module, m.options, sink⟩
  let config :=
    { frame := Frame.enter r arguments, store := { statics := m.statics, steps := m.steps, output } }
  (Config.run setting fuel config).map fun (result, s) =>
    { result, output := s.output, machine := { m with statics := s.statics, steps := s.steps } }

/-- Calls the routine of a name; the state of the machine stays. -/
def call (m : Machine) (sink : Sink) (fuel : Nat) (name : String) (arguments : List Value)
    (output : String) : Option Report :=
  match routine? m.module name with
  | some r => m.execute sink fuel r arguments output
  | none => some ⟨.error (.unknownRoutine name), output, m⟩

/-- The initializer, if there is one, and then the entry routine with its one argument. -/
def runEntry (m : Machine) (sink : Sink) (fuel : Nat) : Option Report := do
  let first ← match routine? m.module initializer with
    | some r => m.execute sink fuel r [] ""
    | none => some ⟨.ok none, "", m⟩
  match first.result with
  | .error _ => return first
  | .ok _ => first.machine.call sink fuel entryRoutine [.unit] first.output

/-- Runs the program and flushes its output. A flush that is refused hides how the program ended. -/
def run (m : Machine) (sink : Sink) (fuel : Nat) : Option Report := do
  let report ← { m with state := .running }.runEntry sink fuel
  match sink.refusesFlush with
  | some message => return { report with result := .error (.output message) }
  | none =>
    let state := match report.result with
      | .ok _ => State.halted
      | .error e => .failed e.message
    return { report with machine := { report.machine with state } }

/-- Fuel for one routine: with a step limit it always lasts. -/
def fuel (o : Options) : Nat :=
  match o.stepLimit with
  | some limit => limit + 1
  | none => 1 <<< 63

end Machine
end PZero
