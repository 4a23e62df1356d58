import PZero.Bytecode.Codec
import PZero.Bytecode.Json
import PZero.Bytecode.Listing
import PZero.Cli.Command
import PZero.Cli.Path
import PZero.Compiler
import PZero.Json.Printer
import PZero.Machine.Basic
import PZero.Typed.Json

/-! # What a command does

Every command reads one file. Its report says what goes to the two output streams,
which file is written, and how the command ends; `none` means that a program did not
come to an end.
-/
namespace PZero.Cli
open Bytecode

structure Report where
  stdout : String := ""
  stderr : String := ""
  exitCode : UInt32 := 0
  /-- The file to be written, if any. -/
  write : Option (String × Bytes) := none

/-- The command ends with an error. -/
def Report.fail (r : Report) (message : String) : Report :=
  { r with stderr := r.stderr ++ s!"Error: {message}\n", exitCode := 1, write := none }

/-- The exit code of arguments that give no command. -/
def usageExitCode : UInt32 := 2

def defaultModuleName (input : String) : String :=
  match fileStem? input with
  | some s => if s.isEmpty then "Main" else s
  | none => "Main"

def moduleExtension : String := "p0m"

/-- The text of a file, or why there is none. -/
def textOf (bytes : Bytes) : Except String String :=
  match String.fromUTF8? ⟨bytes.toArray⟩ with
  | some s => .ok s
  | none => .error "stream did not contain valid UTF-8"

/-- The diagnostics come first, each with the name of the file. -/
def Report.failCompile (r : Report) (input : String) (e : CompileError) : Report :=
  let lines := match e with
    | .diagnostics ds => ds.map fun d => s!"{input}:{d.message}\n"
    | _ => []
  { r with stderr := r.stderr ++ String.join lines }.fail e.message

/-- The program in a file. -/
def programOf (bytes : Bytes) : Except String Surface.Program := do
  let text ← textOf bytes
  (Compiler.parse text).mapError (·.message)

def compileReport (input : String) (output moduleName : Option String)
    (printTree printModule : Bool) (bytes : Bytes) : Report :=
  let name := moduleName.getD (defaultModuleName input)
  match programOf bytes with
  | .error message => ({} : Report).fail message
  | .ok program =>
    match Compiler.analyse program with
    | .error e => ({} : Report).failCompile input e
    | .ok typed =>
      let tree := if printTree then (typed.toJson Single.toJson).pretty ++ "\n" else ""
      match Compiler.lower typed name with
      | .error e => { stdout := tree : Report }.failCompile input e
      | .ok module =>
        { stdout := tree ++ if printModule then module.listing else ""
          write := some (output.getD (withExtension input moduleExtension), module.encode) }

/-- Runs a module to its end. -/
def executeReport (module : Module) (maxCallDepth : Option Nat) : Option Report := do
  let options : Machine.Options := { maxCallDepth := maxCallDepth.getD 1024 }
  let report ← (Machine.ofModule module options).run {} (Machine.fuel options)
  let printed : Report := { stdout := report.output }
  match report.result with
  | .ok _ => return printed
  | .error e => return printed.fail e.message

def runReport (input : String) (moduleName : Option String) (maxCallDepth : Option Nat)
    (bytes : Bytes) : Option Report :=
  match programOf bytes with
  | .error message => some (({} : Report).fail message)
  | .ok program =>
    match Compiler.compile program (moduleName.getD (defaultModuleName input)) with
    | .error e => some (({} : Report).failCompile input e)
    | .ok module => executeReport module maxCallDepth

def execReport (maxCallDepth : Option Nat) (bytes : Bytes) : Option Report :=
  match Module.decode bytes with
  | .error e => some (({} : Report).fail e.message)
  | .ok module => executeReport module maxCallDepth

namespace Command

/-- The file that a command reads. -/
def input? : Command → Option String
  | compile input .. | run input .. | exec input .. => some input
  | help | version => none

def helpText : String :=
  "p0 Compiler\n\nUsage: p0c [OPTIONS] <COMMAND>\n\nCommands: compile, run, exec, help\n"

/-- What a command reports, given its file or the reason why it cannot be read. -/
def report (c : Command) (file : Except String Bytes) : Option Report :=
  match c, file with
  | help, _ => some { stdout := helpText }
  | version, _ => some { stdout := "p0c 0.1.0\n" }
  | _, .error message => some (({} : Report).fail message)
  | compile input output moduleName printTree printModule, .ok bytes =>
    some (compileReport input output moduleName printTree printModule bytes)
  | run input moduleName maxCallDepth, .ok bytes => runReport input moduleName maxCallDepth bytes
  | exec _ maxCallDepth, .ok bytes => execReport maxCallDepth bytes

end Command
end PZero.Cli
