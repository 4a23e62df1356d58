import PZero.Analysis.Program
import PZero.Lowering.Program
import PZero.Surface.Json

/-! # From text to module

Reading, analysis and lowering in a row. The first of them that fails says why.
-/
namespace PZero

inductive CompileError
  | diagnostics (list : List Diagnostic)
  | internal (cause : Lowering.Error)
  /-- Code whose labels do not resolve. -/
  | bytecode (cause : Bytecode.Error)
  /-- A text that is not the data of a program. -/
  | invalidInput
  deriving DecidableEq

namespace CompileError

def message : CompileError → String
  | diagnostics list => Diagnostic.summary list.length
  | internal cause => s!"Internal compiler error: {cause.message}"
  | bytecode cause => s!"Bytecode error: {cause.message}"
  | invalidInput => "Invalid input: not the tree of a program"

end CompileError

namespace Compiler

def parse (text : String) : Except CompileError Surface.Program :=
  match Surface.Program.parse? text with
  | some p => .ok p
  | none => .error .invalidInput

def analyse (p : Surface.Program) : Except CompileError Typed.Program :=
  (Analysis.check p).mapError .diagnostics

def lower (p : Typed.Program) (name : String) : Except CompileError Bytecode.Module :=
  (Lowering.compile p name).mapError .internal

def compile (p : Surface.Program) (name : String) : Except CompileError Bytecode.Module := do
  lower (← analyse p) name

def compileText (text name : String) : Except CompileError Bytecode.Module := do
  compile (← parse text) name

end Compiler
end PZero
