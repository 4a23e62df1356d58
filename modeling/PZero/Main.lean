import PZero.Cli.Report

/-! # The command line

Reads the input file, has the command report on it, and carries the report out.
-/
namespace PZero.Cli

/-- The text for a failed operation on a file. -/
def ioMessage : IO.Error → String
  | .noFileOrDirectory _ code details | .permissionDenied _ code details
  | .inappropriateType _ code details | .invalidArgument _ code details
  | .resourceExhausted _ code details | .otherError code details =>
    s!"{details} (os error {code})"
  | e => toString e

/-- Carries out a report; a file that cannot be written makes it fail. -/
def Report.perform (r : Report) : IO UInt32 := do
  IO.print r.stdout
  (← IO.getStdout).flush
  let r ← match r.write with
    | none => pure r
    | some (path, bytes) =>
      try
        IO.FS.writeBinFile path ⟨bytes.toArray⟩
        pure r
      catch e => pure (r.fail (ioMessage e))
  IO.eprint r.stderr
  return r.exitCode

/-- The file that a command reads, if any. -/
def Command.file (c : Command) : IO (Except String Bytecode.Bytes) := do
  match c.input? with
  | none => return .ok []
  | some path =>
    try
      return .ok (← IO.FS.readBinFile path).data.toList
    catch e => return .error (ioMessage e)

end PZero.Cli

open PZero.Cli in
def main (arguments : List String) : IO UInt32 := do
  match Command.ofArguments? arguments with
  | none =>
    IO.eprint Command.helpText
    return usageExitCode
  | some command =>
    match command.report (← command.file) with
    | some report => report.perform
    | none => return 1
