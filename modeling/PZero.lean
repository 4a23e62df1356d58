import PZero.Main
import PZero.Proofs.Checker.Stmt
import PZero.Proofs.Codec.Canonical
import PZero.Proofs.Codec.Exact
import PZero.Proofs.Codec.Delimited
import PZero.Proofs.Codec.RoundTrip
import PZero.Bytecode.Assembler
import PZero.Diagnostic.Json
import PZero.Proofs.Checker.Program
import PZero.Proofs.Checker.Tree
import PZero.Proofs.Lowering.Code
import PZero.Proofs.Lowering.Module
import PZero.Proofs.Lowering.Labels
import PZero.Proofs.Lowering.Assembled
import PZero.Proofs.Reference
import PZero.Proofs.Simulation.Basic
import PZero.Proofs.Simulation.Operators
import PZero.Proofs.Simulation.Expr
import PZero.Proofs.Simulation.Stmt
import PZero.Proofs.Machine.Limits
import PZero.Proofs.Machine.Budget
import PZero.Proofs.Machine.Recursion
import PZero.Proofs.Machine.Effect
import PZero.Proofs.Simulation.Program
import PZero.Proofs.Simulation.Correctness
import PZero.Proofs.Safety.History
import PZero.Proofs.Safety.Perform
import PZero.Proofs.Safety.Run
import PZero.Proofs.Safety.Expr
import PZero.Proofs.Safety.Stmt
import PZero.Proofs.Safety.Program
import PZero.Proofs.Totality.Obstacle
import PZero.Proofs.Totality.Lowering
import PZero.Proofs.Totality.Program
import PZero.Proofs.Linking
import PZero.Proofs.Stack
import PZero.Proofs.Analysis.Fading
import PZero.Proofs.Analysis.Names
import PZero.Proofs.Analysis.Context
import PZero.Proofs.Analysis.Cascade
import PZero.Proofs.Analysis.Log
import PZero.Proofs.Analysis.ShownTypes
import PZero.Proofs.Checker.Inside
import PZero.Proofs.Analysis.ErrorType
import PZero.Proofs.Safety.State
import PZero.Proofs.Safety.Cutoff
import PZero.Proofs.Safety.StepBudget
import PZero.Proofs.Lowering.Reserved
import PZero.Proofs.Assembler
import PZero.Proofs.Analysis.Meanings
import PZero.Proofs.Order
import PZero.Proofs.Lowering.Owner
import PZero.Proofs.Safety.Renamed
import PZero.Proofs.Resolution.Trace
import PZero.Proofs.Resolution.Origin
import PZero.Proofs.Resolution.Alike
import PZero.Proofs.Lowering.Allocation
import PZero.Proofs.Analysis.Parentheses
import PZero.Proofs.Codec.Located
import PZero.Proofs.Machine.Perform
import PZero.Proofs.Machine.Moves
import PZero.Proofs.Safety.Faults
import PZero.Proofs.Codec.DescriptorText
import PZero.Proofs.Scopes
import PZero.Proofs.Spans
import PZero.Proofs.Analysis.Escapes
import PZero.Proofs.Analysis.IntLiteral
