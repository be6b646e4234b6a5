import FormulaEngine.Arithmetic
import FormulaEngine.Batch
import FormulaEngine.Batch.Chunk
import FormulaEngine.Batch.ColumnCache
import FormulaEngine.Batch.Lanes
import FormulaEngine.Batch.Layout
import FormulaEngine.Binary64
import FormulaEngine.Binding
import FormulaEngine.Compilation
import FormulaEngine.Dataset
import FormulaEngine.Decimal
import FormulaEngine.Error
import FormulaEngine.Formula
import FormulaEngine.Interpreter
import FormulaEngine.Machine
import FormulaEngine.Machine.Action
import FormulaEngine.Machine.ArgumentStack
import FormulaEngine.Machine.CursorRegister
import FormulaEngine.Machine.FlatStack
import FormulaEngine.Machine.Termination
import FormulaEngine.Node
import FormulaEngine.NumberText
import FormulaEngine.Opcode
import FormulaEngine.Operation
import FormulaEngine.Population
import FormulaEngine.Powers
import FormulaEngine.Program
import FormulaEngine.Program.Listing
import FormulaEngine.Rounding
import FormulaEngine.Rows
import FormulaEngine.Scalar
import FormulaEngine.Session
import FormulaEngine.Special.Airy
import FormulaEngine.Special.Bessel
import FormulaEngine.Special.Constants
import FormulaEngine.Special.ErrorFunction
import FormulaEngine.Special.ExpMinusOne
import FormulaEngine.Special.ExponentialIntegral
import FormulaEngine.Special.Gamma
import FormulaEngine.Special.Quadrature
import FormulaEngine.Special.SineIntegral
import FormulaEngine.Symbol
import FormulaEngine.Proofs.PrefixOrder
import FormulaEngine.Proofs.Span
import FormulaEngine.Proofs.Emission
import FormulaEngine.Proofs.ProgramShape
import FormulaEngine.Proofs.Refusal
import FormulaEngine.Proofs.Hooks
import FormulaEngine.Proofs.Meaning
import FormulaEngine.Proofs.Image
import FormulaEngine.Proofs.Operations
import FormulaEngine.Proofs.Combination
import FormulaEngine.Proofs.Instructions
import FormulaEngine.Proofs.Correctness
import FormulaEngine.Proofs.Balance
import FormulaEngine.Proofs.Observation
import FormulaEngine.Proofs.Lockstep
import FormulaEngine.Proofs.Relocation
import FormulaEngine.Proofs.Cost
import FormulaEngine.Proofs.MoreSteps
import FormulaEngine.Proofs.Effort
import FormulaEngine.Proofs.Causality
import FormulaEngine.Proofs.CallGraph
import FormulaEngine.Proofs.StackRoom
import FormulaEngine.Proofs.CursorRange
import FormulaEngine.Proofs.CallLimit
import FormulaEngine.Proofs.Reordering
import FormulaEngine.Proofs.Subtrees
import FormulaEngine.Proofs.Connectives
import FormulaEngine.Proofs.Rewriting
import FormulaEngine.Proofs.Replacement
import FormulaEngine.Proofs.TimeShift
import FormulaEngine.Proofs.Batch.Lanes
import FormulaEngine.Proofs.Batch.Groups
import FormulaEngine.Proofs.Batch.Layout
import FormulaEngine.Proofs.Batch.Levels
import FormulaEngine.Proofs.Batch.Chunk
import FormulaEngine.Proofs.Batch.Agreement
import FormulaEngine.Proofs.Batch.Buffers
import FormulaEngine.Proofs.Batch.Refusal
import FormulaEngine.Proofs.Population
import FormulaEngine.Proofs.Isolation
import FormulaEngine.Proofs.Session
import FormulaEngine.Proofs.Traversal
import FormulaEngine.Proofs.Drawing
import FormulaEngine.Proofs.Lineage
import FormulaEngine.Proofs.Bookkeeping
import FormulaEngine.Proofs.Skipping
import FormulaEngine.Proofs.WholeNumbers
import FormulaEngine.Proofs.FrameStack
import FormulaEngine.Proofs.Quadrature
