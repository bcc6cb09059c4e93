import BlockLang.Code.Basic
import BlockLang.Code.Linear
import BlockLang.Code.Program
import BlockLang.Code.Text
import BlockLang.Command
import BlockLang.Compile
import BlockLang.Diagnostic
import BlockLang.Frame
import BlockLang.Ident
import BlockLang.Intrinsic
import BlockLang.Label
import BlockLang.Layout
import BlockLang.Lowering
import BlockLang.Machine.Basic
import BlockLang.Machine.Console
import BlockLang.Machine.Fault
import BlockLang.Machine.Generator
import BlockLang.Machine.Keystream
import BlockLang.Machine.Memory
import BlockLang.Machine.Run
import BlockLang.Machine.Step
import BlockLang.Main
import BlockLang.Proofs.Action
import BlockLang.Proofs.Branching
import BlockLang.Proofs.ControlFlow
import BlockLang.Proofs.FreshLabels
import BlockLang.Proofs.Intrinsics
import BlockLang.Proofs.LinearCode
import BlockLang.Proofs.Linearization
import BlockLang.Proofs.LoweringCases
import BlockLang.Proofs.Mentions
import BlockLang.Proofs.Nodes
import BlockLang.Proofs.Placement
import BlockLang.Proofs.Reach
import BlockLang.Proofs.Semantics
import BlockLang.Proofs.Simulation
import BlockLang.Proofs.Slots
import BlockLang.Proofs.Splitting
import BlockLang.Proofs.Stateful
import BlockLang.Proofs.StructuredCode
import BlockLang.Proofs.StructuredLayout
import BlockLang.Proofs.StructuredLowering
import BlockLang.Proofs.ThreadSteps
import BlockLang.Proofs.TreeEvaluation
import BlockLang.Proofs.TypeSoundness
import BlockLang.Proofs.Words
import BlockLang.Source.Builder
import BlockLang.Source.Operator
import BlockLang.Source.Sample
import BlockLang.Source.Span
import BlockLang.Source.Syntax
import BlockLang.Text.Hidden
import BlockLang.Text.Ink
import BlockLang.Text.Quoted
import BlockLang.Text.Utf8
import BlockLang.Ty
import BlockLang.Word
import BlockLang.Proofs.Globals
import BlockLang.Proofs.StructuredCompilation
import BlockLang.Proofs.Compilation
import BlockLang.Proofs.UniqueLabels
import BlockLang.Proofs.Agreement
import BlockLang.Proofs.Flow
import BlockLang.Proofs.InternalFaults
import BlockLang.Proofs.CallSequence
import BlockLang.Proofs.Callees
import BlockLang.Proofs.Overflow
import BlockLang.Proofs.StepCases
import BlockLang.Proofs.Termination
import BlockLang.Proofs.CallShape
import BlockLang.Proofs.CallingConvention
import BlockLang.Proofs.StaticLinks
import BlockLang.Proofs.ArgumentPassing
import BlockLang.Proofs.ChunkList
import BlockLang.Proofs.StaticImage
import BlockLang.Proofs.EvaluationOrder
import BlockLang.Proofs.Reseeding
import BlockLang.Proofs.ArrayElements
import BlockLang.Proofs.ArrayCopy
import BlockLang.Proofs.CountingLoop
import BlockLang.Proofs.FactorialRun
import BlockLang.Proofs.WordArithmetic
import BlockLang.Proofs.MemoryWords
import BlockLang.Proofs.StaticAllocation
import BlockLang.Proofs.TextRoundTrip
import BlockLang.Proofs.RandomRange
import BlockLang.Proofs.LinearityCheck
import BlockLang.Proofs.UnambiguousText
import BlockLang.Proofs.LoweredTrees
import BlockLang.Proofs.CallSetup
import BlockLang.Proofs.BuilderSteps
import BlockLang.Proofs.BuiltPrograms
import BlockLang.Proofs.SingleAssignment
