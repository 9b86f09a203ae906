import DecimalScript.Main
import DecimalScript.Environment.History
import DecimalScript.Prompt.Highlight
import DecimalScript.Proofs.Comparison
import DecimalScript.Proofs.Sequencing
import DecimalScript.Proofs.Builtins
import DecimalScript.Proofs.Expressions
import DecimalScript.Proofs.Reading
import DecimalScript.Proofs.Statements
import DecimalScript.Proofs.Jobs
import DecimalScript.Proofs.Bookkeeping
import DecimalScript.Proofs.Budget
import DecimalScript.Proofs.Brackets
import DecimalScript.Proofs.Loops
import DecimalScript.Proofs.Balance
import DecimalScript.Proofs.Capacity
import DecimalScript.Proofs.ReadingPrograms
import DecimalScript.Proofs.Runs
import DecimalScript.Proofs.Transparency
import DecimalScript.Proofs.Recovery
import DecimalScript.Proofs.ReadingProgress
import DecimalScript.Proofs.LeafOrder
import DecimalScript.Proofs.RenderingPrograms
import DecimalScript.Proofs.FrameStacks
import DecimalScript.Eval.Observe
import DecimalScript.Proofs.Observation
import DecimalScript.Value.Parts
import DecimalScript.Proofs.DistinctFields
import DecimalScript.Proofs.Effects
import DecimalScript.Proofs.Evolution
import DecimalScript.Proofs.ScopeIsolation
import DecimalScript.Proofs.LoopLimits
import DecimalScript.Proofs.ControlFlow
import DecimalScript.Proofs.FailedImports
import DecimalScript.Proofs.CompleteModules
import DecimalScript.Proofs.AliasMeaning
import DecimalScript.Proofs.Relayout
import DecimalScript.Proofs.Composition
import DecimalScript.Proofs.Reloads
import DecimalScript.Proofs.RangeTurns
import DecimalScript.Proofs.CursorTokens
import DecimalScript.Proofs.Climbing
import DecimalScript.Proofs.LoopHeaders
import DecimalScript.Value.Path
import DecimalScript.Eval.InPlace
import DecimalScript.Syntax.Mentions
import DecimalScript.Proofs.PropertyWrites
import DecimalScript.Proofs.FailedAssignments
import DecimalScript.Proofs.AliasMembers
import DecimalScript.Proofs.UnusedVariables
import DecimalScript.Proofs.MemberCalls
import DecimalScript.Number.Words
import DecimalScript.Number.Rational
import DecimalScript.Proofs.Arithmetic
import DecimalScript.Proofs.DecimalText
import DecimalScript.Proofs.PrintedNumbers
import DecimalScript.Syntax.Calls
import DecimalScript.Eval.Nested
import DecimalScript.Proofs.ModuleEffects
import DecimalScript.Text.Literal
import DecimalScript.Prompt.Placement
import DecimalScript.Proofs.Encoding
import DecimalScript.Proofs.Literals
import DecimalScript.Proofs.Highlighting
import DecimalScript.Proofs.ColorPlaces
import DecimalScript.Prompt.Guesses
import DecimalScript.Syntax.Definitions
import DecimalScript.Proofs.OpenBlocks
import DecimalScript.Number.Squaring
import DecimalScript.Proofs.Powers
import DecimalScript.Proofs.ByteOffsets
import DecimalScript.Library.Apply
import DecimalScript.Proofs.TextSearch
import DecimalScript.Loop.History
import DecimalScript.Loop.InPlace
import DecimalScript.Proofs.LoopHistories
import DecimalScript.Eval.ItemTurns
import DecimalScript.Proofs.Elements
import DecimalScript.Proofs.ByteOrder
import DecimalScript.Proofs.ValueOrder
import DecimalScript.Library.Positional
import DecimalScript.Eval.Arguments
import DecimalScript.Proofs.PositionalBuiltins
import DecimalScript.Proofs.LibraryCalls
import DecimalScript.Proofs.FaithfulLexemes
import DecimalScript.Proofs.ExpressionEnds
import DecimalScript.Proofs.DefinitionSpellings
import DecimalScript.Proofs.LoopRuns
import DecimalScript.Proofs.SoundRanges
