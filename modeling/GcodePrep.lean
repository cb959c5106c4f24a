import GcodePrep.Binary64
import GcodePrep.Bindings
import GcodePrep.Branch
import GcodePrep.CommandLine.Arguments
import GcodePrep.CommandLine.Config
import GcodePrep.Decimal.Numeral
import GcodePrep.Decimal.Shortest
import GcodePrep.Destination
import GcodePrep.Diagnostic
import GcodePrep.Environment
import GcodePrep.Expr.Basic
import GcodePrep.Expr.Eval
import GcodePrep.Expr.Fault
import GcodePrep.Expr.Operation
import GcodePrep.Expr.Parser
import GcodePrep.Expr.Token
import GcodePrep.FileTree
import GcodePrep.JsonText
import GcodePrep.Layout
import GcodePrep.Line
import GcodePrep.Main
import GcodePrep.Origin
import GcodePrep.Path
import GcodePrep.Preprocessor.Directives
import GcodePrep.Preprocessor.Files
import GcodePrep.Preprocessor.Lines
import GcodePrep.Preprocessor.State
import GcodePrep.Problem
import GcodePrep.Program
import GcodePrep.Proofs.ArgumentReading
import GcodePrep.Proofs.Assembly
import GcodePrep.Proofs.BindingScope
import GcodePrep.Proofs.BlockLifetimes
import GcodePrep.Proofs.BodyLines
import GcodePrep.Proofs.BodyNumbering
import GcodePrep.Proofs.BranchVisibility
import GcodePrep.Proofs.Catalogue
import GcodePrep.Proofs.Chaining
import GcodePrep.Proofs.Coherence
import GcodePrep.Proofs.CompletedAssignments
import GcodePrep.Proofs.DeadBranches
import GcodePrep.Proofs.Definitions
import GcodePrep.Proofs.DepthLimit
import GcodePrep.Proofs.DiagnosticOutput
import GcodePrep.Proofs.Dispatch
import GcodePrep.Proofs.EndOfFile
import GcodePrep.Proofs.EvaluationFootprint
import GcodePrep.Proofs.EvaluationRuns
import GcodePrep.Proofs.ExactValues
import GcodePrep.Proofs.ExitStatus
import GcodePrep.Proofs.FallbackDefinitions
import GcodePrep.Proofs.FaultOffsets
import GcodePrep.Proofs.FileEdits
import GcodePrep.Proofs.Grammar
import GcodePrep.Proofs.IncludeDepth
import GcodePrep.Proofs.Inlining
import GcodePrep.Proofs.InsertionOrder
import GcodePrep.Proofs.IntegerExtremes
import GcodePrep.Proofs.IntegerOperators
import GcodePrep.Proofs.Interruption
import GcodePrep.Proofs.JumpLinking
import GcodePrep.Proofs.LabelNames
import GcodePrep.Proofs.LineReading
import GcodePrep.Proofs.Log
import GcodePrep.Proofs.NameEvaluation
import GcodePrep.Proofs.NamesReadBack
import GcodePrep.Proofs.NumberTexts
import GcodePrep.Proofs.OptionPrecedence
import GcodePrep.Proofs.Outline
import GcodePrep.Proofs.OutputGate
import GcodePrep.Proofs.ParserCompleteness
import GcodePrep.Proofs.ParserSoundness
import GcodePrep.Proofs.PlainText
import GcodePrep.Proofs.Positions
import GcodePrep.Proofs.ProgramFiles
import GcodePrep.Proofs.ProgramNumbers
import GcodePrep.Proofs.Provenance
import GcodePrep.Proofs.QuotedTexts
import GcodePrep.Proofs.Rescanning
import GcodePrep.Proofs.Revisions
import GcodePrep.Proofs.SteadySteps
import GcodePrep.Proofs.StepEffects
import GcodePrep.Proofs.SwitchCompilation
import GcodePrep.Proofs.TokenIndependence
import GcodePrep.Proofs.TokenSpans
import GcodePrep.Proofs.TokenSplitting
import GcodePrep.Proofs.TokenSubstitution
import GcodePrep.Proofs.Traversal
import GcodePrep.Proofs.TreeHeight
import GcodePrep.Proofs.WordRounding
import GcodePrep.Proofs.WordSigns
import GcodePrep.Report
import GcodePrep.Session.Console
import GcodePrep.Session.Run
import GcodePrep.Substitution
import GcodePrep.Switch
import GcodePrep.Text.Blank
import GcodePrep.Text.Split
import GcodePrep.Text.Word
import GcodePrep.Value
