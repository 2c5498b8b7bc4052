import JackLang.Command.Disk
import JackLang.Grammar.ParseTree
import JackLang.Main
import JackLang.Compilation.Code
import JackLang.Proofs.Output.Unlimited
import JackLang.Proofs.Reading.Places
import JackLang.Proofs.Reading.Course
import JackLang.Proofs.Reading.Sentence
import JackLang.Proofs.Reading.Declarations
import JackLang.Proofs.Token.Regular
import JackLang.Proofs.Reading.Spelling
import JackLang.Proofs.Reading.Soundness
import JackLang.Proofs.Scope
import JackLang.Proofs.Compilation.Permitted
import JackLang.Proofs.Compilation.Carry
import JackLang.Proofs.Compilation.Courses
import JackLang.Proofs.Compilation.Units
import JackLang.Proofs.Acceptance
import JackLang.Proofs.Vm.Height
import JackLang.Proofs.Compilation.Sections
import JackLang.Proofs.Compilation.StackHeights
import JackLang.Proofs.Vm.Machine
import JackLang.Proofs.Compilation.Labels
import JackLang.Proofs.Meaning
import JackLang.Proofs.Compilation.Values
import JackLang.Proofs.Compilation.Effects
import JackLang.Proofs.Compilation.Jumps
import JackLang.Proofs.Compilation.Execution
import JackLang.Proofs.Reading.Progress
import JackLang.Proofs.SyntaxErrors
import JackLang.Proofs.Reading.Completion
import JackLang.Proofs.Compilation.Faults
import JackLang.Proofs.Compilation.Runs
import JackLang.Proofs.PartialPrograms
import JackLang.Proofs.OperandBounds
import JackLang.Proofs.LabelIntegrity
import JackLang.Proofs.Reading.Pointing
import JackLang.Proofs.Compilation.FaultOrder
import JackLang.Proofs.StaticErrors
import JackLang.Proofs.Token.Layout
import JackLang.Proofs.Token.Scanning
import JackLang.Proofs.SourceLayout
import JackLang.Proofs.Printing
import JackLang.Proofs.TreeOutput
import JackLang.Proofs.Compilation.LookAhead
import JackLang.Proofs.LookAhead
import JackLang.Proofs.TreeBrackets
import JackLang.Proofs.TreeIndependence
import JackLang.Proofs.LexicalErrors
import JackLang.Proofs.SeparateSubroutines
import JackLang.Proofs.VariableNames
import JackLang.Proofs.LineOffsets
import JackLang.Proofs.LocatedDiagnostics
import JackLang.Proofs.RefusedOutputs
import JackLang.Proofs.ScopeHistory
import JackLang.Proofs.TokenListReading
import JackLang.Proofs.ProgramText
import JackLang.Proofs.DirectoryRuns
import JackLang.Proofs.LineLookup
import JackLang.Proofs.FileHistory
import JackLang.Proofs.OnePass
import JackLang.Proofs.NoAbort
import JackLang.Proofs.DeclaredClass
