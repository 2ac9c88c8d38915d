import StrongCyclic.Answer.Output
import StrongCyclic.Answer.Reader
import StrongCyclic.Answer.Term
import StrongCyclic.Collection.IdMap
import StrongCyclic.Collection.Keyed
import StrongCyclic.Collection.Sorted
import StrongCyclic.CommandLine.Option
import StrongCyclic.CommandLine.Request
import StrongCyclic.CommandLine.Run
import StrongCyclic.Controller.Basic
import StrongCyclic.Controller.Graph
import StrongCyclic.Controller.OfAnswer
import StrongCyclic.Controller.TextForm
import StrongCyclic.Disk.Fault
import StrongCyclic.Disk.FileTree
import StrongCyclic.Disk.Path
import StrongCyclic.Encoding.Instance
import StrongCyclic.Encoding.Line
import StrongCyclic.Guidance.Backbone
import StrongCyclic.Guidance.ConstraintFile
import StrongCyclic.Guidance.Detection
import StrongCyclic.Guidance.Undo
import StrongCyclic.Main
import StrongCyclic.Number.Binary64
import StrongCyclic.Number.Duration
import StrongCyclic.Number.Word
import StrongCyclic.Planning.Action
import StrongCyclic.Planning.State
import StrongCyclic.Planning.Task
import StrongCyclic.Planning.Transition
import StrongCyclic.Planning.Variable
import StrongCyclic.Process.Basic
import StrongCyclic.Proofs.Answer.AsSets
import StrongCyclic.Proofs.Answer.CutOff
import StrongCyclic.Proofs.Answer.Printed
import StrongCyclic.Proofs.Answer.Terms
import StrongCyclic.Proofs.Answer.Words
import StrongCyclic.Proofs.Collection.Grouped
import StrongCyclic.Proofs.CommandLine.Verify
import StrongCyclic.Proofs.Controller.Built
import StrongCyclic.Proofs.Controller.OfAnswer
import StrongCyclic.Proofs.Controller.ReadBack
import StrongCyclic.Proofs.Controller.RoundTrip
import StrongCyclic.Proofs.Controller.Sections
import StrongCyclic.Proofs.Disk.FileTree
import StrongCyclic.Proofs.Disk.Frame
import StrongCyclic.Proofs.Disk.Path
import StrongCyclic.Proofs.Encoding.AddDelete
import StrongCyclic.Proofs.Encoding.Applicability
import StrongCyclic.Proofs.Encoding.Determined
import StrongCyclic.Proofs.Encoding.EffectMeaning
import StrongCyclic.Proofs.Encoding.Facts
import StrongCyclic.Proofs.Encoding.LineText
import StrongCyclic.Proofs.Encoding.Numbering
import StrongCyclic.Proofs.Encoding.OperatorLines
import StrongCyclic.Proofs.Encoding.Parts
import StrongCyclic.Proofs.Encoding.ReadBack
import StrongCyclic.Proofs.Fallible
import StrongCyclic.Proofs.Guidance.BackbonePins
import StrongCyclic.Proofs.Guidance.UndoConstraints
import StrongCyclic.Proofs.Planning.Grouping
import StrongCyclic.Proofs.Planning.InDomains
import StrongCyclic.Proofs.Planning.Information
import StrongCyclic.Proofs.Planning.LastListed
import StrongCyclic.Proofs.Planning.OutcomeNames
import StrongCyclic.Proofs.Planning.Progression
import StrongCyclic.Proofs.Planning.Regression
import StrongCyclic.Proofs.Planning.Runs
import StrongCyclic.Proofs.Planning.WellFormed
import StrongCyclic.Proofs.Run.Check
import StrongCyclic.Proofs.Run.Directory
import StrongCyclic.Proofs.Run.FileNames
import StrongCyclic.Proofs.Run.Listing
import StrongCyclic.Proofs.Run.Record
import StrongCyclic.Proofs.Run.Recording
import StrongCyclic.Proofs.Run.Reports
import StrongCyclic.Proofs.Run.Returns
import StrongCyclic.Proofs.Run.Spellings
import StrongCyclic.Proofs.Sas.Checked
import StrongCyclic.Proofs.Sas.Format
import StrongCyclic.Proofs.Sas.Grammar
import StrongCyclic.Proofs.Sas.GroupKeys
import StrongCyclic.Proofs.Sas.ListedFacts
import StrongCyclic.Proofs.Sas.Readers
import StrongCyclic.Proofs.Sas.SafeTask
import StrongCyclic.Proofs.Search.Attempt
import StrongCyclic.Proofs.Search.Outputs
import StrongCyclic.Proofs.Search.Reaches
import StrongCyclic.Proofs.Search.SizeSearch
import StrongCyclic.Proofs.Search.SizesInOrder
import StrongCyclic.Proofs.Search.WordSizes
import StrongCyclic.Proofs.SolutionSpace.Distance
import StrongCyclic.Proofs.SolutionSpace.History
import StrongCyclic.Proofs.SolutionSpace.LookUps
import StrongCyclic.Proofs.SolutionSpace.Path
import StrongCyclic.Proofs.SolutionSpace.Representation
import StrongCyclic.Proofs.Synthesis.Artefacts
import StrongCyclic.Proofs.Synthesis.CallDiscipline
import StrongCyclic.Proofs.Synthesis.Calls
import StrongCyclic.Proofs.Synthesis.Checked
import StrongCyclic.Proofs.Synthesis.Furnished
import StrongCyclic.Proofs.Synthesis.Furnishing
import StrongCyclic.Proofs.Synthesis.Gathering
import StrongCyclic.Proofs.Synthesis.Inputs
import StrongCyclic.Proofs.Synthesis.NegativeOutcomes
import StrongCyclic.Proofs.Synthesis.NumberedFiles
import StrongCyclic.Proofs.Synthesis.PinnedSizes
import StrongCyclic.Proofs.Synthesis.Preparation
import StrongCyclic.Proofs.Synthesis.Searches
import StrongCyclic.Proofs.Synthesis.SelfDescription
import StrongCyclic.Proofs.Synthesis.Silent
import StrongCyclic.Proofs.Synthesis.Steps
import StrongCyclic.Proofs.Synthesis.TimeOuts
import StrongCyclic.Proofs.Synthesis.Workspace
import StrongCyclic.Proofs.Text.Letter
import StrongCyclic.Proofs.Text.Numeral
import StrongCyclic.Proofs.Text.Plain
import StrongCyclic.Proofs.Text.Search
import StrongCyclic.Proofs.Text.Spelling
import StrongCyclic.Proofs.Verification.Declarations
import StrongCyclic.Proofs.Verification.Exactness
import StrongCyclic.Proofs.Verification.Exploration
import StrongCyclic.Proofs.Verification.FullStates
import StrongCyclic.Proofs.Verification.LookUps
import StrongCyclic.Proofs.Verification.OutcomeTags
import StrongCyclic.Proofs.Verification.PairBound
import StrongCyclic.Proofs.Verification.PlanningGoal
import StrongCyclic.Proofs.Verification.Resolution
import StrongCyclic.Proofs.Verification.Simulation
import StrongCyclic.Proofs.Verification.StrongCyclicity
import StrongCyclic.Proofs.Verification.Termination
import StrongCyclic.Report.Color
import StrongCyclic.Report.Listing
import StrongCyclic.Report.Solve
import StrongCyclic.Run.Directory
import StrongCyclic.Run.Failure
import StrongCyclic.Run.FileNames
import StrongCyclic.Run.World
import StrongCyclic.Sas.Block
import StrongCyclic.Sas.Fault
import StrongCyclic.Sas.Task
import StrongCyclic.Search.SizeSearch
import StrongCyclic.Settings.Basic
import StrongCyclic.Settings.Check
import StrongCyclic.Settings.Document
import StrongCyclic.Settings.File
import StrongCyclic.Shell.Arithmetic
import StrongCyclic.Shell.Builtin
import StrongCyclic.Shell.Condition
import StrongCyclic.Shell.Evaluation
import StrongCyclic.Shell.Field
import StrongCyclic.Shell.Pattern
import StrongCyclic.Shell.Printing
import StrongCyclic.Shell.Program
import StrongCyclic.Shell.Reader
import StrongCyclic.Shell.Session
import StrongCyclic.Shell.Syntax
import StrongCyclic.Shell.Utility
import StrongCyclic.Shell.WordReader
import StrongCyclic.Solver.Call
import StrongCyclic.Solver.Process
import StrongCyclic.Synthesis.Solve
import StrongCyclic.Synthesis.Workspace
import StrongCyclic.Text.Blank
import StrongCyclic.Text.Json
import StrongCyclic.Text.Letter
import StrongCyclic.Text.Numeral
import StrongCyclic.Text.Search
import StrongCyclic.Text.Utf8
import StrongCyclic.Verification.SolutionSpace
import StrongCyclic.Verification.Verify
import StrongCyclic.Yaml.Cursor
import StrongCyclic.Yaml.Node
import StrongCyclic.Yaml.Reader
import StrongCyclic.Yaml.Scalar
import StrongCyclic.Yaml.ScalarReader
import StrongCyclic.Yaml.Writer
