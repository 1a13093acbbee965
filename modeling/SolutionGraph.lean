import SolutionGraph.CommandLine.Arguments
import SolutionGraph.CommandLine.Invocation
import SolutionGraph.CommandLine.Listing
import SolutionGraph.CommandLine.Run
import SolutionGraph.CommandLine.Usage
import SolutionGraph.Condition.Basic
import SolutionGraph.Condition.Check
import SolutionGraph.Condition.Evaluate
import SolutionGraph.Condition.Parser
import SolutionGraph.Condition.Printer
import SolutionGraph.Condition.Token
import SolutionGraph.Condition.Version
import SolutionGraph.Configuration
import SolutionGraph.Dgml.Document
import SolutionGraph.Dgml.Include
import SolutionGraph.Dgml.Solution
import SolutionGraph.FileTree.Basic
import SolutionGraph.FileTree.Find
import SolutionGraph.FileTree.Walk
import SolutionGraph.FileTree.Write
import SolutionGraph.Glob.Expand
import SolutionGraph.Glob.Pattern
import SolutionGraph.Include.Cache
import SolutionGraph.Include.Conditional
import SolutionGraph.Include.Directive
import SolutionGraph.Include.Graph
import SolutionGraph.Include.Growth
import SolutionGraph.Include.LogicalLine
import SolutionGraph.Include.Search
import SolutionGraph.Include.SourceGraph
import SolutionGraph.Json.Report
import SolutionGraph.Json.Value
import SolutionGraph.Main
import SolutionGraph.Markup.Basic
import SolutionGraph.Markup.Lexeme
import SolutionGraph.Markup.Reader
import SolutionGraph.OrderedMap
import SolutionGraph.Path.Basic
import SolutionGraph.Path.Normal
import SolutionGraph.Path.Openable
import SolutionGraph.Project.Basic
import SolutionGraph.Project.Evaluate
import SolutionGraph.Project.Items
import SolutionGraph.Project.Reader
import SolutionGraph.ProjectId
import SolutionGraph.Proofs.Include.Arena
import SolutionGraph.Proofs.Include.BackReference
import SolutionGraph.Proofs.Include.Coverage
import SolutionGraph.Proofs.Include.Depiction
import SolutionGraph.Proofs.Include.Discovery
import SolutionGraph.Proofs.Include.Exact
import SolutionGraph.Proofs.Include.Growth
import SolutionGraph.Proofs.Include.Outcome
import SolutionGraph.Proofs.Include.Parallel
import SolutionGraph.Proofs.Include.Schedule
import SolutionGraph.Proofs.Include.WellFormed
import SolutionGraph.Proofs.Path.Normal
import SolutionGraph.Property.Bag
import SolutionGraph.Property.Value
import SolutionGraph.Reach
import SolutionGraph.SearchRules
import SolutionGraph.Solution.Basic
import SolutionGraph.Solution.Builder
import SolutionGraph.Solution.Dialect
import SolutionGraph.Solution.Link
import SolutionGraph.Solution.Listing
import SolutionGraph.Solution.Reader
import SolutionGraph.Solution.Writer
import SolutionGraph.Target.Basic
import SolutionGraph.Target.Cycle
import SolutionGraph.Target.Loader
import SolutionGraph.Target.Order
import SolutionGraph.Target.Override
import SolutionGraph.Target.Tree
import SolutionGraph.Text.Basic
import SolutionGraph.Text.DecimalDigit
import SolutionGraph.Text.Finite
import SolutionGraph.Text.Lowercase
import SolutionGraph.Text.Position
import SolutionGraph.Text.Utf8
import SolutionGraph.Warning
import SolutionGraph.Proofs.FileTree.Find
import SolutionGraph.Proofs.Include.Apart
import SolutionGraph.Proofs.Include.Unresolved
import SolutionGraph.Proofs.Include.Cache
import SolutionGraph.Proofs.OrderedMap
import SolutionGraph.Proofs.Project.References
import SolutionGraph.Proofs.Solution.References
import SolutionGraph.Proofs.Solution.Findings
import SolutionGraph.Proofs.Solution.Strictness
import SolutionGraph.Proofs.Target.Order
import SolutionGraph.Proofs.Solution.Restriction
import SolutionGraph.Proofs.Property.Bag
import SolutionGraph.Proofs.Target.Cycle
import SolutionGraph.Proofs.Target.Loading
import SolutionGraph.Proofs.FileTree.Outline
import SolutionGraph.Proofs.Markup.Redaction
import SolutionGraph.Proofs.Target.Lockstep
import SolutionGraph.Proofs.Target.Override
import SolutionGraph.Proofs.Target.Import
import SolutionGraph.Proofs.Target.Assembly
import SolutionGraph.Proofs.Target.Agreement
import SolutionGraph.Proofs.Target.Inclusion
import SolutionGraph.Proofs.Text.Lines
import SolutionGraph.Proofs.Text.Position
import SolutionGraph.Proofs.ProjectId
import SolutionGraph.Proofs.Solution.Block
import SolutionGraph.Proofs.Solution.RoundTrip
import SolutionGraph.Proofs.Solution.Section
import SolutionGraph.Proofs.Path.Join
import SolutionGraph.Proofs.Project.Settings
import SolutionGraph.Proofs.Solution.Entries
import SolutionGraph.Proofs.Solution.SearchPath
import SolutionGraph.Proofs.Target.Evaluation
import SolutionGraph.Proofs.Target.Strictness
import SolutionGraph.Proofs.Dgml.Document
import SolutionGraph.Proofs.Dgml.ReadBack
import SolutionGraph.Proofs.Project.Rules
import SolutionGraph.Proofs.Condition.RoundTrip
import SolutionGraph.Proofs.Include.Directive
import SolutionGraph.Proofs.Include.Conditional
import SolutionGraph.Proofs.Include.LogicalLine
import SolutionGraph.Proofs.Include.BlockComment
import SolutionGraph.Proofs.Include.Blanks
import SolutionGraph.Proofs.Include.Place
import SolutionGraph.Proofs.Include.Splice
import SolutionGraph.Proofs.Include.Continuation
import SolutionGraph.Proofs.Path.Canonical
import SolutionGraph.Proofs.FileTree.Location
import SolutionGraph.Proofs.FileTree.Lookup
import SolutionGraph.Proofs.Include.Survey
import SolutionGraph.Proofs.Include.Exclusion
import SolutionGraph.Proofs.Property.List
import SolutionGraph.Proofs.Path.Below
import SolutionGraph.Proofs.Glob.Search
import SolutionGraph.Proofs.Glob.Literal
import SolutionGraph.Proofs.Project.Directories
import SolutionGraph.Proofs.Project.Substitution
import SolutionGraph.Proofs.Project.Accumulation
import SolutionGraph.Proofs.Project.Recorded
import SolutionGraph.Proofs.Project.Relocation
import SolutionGraph.Proofs.Solution.Traversal
import SolutionGraph.Proofs.Condition.Version
import SolutionGraph.Proofs.Target.Missing
import SolutionGraph.Proofs.Include.Outline
import SolutionGraph.Proofs.ProjectId.Spelling
import SolutionGraph.Proofs.Target.OverrideList
import SolutionGraph.Proofs.Condition.Word
import SolutionGraph.Proofs.Include.LineNumber
