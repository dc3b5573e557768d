import ArcSelection.Arithmetic
import ArcSelection.Attempt
import ArcSelection.CommandLine.Event
import ArcSelection.CommandLine.Files
import ArcSelection.CommandLine.Report
import ArcSelection.CommandLine.Request
import ArcSelection.CommandLine.Run
import ArcSelection.CommandLine.Usage
import ArcSelection.CommandLine.Word
import ArcSelection.Decimal.Binary64
import ArcSelection.Decimal.Extended
import ArcSelection.Decimal.Reading
import ArcSelection.Decimal.Rounding
import ArcSelection.Decimal.Shortest
import ArcSelection.Decimal.Style
import ArcSelection.Exchange.Export
import ArcSelection.Exchange.Import
import ArcSelection.Exchange.NamedGraph
import ArcSelection.Exchange.NodeNames
import ArcSelection.Fault
import ArcSelection.Graph.Complete
import ArcSelection.Graph.Draw
import ArcSelection.Graph.Query
import ArcSelection.Graph.Store
import ArcSelection.Graph.Stored
import ArcSelection.Graph.View.Matching
import ArcSelection.Graph.View.Overlay
import ArcSelection.Graph.View.Selection
import ArcSelection.Graph.View.Undirected
import ArcSelection.GraphML.Load
import ArcSelection.GraphML.Reading
import ArcSelection.GraphML.Save
import ArcSelection.GraphML.Vocabulary
import ArcSelection.GraphML.Writing
import ArcSelection.Identifier
import ArcSelection.Keyword
import ArcSelection.Log.Layout
import ArcSelection.Log.Record
import ArcSelection.Log.Setup
import ArcSelection.Log.Work
import ArcSelection.Main
import ArcSelection.OrderedMap
import ArcSelection.ProblemFile.Basic
import ArcSelection.ProblemFile.Reading
import ArcSelection.Program.Expression
import ArcSelection.Program.Problem
import ArcSelection.Program.Workspace
import ArcSelection.Proofs.Attempt
import ArcSelection.Proofs.CommandLine.Matching
import ArcSelection.Proofs.CommandLine.MatchingProgram
import ArcSelection.Proofs.CommandLine.NumberText
import ArcSelection.Proofs.Decimal.CostText
import ArcSelection.Proofs.Decimal.Integer
import ArcSelection.Proofs.Decimal.IntegerValue
import ArcSelection.Proofs.Decimal.Nearest
import ArcSelection.Proofs.Decimal.Overflow
import ArcSelection.Proofs.ExactNumber
import ArcSelection.Proofs.Exchange.EdgeOrder
import ArcSelection.Proofs.Exchange.Edited
import ArcSelection.Proofs.Exchange.Export
import ArcSelection.Proofs.Exchange.ExportCount
import ArcSelection.Proofs.Exchange.Imported
import ArcSelection.Proofs.Exchange.Made
import ArcSelection.Proofs.Exchange.NormalForm
import ArcSelection.Proofs.Exchange.RoundTrip
import ArcSelection.Proofs.Fallible
import ArcSelection.Proofs.Graph.Allocation
import ArcSelection.Proofs.Graph.AsEdges
import ArcSelection.Proofs.Graph.Attempt
import ArcSelection.Proofs.Graph.Complete
import ArcSelection.Proofs.Graph.CompleteIds
import ArcSelection.Proofs.Graph.Count
import ArcSelection.Proofs.Graph.Growth
import ArcSelection.Proofs.Graph.History
import ArcSelection.Proofs.Graph.Lawful
import ArcSelection.Proofs.Graph.Matching
import ArcSelection.Proofs.Graph.MatchingReturn
import ArcSelection.Proofs.Graph.MatchingRun
import ArcSelection.Proofs.Graph.Overlay
import ArcSelection.Proofs.Graph.OverlayChange
import ArcSelection.Proofs.Graph.OverlayClash
import ArcSelection.Proofs.Graph.OverlayIndex
import ArcSelection.Proofs.Graph.OverlayIsolation
import ArcSelection.Proofs.Graph.OverlayRemoval
import ArcSelection.Proofs.Graph.Removal
import ArcSelection.Proofs.Graph.Reuse
import ArcSelection.Proofs.Graph.Stack
import ArcSelection.Proofs.Graph.Store
import ArcSelection.Proofs.Graph.StoreAttempt
import ArcSelection.Proofs.Graph.Stored
import ArcSelection.Proofs.Graph.StoredChange
import ArcSelection.Proofs.Graph.StrandedProperties
import ArcSelection.Proofs.Graph.View
import ArcSelection.Proofs.GraphML.Attributes
import ArcSelection.Proofs.GraphML.Loaded
import ArcSelection.Proofs.GraphML.Portable
import ArcSelection.Proofs.GraphML.RoundTrip
import ArcSelection.Proofs.GraphML.Saved
import ArcSelection.Proofs.Listing
import ArcSelection.Proofs.NumberedTable
import ArcSelection.Proofs.OrderedMap
import ArcSelection.Proofs.ProblemFile.Acceptance
import ArcSelection.Proofs.ProblemFile.Bounds
import ArcSelection.Proofs.ProblemFile.Described
import ArcSelection.Proofs.ProblemFile.Grammar
import ArcSelection.Proofs.Program.Evaluation
import ArcSelection.Proofs.Program.Formula
import ArcSelection.Proofs.Program.LinearForm
import ArcSelection.Proofs.Program.Operand
import ArcSelection.Proofs.Program.Optimum
import ArcSelection.Proofs.Selection.Compile
import ArcSelection.Proofs.Selection.CompiledRows
import ArcSelection.Proofs.Selection.Configuration
import ArcSelection.Proofs.Selection.Degree
import ArcSelection.Proofs.Selection.Exact
import ArcSelection.Proofs.Selection.Faithful
import ArcSelection.Proofs.Selection.History
import ArcSelection.Proofs.Selection.Matching
import ArcSelection.Proofs.Selection.MatchingHistory
import ArcSelection.Proofs.Selection.MatchingTask
import ArcSelection.Proofs.Selection.Objective
import ArcSelection.Proofs.Selection.Requested
import ArcSelection.Proofs.Selection.Run
import ArcSelection.Proofs.Selection.Subset
import ArcSelection.Proofs.ShortestPath.Cycle
import ArcSelection.Proofs.ShortestPath.Labels
import ArcSelection.Proofs.ShortestPath.Loop
import ArcSelection.Proofs.ShortestPath.Path
import ArcSelection.Proofs.ShortestPath.Rank
import ArcSelection.Proofs.ShortestPath.Search
import ArcSelection.Proofs.ShortestPath.Settle
import ArcSelection.Proofs.ShortestPath.Walk
import ArcSelection.Proofs.Solver.Classification
import ArcSelection.Proofs.Solver.Encoding
import ArcSelection.Proofs.Solver.Report
import ArcSelection.Proofs.Value.Equality
import ArcSelection.Proofs.Value.Properties
import ArcSelection.Proofs.Xml.Layout
import ArcSelection.Selection.Compile
import ArcSelection.Selection.Matching
import ArcSelection.Selection.Posed
import ArcSelection.Selection.Run
import ArcSelection.Selection.Task
import ArcSelection.ShortestPath
import ArcSelection.Solver.Branching
import ArcSelection.Solver.Encoding
import ArcSelection.Solver.Options
import ArcSelection.Solver.Outcome
import ArcSelection.Solver.Simplex
import ArcSelection.Text.Blank
import ArcSelection.Text.Digit
import ArcSelection.Text.Letter
import ArcSelection.Text.Printable
import ArcSelection.Text.Quoted
import ArcSelection.Value.Basic
import ArcSelection.Value.Date
import ArcSelection.Value.Display
import ArcSelection.Value.Json
import ArcSelection.Value.Properties
import ArcSelection.Xml.Document
import ArcSelection.Xml.Element
import ArcSelection.Xml.Layout
import ArcSelection.Xml.Prolog
import ArcSelection.Xml.Token
import ArcSelection.Yaml.Cursor
import ArcSelection.Yaml.Document
import ArcSelection.Yaml.Node
import ArcSelection.Yaml.Plain
import ArcSelection.Yaml.Scalar
import ArcSelection.Yaml.Token
