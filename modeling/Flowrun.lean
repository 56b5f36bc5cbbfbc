import Flowrun.Catalog
import Flowrun.Command
import Flowrun.Config
import Flowrun.Decimal.Binary64
import Flowrun.Decimal.Shortest
import Flowrun.Dict
import Flowrun.Distinct
import Flowrun.Error
import Flowrun.Executor.Basic
import Flowrun.Executor.Registry
import Flowrun.Feed.Basic
import Flowrun.Feed.Follower
import Flowrun.Graph.Ancestry
import Flowrun.Graph.Basic
import Flowrun.Graph.Kind
import Flowrun.Graph.Model
import Flowrun.Graph.Order
import Flowrun.Graph.Selection
import Flowrun.Graph.Slots
import Flowrun.Handle
import Flowrun.Ids
import Flowrun.Instant
import Flowrun.Json.Number
import Flowrun.Json.Printer
import Flowrun.Json.Token
import Flowrun.Json.Tree
import Flowrun.Json.Value
import Flowrun.Live
import Flowrun.Main
import Flowrun.Pool
import Flowrun.Proofs.Catalog
import Flowrun.Proofs.Feed.Closing
import Flowrun.Proofs.Feed.Course
import Flowrun.Proofs.Feed.Following
import Flowrun.Proofs.Feed.Journal
import Flowrun.Proofs.Feed.Records
import Flowrun.Proofs.Feed.Refusals
import Flowrun.Proofs.Feed.Replay
import Flowrun.Proofs.Feed.Subscribers
import Flowrun.Proofs.Graph.Acyclic
import Flowrun.Proofs.Graph.Ancestry
import Flowrun.Proofs.Graph.Cutting
import Flowrun.Proofs.Graph.EdgeIds
import Flowrun.Proofs.Graph.Edits
import Flowrun.Proofs.Graph.Indexed
import Flowrun.Proofs.Graph.Maps
import Flowrun.Proofs.Graph.Memo
import Flowrun.Proofs.Graph.Order
import Flowrun.Proofs.Graph.Selection
import Flowrun.Proofs.Graph.Slots
import Flowrun.Proofs.Graph.Validation
import Flowrun.Proofs.Graph.Walk
import Flowrun.Proofs.Graph.WellFormed
import Flowrun.Proofs.Json.Depth
import Flowrun.Proofs.Json.Numeral
import Flowrun.Proofs.Json.Strings
import Flowrun.Proofs.Json.Tokens
import Flowrun.Proofs.Json.Trees
import Flowrun.Proofs.Json.Values
import Flowrun.Proofs.Live.Histories
import Flowrun.Proofs.Live.Steps
import Flowrun.Proofs.Live.Verdict
import Flowrun.Proofs.Pool
import Flowrun.Proofs.Pool.Paths
import Flowrun.Proofs.Run.Action
import Flowrun.Proofs.Run.Advance
import Flowrun.Proofs.Run.Answers
import Flowrun.Proofs.Run.Board
import Flowrun.Proofs.Run.Branches
import Flowrun.Proofs.Run.Cap
import Flowrun.Proofs.Run.Causality
import Flowrun.Proofs.Run.Closing
import Flowrun.Proofs.Run.Confluence
import Flowrun.Proofs.Run.Containers
import Flowrun.Proofs.Run.Ends
import Flowrun.Proofs.Run.Entries
import Flowrun.Proofs.Run.Frozen
import Flowrun.Proofs.Run.Inputs
import Flowrun.Proofs.Run.Launches
import Flowrun.Proofs.Run.Ledger
import Flowrun.Proofs.Run.Lifecycle
import Flowrun.Proofs.Run.Lookups
import Flowrun.Proofs.Run.Move
import Flowrun.Proofs.Run.Once
import Flowrun.Proofs.Run.Queue
import Flowrun.Proofs.Run.Resume
import Flowrun.Proofs.Run.Serial
import Flowrun.Proofs.Run.Skips
import Flowrun.Proofs.Run.Slot
import Flowrun.Proofs.Run.Sound
import Flowrun.Proofs.Run.Stage
import Flowrun.Proofs.Run.Steady
import Flowrun.Proofs.Run.UnderWay
import Flowrun.Proofs.Run.Verdict
import Flowrun.Proofs.Run.Workload
import Flowrun.Proofs.Run.Writes
import Flowrun.Proofs.Scope.Basic
import Flowrun.Proofs.Scope.Edges
import Flowrun.Proofs.Scope.Offers
import Flowrun.Proofs.Scope.Recall
import Flowrun.Proofs.Selector.Forms
import Flowrun.Proofs.Selector.Occurrences
import Flowrun.Proofs.Selector.References
import Flowrun.Proofs.Selector.Segments
import Flowrun.Proofs.Service.Answers
import Flowrun.Proofs.Service.Desk
import Flowrun.Proofs.Service.HandOver
import Flowrun.Proofs.Service.Lookups
import Flowrun.Proofs.Service.Loop
import Flowrun.Proofs.Service.Operations
import Flowrun.Proofs.Service.Order
import Flowrun.Proofs.Service.Progress
import Flowrun.Proofs.Service.Refusals
import Flowrun.Proofs.Service.Replies
import Flowrun.Proofs.Service.Resume
import Flowrun.Proofs.Service.Seeding
import Flowrun.Proofs.Service.StartInputs
import Flowrun.Proofs.Service.Stop
import Flowrun.Proofs.Service.Termination
import Flowrun.Proofs.Service.Writes
import Flowrun.Proofs.Source
import Flowrun.Proofs.Source.Depth
import Flowrun.Proofs.Store
import Flowrun.Proofs.Task.Documents
import Flowrun.Proofs.Task.Rereading
import Flowrun.Proofs.Text
import Flowrun.Proofs.Workflow.Documents
import Flowrun.Proofs.Workflow.Rereading
import Flowrun.Run.Advance
import Flowrun.Run.Basic
import Flowrun.Run.Finish
import Flowrun.Run.Report
import Flowrun.Run.Resume
import Flowrun.Run.Schedule
import Flowrun.Scope.Basic
import Flowrun.Scope.Diagnostic
import Flowrun.Scope.Reference
import Flowrun.Selector.Basic
import Flowrun.Selector.Occurrence
import Flowrun.Service.Basic
import Flowrun.Service.Control
import Flowrun.Service.Read
import Flowrun.Service.Start
import Flowrun.Simulation.Basic
import Flowrun.Simulation.Script
import Flowrun.Source
import Flowrun.Store
import Flowrun.Task.Record
import Flowrun.Task.Request
import Flowrun.Task.Snapshot
import Flowrun.Task.Status
import Flowrun.Text.Blank
import Flowrun.Text.Hidden
import Flowrun.Text.Pieces
import Flowrun.Text.Quoted
import Flowrun.Workflow.Basic
import Flowrun.Workflow.Document
import Flowrun.Workflow.Format
import Flowrun.Yaml.Anchor
import Flowrun.Yaml.Cursor
import Flowrun.Yaml.Document
import Flowrun.Yaml.Layout
import Flowrun.Yaml.Node.Basic
import Flowrun.Yaml.Node.Grammar
import Flowrun.Yaml.Scalar.Basic
import Flowrun.Yaml.Scalar.Block
import Flowrun.Yaml.Scalar.Plain
import Flowrun.Yaml.Scalar.Quoted
import Flowrun.Yaml.Schema
import Flowrun.Yaml.Tag
import Flowrun.Yaml.Token
