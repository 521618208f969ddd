import TileScript.Text.Blank
import TileScript.Text.Line
import TileScript.Text.Numeral
import TileScript.Text.Search
import TileScript.Tile
import TileScript.Id
import TileScript.Value
import TileScript.Error
import TileScript.Chain.Nesting
import TileScript.Chain.Segment
import TileScript.Chain.Arithmetic
import TileScript.Chain.Assignment
import TileScript.Expr
import TileScript.Comparison
import TileScript.Condition
import TileScript.Statement
import TileScript.Check
import TileScript.Json.Basic
import TileScript.Json.Writer
import TileScript.Json.Reader
import TileScript.Json.Record
import TileScript.Decimal.Nearest
import TileScript.Decimal.Shortest
import TileScript.Event
import TileScript.Catalog.Basic
import TileScript.Catalog.Document
import TileScript.Item
import TileScript.Entity.Basic
import TileScript.Entity.Document
import TileScript.World.Basic
import TileScript.World.Operations
import TileScript.System.Sentinel
import TileScript.System.Function
import TileScript.System.Builtin
import TileScript.Script.Source
import TileScript.Script.Directory
import TileScript.Script.FileTree
import TileScript.Function.Descriptor
import TileScript.Function.Table
import TileScript.Function.Binding
import TileScript.Fiber.Basic
import TileScript.Fiber.Evaluate
import TileScript.Fiber.Activate
import TileScript.Scheduler
import TileScript.Simulation
import TileScript.Text.Ranges
import TileScript.Text.Mark
import TileScript.Text.Wide
import TileScript.Text.Emoji
import TileScript.Text.Ligature
import TileScript.Text.Following
import TileScript.Text.Width
import TileScript.Text.Table
import TileScript.Scenario
import TileScript.CommandLine.Arguments
import TileScript.CommandLine.Report
import TileScript.CommandLine.Run
import TileScript.CommandLine.Inspect
import TileScript.CommandLine.Help
import TileScript.CommandLine.Execute
import TileScript.Main
import TileScript.Proofs.Activation
import TileScript.Proofs.Protocol
import TileScript.Proofs.CallReturn
import TileScript.Proofs.Pieces
import TileScript.Proofs.Located
import TileScript.Proofs.Lockstep
import TileScript.Proofs.Site
import TileScript.Proofs.Lines
import TileScript.Proofs.Occurrence
import TileScript.Proofs.Literal
import TileScript.Proofs.Resume
import TileScript.Proofs.Hole
import TileScript.Proofs.Inert
import TileScript.Proofs.Kind
import TileScript.Proofs.Exchange
import TileScript.Proofs.Requests
import TileScript.Proofs.Dispatch
import TileScript.Proofs.Words
import TileScript.Proofs.Data
import TileScript.Proofs.Nested
import TileScript.Proofs.Returned
import TileScript.Proofs.TileIndex
import TileScript.Proofs.Groups
import TileScript.Proofs.Blocks
import TileScript.Proofs.Order
import TileScript.Proofs.Trace
import TileScript.Proofs.Effects
import TileScript.Proofs.Steps
import TileScript.Proofs.CallChains
import TileScript.Proofs.Interrupts
import TileScript.Proofs.Recursion
import TileScript.Proofs.LineLoop
import TileScript.Proofs.Termination
import TileScript.Proofs.Budget
import TileScript.Proofs.Reentry
import TileScript.Proofs.Depths
import TileScript.Proofs.CheckedBlocks
import TileScript.Proofs.Deeds
import TileScript.Proofs.Gate
import TileScript.Proofs.Exclusion
import TileScript.Proofs.Settled
import TileScript.Proofs.Cascade
import TileScript.Proofs.CheckedConditions
import TileScript.Proofs.Coupling
import TileScript.Proofs.Footprint
import TileScript.Proofs.Independence
import TileScript.Proofs.Replay
import TileScript.Proofs.ReturnChannel
import TileScript.Proofs.FunctionTable
import TileScript.Proofs.TypeFunctions
import TileScript.Proofs.Numbering
import TileScript.Proofs.SolidGround
import TileScript.Proofs.FlatConditions
import TileScript.Proofs.Grammar
import TileScript.Proofs.JsonText
import TileScript.Proofs.CatalogDocuments
import TileScript.Proofs.DefinedFunctions
import TileScript.Proofs.ResumePoints
import TileScript.Proofs.Numeral
import TileScript.Proofs.Formula
import TileScript.Proofs.InPlace
import TileScript.Proofs.Joining
import TileScript.Proofs.Sleep
import TileScript.Proofs.Waking
