import TurtleBoard.Number.Exact
import TurtleBoard.Number.Decimal
import TurtleBoard.Number.Scalar
import TurtleBoard.Text
import TurtleBoard.Duration
import TurtleBoard.Point
import TurtleBoard.Color
import TurtleBoard.Cell
import TurtleBoard.Script.Command
import TurtleBoard.Script.Line
import TurtleBoard.Script.Sequence
import TurtleBoard.Script
import TurtleBoard.Walk
import TurtleBoard.Motion
import TurtleBoard.Supply
import TurtleBoard.Stepper
import TurtleBoard.Key
import TurtleBoard.Config
import TurtleBoard.Utf8
import TurtleBoard.Json.Value
import TurtleBoard.Json.Float
import TurtleBoard.Json.Reader
import TurtleBoard.Json.Writer
import TurtleBoard.Config.Reader
import TurtleBoard.Wire
import TurtleBoard.Store
import TurtleBoard.Url
import TurtleBoard.Service
import TurtleBoard.Client
import TurtleBoard.Moves
import TurtleBoard.OrderedMap
import TurtleBoard.Raster
import TurtleBoard.Canvas
import TurtleBoard.Ruling
import TurtleBoard.Spawn
import TurtleBoard.Board
import TurtleBoard.Screen
import TurtleBoard.Menu
import TurtleBoard.Key.Codes
import TurtleBoard.Player
import TurtleBoard.Rehearsal
import TurtleBoard.Arguments
import TurtleBoard.Demo
import TurtleBoard.Files
import TurtleBoard.Files.Directory
import TurtleBoard.Program
import TurtleBoard.Ansi
import TurtleBoard.Main
import TurtleBoard.Proofs.Taking
import TurtleBoard.Proofs.Playback
import TurtleBoard.Proofs.Grid
import TurtleBoard.Proofs.Frames
import TurtleBoard.Proofs.OrderedMap
import TurtleBoard.Proofs.Board
import TurtleBoard.Proofs.Independence
import TurtleBoard.Proofs.RoundTrip
import TurtleBoard.Proofs.Store
import TurtleBoard.Proofs.Addresses
import TurtleBoard.Proofs.Exchange
import TurtleBoard.Proofs.Delivery
import TurtleBoard.Proofs.Ledger
import TurtleBoard.Proofs.Requests
import TurtleBoard.Proofs.Traffic
import TurtleBoard.Proofs.Resize
import TurtleBoard.Proofs.Bubbles
import TurtleBoard.Proofs.Floats
import TurtleBoard.Proofs.Pace
import TurtleBoard.Proofs.Cells
import TurtleBoard.Proofs.Grammar
import TurtleBoard.Proofs.Decimals
import TurtleBoard.Proofs.NormalForm
import TurtleBoard.Proofs.Lossless
import TurtleBoard.Proofs.Patience
import TurtleBoard.Proofs.Connection
import TurtleBoard.Proofs.Footage
import TurtleBoard.Proofs.Trails
import TurtleBoard.Proofs.Gait
import TurtleBoard.Proofs.Timetable
import TurtleBoard.Proofs.ByteOrder
import TurtleBoard.Proofs.Pulls
import TurtleBoard.Proofs.Fetching
import TurtleBoard.Proofs.Waking
import TurtleBoard.Proofs.Strokes
import TurtleBoard.Proofs.Layers
import TurtleBoard.Proofs.Clipping
import TurtleBoard.Proofs.Sampling
import TurtleBoard.Proofs.Sentinel
import TurtleBoard.Proofs.Overflow
import TurtleBoard.Proofs.Ruling
import TurtleBoard.Proofs.Labels
import TurtleBoard.Proofs.Colors
import TurtleBoard.Proofs.Tokens
import TurtleBoard.Proofs.JsonSpelling
import TurtleBoard.Proofs.JsonGrammar
import TurtleBoard.Proofs.JsonFields
import TurtleBoard.Proofs.Settings
import TurtleBoard.Proofs.Phases
import TurtleBoard.Proofs.Fields
import TurtleBoard.Proofs.KeyNames
import TurtleBoard.Proofs.SheetWords
import TurtleBoard.Proofs.Naming
import TurtleBoard.Proofs.Swing
import TurtleBoard.Proofs.Handout
import TurtleBoard.Proofs.Placement
import TurtleBoard.Proofs.Flight
import TurtleBoard.Proofs.Glide
