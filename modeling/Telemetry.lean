import Telemetry.Backoff
import Telemetry.Broker.Basic
import Telemetry.Broker.Pattern
import Telemetry.Bus.Basic
import Telemetry.Bus.Network
import Telemetry.Channel
import Telemetry.Cluster.Basic
import Telemetry.Cluster.Session
import Telemetry.Double.Basic
import Telemetry.Double.Decimal
import Telemetry.Duration
import Telemetry.Envelope
import Telemetry.Feed
import Telemetry.Interest
import Telemetry.Json.Document
import Telemetry.Json.Parser
import Telemetry.Json.Reader
import Telemetry.LogFilter
import Telemetry.Medium
import Telemetry.Node.Basic
import Telemetry.Node.Judge
import Telemetry.Node.Loops
import Telemetry.Node.Stop
import Telemetry.Node.Write
import Telemetry.Numeral
import Telemetry.Path.Basic
import Telemetry.Path.Text
import Telemetry.Proofs.Agree
import Telemetry.Proofs.Announcing
import Telemetry.Proofs.Attempts
import Telemetry.Proofs.Broadcast
import Telemetry.Proofs.BusTrace
import Telemetry.Proofs.ByteOrder
import Telemetry.Proofs.Calling
import Telemetry.Proofs.Cancelling
import Telemetry.Proofs.Canonical
import Telemetry.Proofs.Capping
import Telemetry.Proofs.Codec
import Telemetry.Proofs.Consuming
import Telemetry.Proofs.Convergence
import Telemetry.Proofs.Core
import Telemetry.Proofs.Counting
import Telemetry.Proofs.Covering
import Telemetry.Proofs.Cutting
import Telemetry.Proofs.Deeds
import Telemetry.Proofs.Delivery
import Telemetry.Proofs.Discovery
import Telemetry.Proofs.Echo
import Telemetry.Proofs.Effects
import Telemetry.Proofs.Expiring
import Telemetry.Proofs.FirstWrite
import Telemetry.Proofs.Glob
import Telemetry.Proofs.Grammar
import Telemetry.Proofs.History
import Telemetry.Proofs.Keeping
import Telemetry.Proofs.Layout
import Telemetry.Proofs.Listening
import Telemetry.Proofs.Literal
import Telemetry.Proofs.Magnitude
import Telemetry.Proofs.Marking
import Telemetry.Proofs.Mirror
import Telemetry.Proofs.Naming
import Telemetry.Proofs.Numeral
import Telemetry.Proofs.Owing
import Telemetry.Proofs.Places
import Telemetry.Proofs.Printing
import Telemetry.Proofs.Pruning
import Telemetry.Proofs.Receiving
import Telemetry.Proofs.Record
import Telemetry.Proofs.Remote
import Telemetry.Proofs.Repeating
import Telemetry.Proofs.Replay
import Telemetry.Proofs.Reporting
import Telemetry.Proofs.Reprinting
import Telemetry.Proofs.Requests
import Telemetry.Proofs.Residue
import Telemetry.Proofs.Restoring
import Telemetry.Proofs.Retrying
import Telemetry.Proofs.RoundTrip
import Telemetry.Proofs.Rounding
import Telemetry.Proofs.Seconds
import Telemetry.Proofs.Shelf
import Telemetry.Proofs.Snapshot
import Telemetry.Proofs.Spelling
import Telemetry.Proofs.Steady
import Telemetry.Proofs.Stopping
import Telemetry.Proofs.Subject
import Telemetry.Proofs.Table
import Telemetry.Proofs.Tasks
import Telemetry.Proofs.Traffic
import Telemetry.Proofs.View
import Telemetry.Proofs.Wiring
import Telemetry.Proofs.Writing
import Telemetry.Report
import Telemetry.Roster
import Telemetry.Settings
import Telemetry.Store.Basic
import Telemetry.Store.Watched
import Telemetry.Store.Watcher
import Telemetry.Table
import Telemetry.Text.Blank
import Telemetry.Text.Hidden
import Telemetry.Text.Quoted
import Telemetry.Wire.Reader
import Telemetry.Wire.Writer
