import Telemetry.Bits
import Telemetry.Calendar
import Telemetry.Consumer
import Telemetry.Counters.Handle
import Telemetry.Counters.Monitor
import Telemetry.Counters.Record
import Telemetry.Counters.Registry
import Telemetry.Counters.Session
import Telemetry.Diagnostics
import Telemetry.Document
import Telemetry.Document.Parse
import Telemetry.Document.Print
import Telemetry.Fault
import Telemetry.FileTree
import Telemetry.Frame
import Telemetry.Guard
import Telemetry.Hex
import Telemetry.Host
import Telemetry.Log.Format
import Telemetry.Log.Journal
import Telemetry.Log.Level
import Telemetry.Log.Line
import Telemetry.Log.Outlet
import Telemetry.Log.Running
import Telemetry.Main
import Telemetry.Memory
import Telemetry.Memory.Table
import Telemetry.Proofs.Bits
import Telemetry.Proofs.Bits.Rounding
import Telemetry.Proofs.Calendar.Days
import Telemetry.Proofs.Calendar.Instants
import Telemetry.Proofs.Counters.Capacity
import Telemetry.Proofs.Counters.Change
import Telemetry.Proofs.Counters.Custody
import Telemetry.Proofs.Counters.Effect
import Telemetry.Proofs.Counters.Enclosure
import Telemetry.Proofs.Counters.Entrusted
import Telemetry.Proofs.Counters.Glimpse
import Telemetry.Proofs.Counters.Handles
import Telemetry.Proofs.Counters.Handover
import Telemetry.Proofs.Counters.Harmless
import Telemetry.Proofs.Counters.History
import Telemetry.Proofs.Counters.Isolation
import Telemetry.Proofs.Counters.Layout
import Telemetry.Proofs.Counters.Lettering
import Telemetry.Proofs.Counters.Narrow
import Telemetry.Proofs.Counters.Ownership
import Telemetry.Proofs.Counters.Publish
import Telemetry.Proofs.Counters.Refusal
import Telemetry.Proofs.Counters.Renewal
import Telemetry.Proofs.Counters.Rollback
import Telemetry.Proofs.Counters.Scan
import Telemetry.Proofs.Counters.Session
import Telemetry.Proofs.Counters.Survey
import Telemetry.Proofs.Document.Keys
import Telemetry.Proofs.Document.Merge
import Telemetry.Proofs.FileTree
import Telemetry.Proofs.Frame.Bounds
import Telemetry.Proofs.Frame.Codec
import Telemetry.Proofs.Guard
import Telemetry.Proofs.Hex
import Telemetry.Proofs.Log.Delivery
import Telemetry.Proofs.Log.Ledger
import Telemetry.Proofs.Log.Prompt
import Telemetry.Proofs.Log.Turns
import Telemetry.Proofs.Memory.Atomicity
import Telemetry.Proofs.Memory.Footprint
import Telemetry.Proofs.Memory.Locality
import Telemetry.Proofs.Memory.Passage
import Telemetry.Proofs.Memory.Refusal
import Telemetry.Proofs.Quantity.Grammar
import Telemetry.Proofs.Ring.Drain
import Telemetry.Proofs.Ring.Fifo
import Telemetry.Proofs.Ring.Window
import Telemetry.Proofs.Settings.Layers
import Telemetry.Proofs.Shared.Admission
import Telemetry.Proofs.Shared.Agreement
import Telemetry.Proofs.Shared.Configured
import Telemetry.Proofs.Shared.Eviction
import Telemetry.Proofs.Shared.Header
import Telemetry.Proofs.Shared.Lengths
import Telemetry.Proofs.Shared.Lifecycle
import Telemetry.Proofs.Shared.Placement
import Telemetry.Proofs.Shared.Segment
import Telemetry.Proofs.Shared.Succession
import Telemetry.Proofs.Shared.Tenure
import Telemetry.Proofs.View.Containment
import Telemetry.Proofs.View.Range
import Telemetry.Proofs.Viewer.Listing
import Telemetry.Proofs.Viewer.Options
import Telemetry.Quantity
import Telemetry.Reply
import Telemetry.Ring
import Telemetry.Settings
import Telemetry.Shared.Board
import Telemetry.Shared.Buffer
import Telemetry.Shared.Namespace
import Telemetry.Shared.World
import Telemetry.Text
import Telemetry.Utf8
import Telemetry.View
import Telemetry.View.Access
import Telemetry.View.Family
import Telemetry.Viewer
import Telemetry.Word
