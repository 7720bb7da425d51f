import TwinServices.Bridge.Backlog
import TwinServices.Bridge.Duration
import TwinServices.Bridge.Main
import TwinServices.Bridge.Publication
import TwinServices.Bridge.Trajectory
import TwinServices.Command.Accounting
import TwinServices.Command.Publisher
import TwinServices.Contracts.Evolution
import TwinServices.Contracts.Models
import TwinServices.Contracts.Pydantic
import TwinServices.Contracts.Topics
import TwinServices.Lib.AtLeastOnce
import TwinServices.Lib.Binary64
import TwinServices.Lib.ErrorBound
import TwinServices.Lib.Json
import TwinServices.Lib.JsonRoundTrip
import TwinServices.Lib.JsonStrict
import TwinServices.Lib.Network
import TwinServices.Lib.RateLimit
import TwinServices.Lib.RelativeError
import TwinServices.Lib.Rotation
import TwinServices.Lib.RoundingError
import TwinServices.Lib.TimeWindow
import TwinServices.Lib.TopicFilter
import TwinServices.Lib.Transition
import TwinServices.Python.Accuracy
import TwinServices.Python.AsyncQueue
import TwinServices.Python.Basic
import TwinServices.Python.Containers
import TwinServices.Python.Json
import TwinServices.State.Accuracy
import TwinServices.State.ArrivalOrder
import TwinServices.State.Build
import TwinServices.State.Clients
import TwinServices.State.ClosedForm
import TwinServices.State.Consumer
import TwinServices.State.Decimation
import TwinServices.State.Erasure
import TwinServices.State.History
import TwinServices.State.Hub
import TwinServices.State.Kinematics
import TwinServices.State.Orientation
import TwinServices.State.Pruning
import TwinServices.State.Reach
import TwinServices.State.Recovery
import TwinServices.State.Rest
import TwinServices.State.RmsAccuracy
import TwinServices.State.Service
import TwinServices.State.Snapshots
import TwinServices.State.StampRange
import TwinServices.State.Stream
import TwinServices.State.Window
import TwinServices.State.WindowRms
import TwinServices.System.Accounting
import TwinServices.System.Bystanders
import TwinServices.System.CommandPath
import TwinServices.System.Composition
import TwinServices.System.Evolution
import TwinServices.System.Fleet
import TwinServices.System.Isolation
import TwinServices.System.Marker
import TwinServices.System.Pipeline
import TwinServices.System.Provenance
import TwinServices.System.Recovery
import TwinServices.System.Redelivery
import TwinServices.System.Rest
import TwinServices.System.Rms
import TwinServices.System.Shown
import TwinServices.System.Store
import TwinServices.System.TelemetryPath
import TwinServices.System.Viewer
import TwinServices.Telemetry.Ingest
import TwinServices.Viz.Frame
import TwinServices.Viz.Reconnect
import TwinServices.Viz.Scene
import TwinServices.Viz.Sessions
import TwinServices.Viz.Stream
import TwinServices.System.Departures
