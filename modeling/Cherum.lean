import Cherum.ActionRuns
import Cherum.NamedPipe
import Cherum.OrderedChannel
import Cherum.PythonJson
import Cherum.FirstByKey
import Cherum.CommandTable
import Cherum.HttpMessages
import Cherum.CommandServer
import Cherum.LatestCommand
import Cherum.CommandPoller
import Cherum.FailsafeLoop
import Cherum.CommandDelivery
import Cherum.DeliveryInvariant
import Cherum.DeliveryGuarantees
import Cherum.CommandPipe
import Cherum.FixedDecimal
import Cherum.LineFraming
import Cherum.PythonFloat
import Cherum.AsyncWrites
import Cherum.TelemetryRoutes
import Cherum.AppLifecycle
import Cherum.TelemetryEvents
import Cherum.TelemetryWire
import Cherum.TelemetryPipe
import Cherum.StoreRuns
import Cherum.ConcurrentFlush
import Cherum.BlockedBuffer
import Cherum.RecordedSeries
import Cherum.LastTelemetry
import Cherum.QueryText
import Cherum.CommandProcessing
import Cherum.TelemetryPublisher
import Cherum.AcknowledgedTelemetry
import Cherum.BoxSuppression
import Cherum.CivilCalendar
import Cherum.ConnectionStatus
import Cherum.ConnectionTime
import Cherum.DisplayedTelemetry
import Cherum.SuppressedBoxes
import Cherum.ComponentRuns
import Cherum.CommandSystem
import Cherum.CommandExecution
import Cherum.ConcurrentRequests
import Cherum.SerialisedRequests
import Cherum.CommandProgress
import Cherum.ControlPage
import Cherum.ShownControls
import Cherum.ServedReports
import Cherum.ReportedTelemetry
import Cherum.PivotedRows
import Cherum.RecentPositions
import Cherum.AccessTokens
import Cherum.TelemetrySystem
import Cherum.DroneLink
import Cherum.BitonicSorting
import Cherum.ComputePasses
import Cherum.SortKernels
import Cherum.SortedScores
