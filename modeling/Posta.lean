import Posta.Interaction.Prog
import Posta.Interaction.Logic
import Posta.Interaction.Sequential
import Posta.Js.Text
import Posta.Js.Number
import Posta.Js.Json
import Posta.Js.JsonRoundTrip
import Posta.Js.JsonPrefix
import Posta.Js.Lines
import Posta.Js.Date
import Posta.Store.KeyedTable
import Posta.Store.SortedStore
import Posta.Store.Listing
import Posta.Store.InsertionMap
import Posta.Js.Value
import Posta.Js.Strings
import Posta.Core.Platform
import Posta.Core.EventKeys
import Posta.Core.Enrichment
import Posta.Core.EventLog
import Posta.Core.EventLogReading
import Posta.Core.EventRow
import Posta.Worker.ClassifyFlushError
import Posta.Contracts.Capture
import Posta.Contracts.Redact
import Posta.Contracts.Links
import Posta.Lists.Interleaved
import Posta.Worker.SplitRetry
import Posta.Worker.Bisection
import Posta.Worker.SplitRetryLogic
import Posta.Worker.Poison
import Posta.Worker.Infrastructure
import Posta.Worker.BatchIds
import Posta.Worker.Accumulator
import Posta.Worker.AccumulatorRuns
import Posta.Worker.Operations
import Posta.Worker.DlqService
import Posta.Worker.R2Retry
import Posta.Worker.Flush
import Posta.Worker.Consumer
import Posta.Worker.Unacknowledged
import Posta.Worker.TerminalCoverage
import Posta.Worker.World
import Posta.Worker.FlushLogic
import Posta.Worker.FlushSystem
import Posta.Worker.FlushRuns
import Posta.Worker.R2Superset
import Posta.Worker.Replay
import Posta.Worker.LogRows
import Posta.Worker.ReplayReport
import Posta.Worker.RebuildCompleteness
import Posta.Worker.RebuildFidelity
import Posta.Worker.ReplayRange
import Posta.Sql.Condition
import Posta.Core.Tenant
import Posta.Core.TenantIsolation
import Posta.Api.Capture
import Posta.Api.RedirectResponse
import Posta.Api.Redirect
import Posta.Api.RedirectProtocol
import Posta.Core.DailySalt
import Posta.Core.DailySaltRuns
import Posta.Api.SaltDay
import Posta.Api.ResolveLink
import Posta.Api.ResolveLinkSoundness
import Posta.Api.LinkInvalidation
import Posta.Api.ResolveTenant
import Posta.Api.TenantSystem
import Posta.Api.TenantStaleness
import Posta.Core.Partitions
import Posta.Worker.PartitionMaintenance
import Posta.Api.Enqueue
import Posta.Js.PercentDecoding
import Posta.Contracts.Reserved
import Posta.Contracts.Slugs
import Posta.Api.Host
import Posta.Core.EventLogRoundTrip
import Posta.Worker.RowProjection
import Posta.Worker.RecordRows
import Posta.Worker.ReplayAccounting
import Posta.Worker.ReplayTolerance
import Posta.Worker.FlushOutcome
import Posta.Worker.FlushCallBound
import Posta.Core.SqlMigrate
import Posta.Core.MigrationHistory
import Posta.Core.MigrateDown
import Posta.Core.SchemaTracking
import Posta.Worker.WorkerSystem
import Posta.Worker.Acknowledgement
import Posta.Worker.JobTrace
import Posta.Worker.Drain
import Posta.Core.EventPrefixes
import Posta.Api.EscapeHtml
import Posta.Worker.ReplayBatching
import Posta.Web.HumanoBar
import Posta.Contracts.RedactGraph
import Posta.Contracts.RedactGraphPaths
import Posta.Contracts.RedactJson
import Posta.Contracts.RedactMessage
import Posta.Core.GeoLookup
import Posta.Lists.Csv
import Posta.Core.VendorAsn
import Posta.Interaction.EventLoop
import Posta.Worker.DlqSends
import Posta.Lists.Lexicographic
import Posta.Worker.ObjectOrder
import Posta.Worker.WriteOrder
import Posta.Core.LogPages
import Posta.Worker.ReadOrder
import Posta.Api.AddressPrivacy
