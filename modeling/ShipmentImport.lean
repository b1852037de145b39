import ShipmentImport.Common.Dates
import ShipmentImport.Common.Pagination
import ShipmentImport.Database
import ShipmentImport.Imports.ChunkResults
import ShipmentImport.Imports.OnePass
import ShipmentImport.Imports.RawData
import ShipmentImport.Imports.RowIssues
import ShipmentImport.Imports.RowOutcomes
import ShipmentImport.Imports.RowValidation
import ShipmentImport.Imports.StoredShipments
import ShipmentImport.Imports.Worksheets
import ShipmentImport.Imports.XlsxParser
import ShipmentImport.Lib.Alone
import ShipmentImport.Lib.Blocking
import ShipmentImport.Lib.Executions
import ShipmentImport.Lib.Like
import ShipmentImport.Lib.Numeric
import ShipmentImport.Lib.Pages
import ShipmentImport.Lib.Program
import ShipmentImport.Lib.System
import ShipmentImport.Lib.Table
import ShipmentImport.Lib.WaitsFor
import ShipmentImport.Lib.Walks
import ShipmentImport.Lifecycle
import ShipmentImport.Models
import ShipmentImport.OutboxLifecycle
import ShipmentImport.Properties.Alone
import ShipmentImport.Properties.Attempts
import ShipmentImport.Properties.Backoff
import ShipmentImport.Properties.CreateCalls
import ShipmentImport.Properties.Deadlock
import ShipmentImport.Properties.Dispatch
import ShipmentImport.Properties.DuplicateRace
import ShipmentImport.Properties.Endings
import ShipmentImport.Properties.Heartbeats
import ShipmentImport.Properties.Imports
import ShipmentImport.Properties.Outages
import ShipmentImport.Properties.Outbox
import ShipmentImport.Properties.Passes
import ShipmentImport.Properties.Phases
import ShipmentImport.Properties.StoredFiles
import ShipmentImport.Properties.Stranded
import ShipmentImport.Properties.Undisturbed
import ShipmentImport.Properties.Uploads
import ShipmentImport.Properties.Waits
import ShipmentImport.Queries.Endpoints
import ShipmentImport.Queries.Pages
import ShipmentImport.Queries.Ranges
import ShipmentImport.Queries.Selection
import ShipmentImport.Queries.Walks
import ShipmentImport.Refinement.Creator
import ShipmentImport.Refinement.Disciplines
import ShipmentImport.Refinement.Effects
import ShipmentImport.Refinement.Footprints
import ShipmentImport.Refinement.FreeRuns
import ShipmentImport.Refinement.OutboxUpdates
import ShipmentImport.Refinement.Ownership
import ShipmentImport.Refinement.Protocol
import ShipmentImport.Refinement.Publisher
import ShipmentImport.Refinement.SerialCalls
import ShipmentImport.Refinement.ServedCalls
import ShipmentImport.Refinement.Sessions
import ShipmentImport.Refinement.Soundness
import ShipmentImport.Refinement.Transactions
import ShipmentImport.Refinement.Watchdog
import ShipmentImport.Refinement.Worker
import ShipmentImport.Refinement.WorkerQueries
import ShipmentImport.Refinement.WorkerRun
import ShipmentImport.Runs
import ShipmentImport.Services.CreateImport
import ShipmentImport.Services.ProcessImport
import ShipmentImport.Services.PublishOutbox
import ShipmentImport.Services.RecoverStaleImports
import ShipmentImport.Services.UploadImport
import ShipmentImport.Settings
import ShipmentImport.System
import ShipmentImport.Values
import ShipmentImport.World
