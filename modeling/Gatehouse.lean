import Gatehouse.Breaker.Basic
import Gatehouse.Breaker.Calls
import Gatehouse.Breaker.Feed
import Gatehouse.Breaker.Machine
import Gatehouse.Breaker.State
import Gatehouse.Bulkhead.Basic
import Gatehouse.Bulkhead.Contention
import Gatehouse.Clock
import Gatehouse.Config.Decode
import Gatehouse.Config.Encode
import Gatehouse.Config.Load
import Gatehouse.Config.Schema
import Gatehouse.Config.SocketAddress
import Gatehouse.Config.Validate
import Gatehouse.Document.Basic
import Gatehouse.Document.Json.Printer
import Gatehouse.Document.Json.Reader
import Gatehouse.Failure.Basic
import Gatehouse.Failure.Kind
import Gatehouse.Http.Message
import Gatehouse.Http.Probe
import Gatehouse.Http.RequestId
import Gatehouse.Http.Router
import Gatehouse.Http.Uri
import Gatehouse.Outbound.Client
import Gatehouse.Outbound.Connection
import Gatehouse.Outbound.Loopback
import Gatehouse.Outbound.Reason
import Gatehouse.Outbound.Request
import Gatehouse.Outbound.Retry
import Gatehouse.Outbound.TransportError
import Gatehouse.Pipeline.Flight
import Gatehouse.Pipeline.Frame
import Gatehouse.Pipeline.Gates
import Gatehouse.Pipeline.Rules
import Gatehouse.Pipeline.Site
import Gatehouse.Pipeline.Stage
import Gatehouse.Pipeline.Traffic
import Gatehouse.Proofs.Breaker.Reference
import Gatehouse.Proofs.Breaker.Trials
import Gatehouse.Readiness.Coordinator
import Gatehouse.Readiness.Probe
import Gatehouse.Readiness.Waiters
import Gatehouse.Scope.Basic
import Gatehouse.Scope.Directory
import Gatehouse.Scope.Watch
import Gatehouse.Service.Basic
import Gatehouse.Service.Run
import Gatehouse.Shutdown.Basic
import Gatehouse.Shutdown.Waiters
import Gatehouse.Telemetry.Journal
import Gatehouse.Telemetry.Log
import Gatehouse.Telemetry.Measure
import Gatehouse.Text.Blank
import Gatehouse.Time
import Gatehouse.TokenBucket
import Gatehouse.Toml.Number
import Gatehouse.Toml.Reader
import Gatehouse.Toml.Text
import Gatehouse.Toml.Tree
import Gatehouse.Worker.Basic
import Gatehouse.Worker.Exit
import Gatehouse.Worker.Supervision
import Gatehouse.Proofs.Breaker.Coverage
import Gatehouse.Proofs.Bulkhead.Slots
import Gatehouse.Proofs.Pipeline.Passage
import Gatehouse.Proofs.Pipeline.Custody
import Gatehouse.Proofs.Pipeline.Holdings
import Gatehouse.Proofs.Pipeline.Moves
import Gatehouse.Proofs.Pipeline.Occupancy
import Gatehouse.Proofs.Pipeline.Charges
import Gatehouse.Proofs.Pipeline.Service
import Gatehouse.Proofs.Pipeline.Bills
import Gatehouse.Proofs.Pipeline.Accounts
import Gatehouse.Proofs.Breaker.Reading
import Gatehouse.Proofs.Breaker.Windows
import Gatehouse.Proofs.Pipeline.Departures
import Gatehouse.Proofs.Pipeline.Recovery
import Gatehouse.Proofs.Worker.Moves
import Gatehouse.Proofs.Worker.Overlap
import Gatehouse.Proofs.Bulkhead.Moves
import Gatehouse.Proofs.Bulkhead.Conservation
import Gatehouse.Proofs.Bulkhead.Settling
import Gatehouse.Proofs.Bulkhead.Threads
import Gatehouse.Proofs.Bulkhead.Gauge
import Gatehouse.Proofs.Bulkhead.Turns
import Gatehouse.Proofs.Readiness.Signals
import Gatehouse.Proofs.Service.Moves
import Gatehouse.Proofs.Worker.Gate
import Gatehouse.Proofs.Service.Readiness
import Gatehouse.Proofs.Outbound.Reference
import Gatehouse.Proofs.Outbound.Expiry
import Gatehouse.Proofs.Worker.Courses
import Gatehouse.Proofs.Worker.Stops
import Gatehouse.Proofs.Readiness.Waits
import Gatehouse.Proofs.Scope.Descent
import Gatehouse.Proofs.Scope.Watches
import Gatehouse.Proofs.Worker.Deeds
import Gatehouse.Proofs.Worker.Endings
import Gatehouse.Proofs.Worker.Operations
import Gatehouse.Proofs.Worker.Signals
import Gatehouse.Proofs.Worker.Invocations
import Gatehouse.Proofs.Pipeline.Agreement
import Gatehouse.Proofs.Pipeline.Interference
import Gatehouse.Proofs.Breaker.Deliveries
import Gatehouse.Proofs.Breaker.History
import Gatehouse.Proofs.Breaker.Reports
import Gatehouse.Proofs.Breaker.Announcements
import Gatehouse.Proofs.Breaker.Callers
import Gatehouse.Proofs.Readiness.Probes
import Gatehouse.Proofs.Worker.Tasks
import Gatehouse.Proofs.Service.Stopping
import Gatehouse.Proofs.Service.Timers
import Gatehouse.Proofs.Service.Deadline
import Gatehouse.Proofs.TokenBucket.Exact
import Gatehouse.Proofs.TokenBucket.Rounding
import Gatehouse.Proofs.Toml.Ranges
import Gatehouse.Proofs.Toml.Writing
import Gatehouse.Proofs.Breaker.Readmission
import Gatehouse.Proofs.Service.Creation
import Gatehouse.Proofs.Pipeline.Rejections
import Gatehouse.Proofs.Service.Outcome
import Gatehouse.Proofs.Outbound.Classification
import Gatehouse.Proofs.Outbound.Replay
import Gatehouse.Proofs.Pipeline.Order
import Gatehouse.Proofs.Pipeline.Timeouts
import Gatehouse.Proofs.Outbound.Retries
import Gatehouse.Proofs.Outbound.Deadline
import Gatehouse.Proofs.Outbound.Polling
import Gatehouse.Proofs.Outbound.Lifetime
import Gatehouse.Proofs.Breaker.Reuse
import Gatehouse.Proofs.Breaker.Observation
import Gatehouse.Proofs.Readiness.Snapshots
import Gatehouse.Proofs.Worker.States
import Gatehouse.Proofs.Shutdown.Requests
import Gatehouse.Proofs.Config.Rules
import Gatehouse.Proofs.Config.Documents
import Gatehouse.Proofs.Config.Numbers
import Gatehouse.Proofs.Failure.Answers
import Gatehouse.Proofs.Pipeline.Identification
