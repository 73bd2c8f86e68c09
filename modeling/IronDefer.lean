import IronDefer.RowStore.Table
import IronDefer.RowStore.Program
import IronDefer.RowStore.Trace
import IronDefer.RowStore.Runs
import IronDefer.RowStore.Database
import IronDefer.RowStore.Sessions
import IronDefer.RowStore.Unwinding
import IronDefer.RowStore.Spans
import IronDefer.RowStore.Alone
import IronDefer.RowStore.Served
import IronDefer.RowStore.History
import IronDefer.RowStore.UniqueIndex
import IronDefer.RowStore.Lockstep
import IronDefer.RowStore.Server
import IronDefer.RowStore.Clients
import IronDefer.RowStore.Calls
import IronDefer.RowStore.Reports
import IronDefer.RowStore.Refinement
import IronDefer.RowStore.Paging
import IronDefer.RowStore.Rounds
import IronDefer.RowStore.Cached
import IronDefer.Machine.Span
import IronDefer.Text.Search
import IronDefer.Text.Lowercase
import IronDefer.Text.Brackets
import IronDefer.Text.Json
import IronDefer.Text.Boundaries
import IronDefer.Text.Printable
import IronDefer.Domain.Values
import IronDefer.Domain.Task
import IronDefer.Domain.Lifecycle
import IronDefer.Domain.Queue
import IronDefer.Infrastructure.ErrorText
import IronDefer.Infrastructure.DetailScrub
import IronDefer.Infrastructure.DetailForms
import IronDefer.Infrastructure.MessageScrub
import IronDefer.Infrastructure.UrlScrub
import IronDefer.Numbers.Rounding
import IronDefer.Infrastructure.Arithmetic
import IronDefer.Infrastructure.Row
import IronDefer.Infrastructure.Update
import IronDefer.Infrastructure.Postgres
import IronDefer.Infrastructure.Columns
import IronDefer.Infrastructure.Repository
import IronDefer.Infrastructure.Effects
import IronDefer.Infrastructure.Specs
import IronDefer.Infrastructure.History
import IronDefer.Application.Observability
import IronDefer.Application.Scheduler
import IronDefer.Application.Sweeper
import IronDefer.Application.Config
import IronDefer.Application.Worker
import IronDefer.Application.PollLoop
import IronDefer.Application.LifecycleLog
import IronDefer.Application.Dispatch
import IronDefer.Application.Backoff
import IronDefer.Application.ClaimDelay
import IronDefer.Application.ClaimWait
import IronDefer.Infrastructure.StateMachine
import IronDefer.Infrastructure.QueueRefinement
import IronDefer.Infrastructure.RowInvariant
import IronDefer.Infrastructure.Attempts
import IronDefer.Infrastructure.Idempotency
import IronDefer.Infrastructure.Audit
import IronDefer.Infrastructure.BoundedLife
import IronDefer.Infrastructure.Atomicity
import IronDefer.Infrastructure.Fencing
import IronDefer.Infrastructure.Checkpoints
import IronDefer.Infrastructure.Signals
import IronDefer.Infrastructure.KeyRace
import IronDefer.Infrastructure.AuditPages
import IronDefer.Infrastructure.AuditEntries
import IronDefer.Infrastructure.TraceIds
import IronDefer.Infrastructure.RoundTrip
import IronDefer.Infrastructure.Attribution
import IronDefer.Infrastructure.Serving
import IronDefer.Infrastructure.Claiming
import IronDefer.Infrastructure.Recovery
import IronDefer.Infrastructure.Watchdog
import IronDefer.Infrastructure.Retries
import IronDefer.Infrastructure.ClockRange
import IronDefer.Infrastructure.LastError
import IronDefer.Infrastructure.Listing
import IronDefer.Infrastructure.Statistics
import IronDefer.Infrastructure.Ledger
import IronDefer.Infrastructure.Gauges
import IronDefer.Infrastructure.Stranding
import IronDefer.Infrastructure.Finishing
import IronDefer.Api.Engine
import IronDefer.Api.Regions
import IronDefer.Api.Persistence
import IronDefer.Api.Start
import IronDefer.Api.Fleets
import IronDefer.Api.Budget
import IronDefer.Api.Executions
import IronDefer.Api.Results
import IronDefer.Api.Leases
import IronDefer.Api.Handlers
import IronDefer.Api.Serve
import IronDefer.Api.Privacy
import IronDefer.Api.Transitions
import IronDefer.Api.Enqueued
import IronDefer.Api.Cancellation
import IronDefer.Api.Refusals
import IronDefer.Api.Sightings
import IronDefer.Api.Counters
import IronDefer.Api.AuditHistory
import IronDefer.Api.TaskList
import IronDefer.Api.LivePaging
import IronDefer.Api.TraceParent
import IronDefer.Api.Delivery
import IronDefer.Api.CreateTask
import IronDefer.Cli.Submit
import IronDefer.Cli.Tasks
import IronDefer.Cli.Validate
