import ExecutionControl.Admission.Config
import ExecutionControl.Admission.Control
import ExecutionControl.Admission.Decision
import ExecutionControl.Admission.LimitCache
import ExecutionControl.CommandLine.Console
import ExecutionControl.CommandLine.Grammar
import ExecutionControl.CommandLine.Operator
import ExecutionControl.CommandLine.Sweeper
import ExecutionControl.Coordination.Call
import ExecutionControl.Coordination.Error
import ExecutionControl.Coordination.Glob
import ExecutionControl.Coordination.Store
import ExecutionControl.Decimal.FixedPlaces
import ExecutionControl.Decimal.Parts
import ExecutionControl.Decimal.Shortest
import ExecutionControl.Delivery.Broker
import ExecutionControl.Delivery.Message
import ExecutionControl.Delivery.Worker
import ExecutionControl.Durable.Call
import ExecutionControl.Durable.Error
import ExecutionControl.Durable.FileTable
import ExecutionControl.Durable.LimitTable
import ExecutionControl.Duration
import ExecutionControl.Event
import ExecutionControl.Execution.Context
import ExecutionControl.Execution.FileRecord
import ExecutionControl.Execution.Status
import ExecutionControl.Json.Reader
import ExecutionControl.Json.Record
import ExecutionControl.Json.Skip
import ExecutionControl.Json.Value
import ExecutionControl.Json.Writer
import ExecutionControl.Key
import ExecutionControl.Lifecycle
import ExecutionControl.Main
import ExecutionControl.Operator
import ExecutionControl.Overflow
import ExecutionControl.Program
import ExecutionControl.Proofs.Admission.Ceiling
import ExecutionControl.Proofs.Admission.Course
import ExecutionControl.Proofs.Admission.CurrentLimits
import ExecutionControl.Proofs.Admission.Cutoffs
import ExecutionControl.Proofs.Admission.Effects
import ExecutionControl.Proofs.Admission.Faults
import ExecutionControl.Proofs.Admission.GlobalCeiling
import ExecutionControl.Proofs.Admission.History
import ExecutionControl.Proofs.Admission.Indifference
import ExecutionControl.Proofs.Admission.Lock
import ExecutionControl.Proofs.Admission.LockWait
import ExecutionControl.Proofs.Admission.Moves
import ExecutionControl.Proofs.Admission.Occupancy
import ExecutionControl.Proofs.Admission.Occupation
import ExecutionControl.Proofs.Admission.Operations
import ExecutionControl.Proofs.Admission.OrgCeiling
import ExecutionControl.Proofs.Admission.Release
import ExecutionControl.Proofs.Admission.Requests
import ExecutionControl.Proofs.Admission.Stages
import ExecutionControl.Proofs.Admission.Tenants
import ExecutionControl.Proofs.Coordination.Collections
import ExecutionControl.Proofs.Coordination.Locks
import ExecutionControl.Proofs.Coordination.Patterns
import ExecutionControl.Proofs.Coordination.Runs
import ExecutionControl.Proofs.Coordination.Scans
import ExecutionControl.Proofs.CoordinationCalls
import ExecutionControl.Proofs.Delivery.Attempts
import ExecutionControl.Proofs.Delivery.Calls
import ExecutionControl.Proofs.Delivery.Conservation
import ExecutionControl.Proofs.Delivery.Encoding
import ExecutionControl.Proofs.Delivery.Order
import ExecutionControl.Proofs.Delivery.Places
import ExecutionControl.Proofs.Delivery.RetryBudget
import ExecutionControl.Proofs.Delivery.RoutedRetries
import ExecutionControl.Proofs.Delivery.Settlement
import ExecutionControl.Proofs.Delivery.Timeline
import ExecutionControl.Proofs.Delivery.Waiting
import ExecutionControl.Proofs.Delivery.Workers
import ExecutionControl.Proofs.Ensures
import ExecutionControl.Proofs.Expiry
import ExecutionControl.Proofs.FileChanges
import ExecutionControl.Proofs.Files.Identity
import ExecutionControl.Proofs.Files.Life
import ExecutionControl.Proofs.Floats.Arithmetic
import ExecutionControl.Proofs.Floats.Order
import ExecutionControl.Proofs.Floats.Packing
import ExecutionControl.Proofs.Floats.Rounding
import ExecutionControl.Proofs.Floats.Seconds
import ExecutionControl.Proofs.HashChanges
import ExecutionControl.Proofs.HealthyStore
import ExecutionControl.Proofs.InPlace
import ExecutionControl.Proofs.Interleaving
import ExecutionControl.Proofs.Json.Numbers
import ExecutionControl.Proofs.Json.Records
import ExecutionControl.Proofs.Json.Strings
import ExecutionControl.Proofs.Json.Values
import ExecutionControl.Proofs.KeyFamilies
import ExecutionControl.Proofs.KeyOrder
import ExecutionControl.Proofs.Limits.Changes
import ExecutionControl.Proofs.Limits.Clearing
import ExecutionControl.Proofs.Limits.Invalidation
import ExecutionControl.Proofs.Limits.Operations
import ExecutionControl.Proofs.Limits.Staleness
import ExecutionControl.Proofs.Losses
import ExecutionControl.Proofs.Numerals
import ExecutionControl.Proofs.PlainStore
import ExecutionControl.Proofs.Refusals
import ExecutionControl.Proofs.Requests
import ExecutionControl.Proofs.Routing.Backoff
import ExecutionControl.Proofs.Routing.Queues
import ExecutionControl.Proofs.Schedules
import ExecutionControl.Proofs.Services
import ExecutionControl.Proofs.SetChanges
import ExecutionControl.Proofs.SlotsAndTracking
import ExecutionControl.Proofs.Stretches
import ExecutionControl.Proofs.Sweeping.Counts
import ExecutionControl.Proofs.Sweeping.Exactness
import ExecutionControl.Proofs.SystemOperations
import ExecutionControl.Proofs.Timestamps
import ExecutionControl.Proofs.Tracking.Abandonment
import ExecutionControl.Proofs.Tracking.Counters
import ExecutionControl.Proofs.Tracking.CreationTime
import ExecutionControl.Proofs.Tracking.Deadlines
import ExecutionControl.Proofs.Tracking.Edits
import ExecutionControl.Proofs.Tracking.Increments
import ExecutionControl.Proofs.Tracking.Isolation
import ExecutionControl.Proofs.Tracking.Operations
import ExecutionControl.Proofs.Tracking.Readability
import ExecutionControl.Proofs.Tracking.Records
import ExecutionControl.Proofs.Tracking.Scripts
import ExecutionControl.Proofs.Tracking.Stages
import ExecutionControl.Proofs.Tracking.StatusTexts
import ExecutionControl.Proofs.Tracking.TimesToLive
import ExecutionControl.Proofs.Tracking.Totals
import ExecutionControl.Proofs.Tracking.Unbroken
import ExecutionControl.Proofs.TypedStore
import ExecutionControl.Proofs.WellTyped
import ExecutionControl.Reports.Machine
import ExecutionControl.Reports.Table
import ExecutionControl.Routing.QueueClass
import ExecutionControl.Routing.RetryPolicy
import ExecutionControl.Routing.Router
import ExecutionControl.Settings
import ExecutionControl.Simulation.Fault
import ExecutionControl.Simulation.World
import ExecutionControl.Sweeping.Metrics
import ExecutionControl.Sweeping.Sweeper
import ExecutionControl.Telemetry
import ExecutionControl.Text.Blank
import ExecutionControl.Text.Column
import ExecutionControl.Text.Letter
import ExecutionControl.Text.Numeral
import ExecutionControl.Text.Quoted
import ExecutionControl.Text.Unprintable
import ExecutionControl.Timestamp.Basic
import ExecutionControl.Timestamp.Calendar
import ExecutionControl.Timestamp.Reader
import ExecutionControl.Timestamp.Text
import ExecutionControl.Tracking.Config
import ExecutionControl.Tracking.Record
import ExecutionControl.Tracking.Tracker
