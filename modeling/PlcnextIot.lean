import PlcnextIot.Effect.Prog
import PlcnextIot.Effect.Run
import PlcnextIot.Python.Text
import PlcnextIot.Python.Json
import PlcnextIot.Python.Number
import PlcnextIot.Python.JsonText
import PlcnextIot.Python.Sha256
import PlcnextIot.Contracts.Schema
import PlcnextIot.Contracts.Protocol
import PlcnextIot.Config.Models
import PlcnextIot.Config.Patch
import PlcnextIot.Config.Content
import PlcnextIot.Config.Merge
import PlcnextIot.Effect.Transaction
import PlcnextIot.Effect.Rows
import PlcnextIot.Effect.Returns
import PlcnextIot.Contracts.Sound
import PlcnextIot.Config.Store
import PlcnextIot.Config.Invariants
import PlcnextIot.Config.StoreSpec
import PlcnextIot.Config.StoreRun
import PlcnextIot.Config.StoreHistory
import PlcnextIot.Config.Receipts
import PlcnextIot.Contracts.Validate
import PlcnextIot.Core.PlatformTime
import PlcnextIot.Core.TimeRun
import PlcnextIot.Core.TimeFence
import PlcnextIot.Core.Estimate
import PlcnextIot.Core.TimeTrack
import PlcnextIot.Core.TimeAccuracy
import PlcnextIot.Core.TimeGate
import PlcnextIot.Core.TimeOps
import PlcnextIot.Core.TimeEvolve
import PlcnextIot.Core.TimeToken
import PlcnextIot.Core.TimeHandshake
import PlcnextIot.Python.Dict
import PlcnextIot.Devices.Runtime
import PlcnextIot.Devices.Ownership
import PlcnextIot.Devices.Transitions
import PlcnextIot.Core.Lifecycle
import PlcnextIot.Core.Consistency
import PlcnextIot.Core.Submissions
import PlcnextIot.Core.Serving
import PlcnextIot.Python.Float
import PlcnextIot.Python.Rounding
import PlcnextIot.Points.Sample
import PlcnextIot.Drivers.Decode
import PlcnextIot.Drivers.Values
import PlcnextIot.Core.TimeMonotone
import PlcnextIot.Reporting.Accounting
import PlcnextIot.Storage.Batches
import PlcnextIot.Storage.Session
import PlcnextIot.Storage.Outbox
import PlcnextIot.Effect.Steps
import PlcnextIot.Storage.OutboxSteps
import PlcnextIot.Storage.OutboxTable
import PlcnextIot.Storage.OutboxSound
import PlcnextIot.Storage.OutboxLedger
import PlcnextIot.Storage.OutboxIntegrity
import PlcnextIot.Storage.Migration
import PlcnextIot.Storage.OutboxOrder
import PlcnextIot.Effect.Spacing
import PlcnextIot.Storage.OutboxSchedule
import PlcnextIot.Storage.OutboxSending
import PlcnextIot.Storage.OutboxExpiry
import PlcnextIot.Drivers.Registers
import PlcnextIot.Drivers.ReadPlan
import PlcnextIot.Drivers.BlockRead
import PlcnextIot.Devices.Modbus
import PlcnextIot.Devices.ModbusOwnership
import PlcnextIot.Points.Buffer
import PlcnextIot.Points.Events
import PlcnextIot.Points.StateEvents
import PlcnextIot.Points.EventRuns
import PlcnextIot.Reporting.Engine
import PlcnextIot.Python.RefCounts
import PlcnextIot.Reporting.EngineSteps
import PlcnextIot.Reporting.Handover
import PlcnextIot.Reporting.Ownership
import PlcnextIot.Reporting.Memory
import PlcnextIot.Reporting.EngineRuns
import PlcnextIot.Points.Slots
import PlcnextIot.Devices.ReadBudget
import PlcnextIot.Devices.ReadAdmission
import PlcnextIot.Provisioning.Supervisor
import PlcnextIot.Core.SyncRounds
import PlcnextIot.Core.SyncRuns
import PlcnextIot.Reporting.Baseline
import PlcnextIot.Reporting.Selection
import PlcnextIot.Reporting.SelectionRuns
import PlcnextIot.Reporting.Reload
import PlcnextIot.Messaging.Messages
import PlcnextIot.Storage.Receiver
import PlcnextIot.Storage.Delivery
import PlcnextIot.Messaging.TimedControl
import PlcnextIot.Storage.TimeStamps
import PlcnextIot.Arith.GridWalk
import PlcnextIot.Reporting.Grid
import PlcnextIot.Reporting.Filing
import PlcnextIot.Points.Regrid
