import Nibrunner.ForStd.IdMap
import Nibrunner.ForStd.MachineInt
import Nibrunner.ForStd.Run
import Nibrunner.ForStd.Frame
import Nibrunner.ForStd.KeyedSum
import Nibrunner.ForStd.Fallible
import Nibrunner.ForStd.PathText
import Nibrunner.ForStd.UniqueTable
import Nibrunner.ForStd.PacketFilter
import Nibrunner.ForStd.Interruptible
import Nibrunner.ForStd.Checked
import Nibrunner.ForStd.Bytes
import Nibrunner.ForStd.TextLines
import Nibrunner.ForStd.StreamReader
import Nibrunner.Protocol.Identifier
import Nibrunner.Protocol.Document
import Nibrunner.Protocol.Wire
import Nibrunner.Protocol.Tenant
import Nibrunner.Instance.Backoff
import Nibrunner.Vm.Status
import Nibrunner.Instance.Health
import Nibrunner.Net.Slot
import Nibrunner.Net.Allocator
import Nibrunner.Net.Ring
import Nibrunner.Net.Firewall
import Nibrunner.Net.Isolation
import Nibrunner.Instance.Record
import Nibrunner.Instance.Capacity
import Nibrunner.Host.State
import Nibrunner.Host.Volumes
import Nibrunner.Repositories.LastWritten
import Nibrunner.Repositories.Slots
import Nibrunner.Vm.SnapshotDisk
import Nibrunner.Vm.Manager
import Nibrunner.Vm.SnapshotFreshness
import Nibrunner.Reconcile.Plan
import Nibrunner.Reconcile.PlanSafety
import Nibrunner.Reconcile.Ingress
import Nibrunner.Reconcile.Instances
import Nibrunner.Reconcile.InstanceEffects
import Nibrunner.Reconcile.Volumes
import Nibrunner.Reconcile.Pass
import Nibrunner.Reconcile.PassEffects
import Nibrunner.Reconcile.System
import Nibrunner.Reconcile.SlotSafety
import Nibrunner.Reconcile.MemoryAccounting
import Nibrunner.Reconcile.Commitments
import Nibrunner.Reconcile.RestartBudget
import Nibrunner.Reconcile.Storage
import Nibrunner.Reconcile.SuccessfulPass
import Nibrunner.Reconcile.Steady
import Nibrunner.Reconcile.Convergence
import Nibrunner.Daemon.Tasks
import Nibrunner.Daemon.TaskEffects
import Nibrunner.Daemon.TaskRecords
import Nibrunner.Daemon.OneGuest
import Nibrunner.Daemon.Sleeps
import Nibrunner.Daemon.Settling
import Nibrunner.Daemon.WakeMemory
import Nibrunner.Host.AcceptedDocument
import Nibrunner.Activity.Meters
import Nibrunner.Activity.Ledger
import Nibrunner.Activity.Kept
import Nibrunner.Activity.MetersGrow
import Nibrunner.Oci.Filesystem
import Nibrunner.Oci.Flattening
import Nibrunner.Oci.Archive
import Nibrunner.Oci.Whiteouts
import Nibrunner.Proxy.Activators
import Nibrunner.Guest.Filesystem
import Nibrunner.Guest.FilesystemCodec
import Nibrunner.Guest.CronExecution
import Nibrunner.Guest.CronExecutionCodec
import Nibrunner.Guest.Logs
import Nibrunner.Guest.LogsChunking
import Nibrunner.Guest.InstanceEnv
import Nibrunner.Guest.Expansion
import Nibrunner.Guest.InstanceEnvCodec
import Nibrunner.Daemon.Coalescing
import Nibrunner.Daemon.OneWake
import Nibrunner.Cron.Runs
import Nibrunner.Cron.RunOwners
import Nibrunner.Cron.RunCalls
import Nibrunner.Cron.RunsEnd
import Nibrunner.ForStd.History
import Nibrunner.Protocol.Cron
import Nibrunner.Cron.Crontab
import Nibrunner.Repositories.Cron
import Nibrunner.Repositories.CronRoundTrip
import Nibrunner.Cron.Registry
import Nibrunner.Cron.Decisions
import Nibrunner.Cron.RegistryConsistency
import Nibrunner.Daemon.WakeDocument
import Nibrunner.Reconcile.Recovery
import Nibrunner.Reconcile.Exports
import Nibrunner.Reconcile.CheckpointSafety
import Nibrunner.Reconcile.CheckpointLosses
import Nibrunner.Proxy.Concurrency
import Nibrunner.Proxy.ConcurrencyLimits
import Nibrunner.Guest.Forwarder
import Nibrunner.Guest.LogAccounts
import Nibrunner.Proxy.Http
import Nibrunner.Proxy.Forward
import Nibrunner.Proxy.Access
import Nibrunner.Proxy.Router
import Nibrunner.Proxy.RouterAccess
import Nibrunner.Proxy.HostTold
import Nibrunner.ForStd.FirstOf
import Nibrunner.Cron.Schedule
import Nibrunner.Cron.Scheduling
import Nibrunner.Volumes.Devices
import Nibrunner.Volumes.DeviceSafety
import Nibrunner.Volumes.DeviceCalls
import Nibrunner.Volumes.SharedDevice
import Nibrunner.Activity.Readings
import Nibrunner.Activity.Totals
import Nibrunner.Instance.HealthLaw
import Nibrunner.Reconcile.WaveOfStarts
import Nibrunner.Reconcile.PlanCoverage
import Nibrunner.Repositories.Activity
import Nibrunner.ForStd.Calendar
import Nibrunner.Guest.Listing
import Nibrunner.ForStd.Pointers
import Nibrunner.Oci.LinkRounds
import Nibrunner.Oci.HardLinks
import Nibrunner.Oci.Identities
import Nibrunner.Oci.WhiteoutOrder
import Nibrunner.ForStd.ReadBack
import Nibrunner.Host.Config
import Nibrunner.Host.ConfigRoundTrip
import Nibrunner.Host.Reload
import Nibrunner.Reconcile.Restarts
import Nibrunner.Reconcile.SlotLeaks
import Nibrunner.ForStd.Pattern
import Nibrunner.Protocol.Schema
import Nibrunner.Protocol.SchemaAgreement
import Nibrunner.Protocol.SchemaLimits
import Nibrunner.Protocol.Addresses
import Nibrunner.ForStd.Words
import Nibrunner.Cron.CivilDays
import Nibrunner.Cron.Fields
import Nibrunner.Cron.NextOccurrence
import Nibrunner.Cron.OffsetChanges
import Nibrunner.Cron.CrontabLines
import Nibrunner.Cron.GuestExecution
import Nibrunner.Guest.CronEnvironment
import Nibrunner.ForStd.Utf8
import Nibrunner.Protocol.LogEvents
import Nibrunner.Cron.RunOutput
import Nibrunner.Guest.OpenLines
import Nibrunner.Proxy.ForwardedHops
import Nibrunner.ForStd.ProgramHistory
import Nibrunner.Reconcile.ExportSteps
import Nibrunner.Reconcile.ExportCuts
import Nibrunner.Activity.HeldRounding
import Nibrunner.Activity.GuestBilling
import Nibrunner.Host.StorageLayout
import Nibrunner.Cron.Exchange
import Nibrunner.Cron.ExchangeSafety
import Nibrunner.Proxy.HttpLogSafety
import Nibrunner.Logs.FileSinkSafety
import Nibrunner.Guest.ControlSafety
import Nibrunner.Host.Transitions
import Nibrunner.Oci.PinnedImage
import Nibrunner.Start.ActivationSafety
import Nibrunner.Guest.SupervisorSafety
