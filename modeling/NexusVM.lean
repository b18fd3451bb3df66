import NexusVM.Lib.Prog
import NexusVM.Lib.Ring
import NexusVM.Lib.Chain
import NexusVM.Lib.Radix
import NexusVM.Lib.Heap
import NexusVM.Lib.Ledger
import NexusVM.Lib.Bitmap
import NexusVM.Lib.Bytes
import NexusVM.Lib.Stdio
import NexusVM.Lib.Purge
import NexusVM.Lib.BitField
import NexusVM.Lib.Codec
import NexusVM.Types
import NexusVM.Records
import NexusVM.Utils
import NexusVM.Memory
import NexusVM.Ept
import NexusVM.EptTrees
import NexusVM.EptMap
import NexusVM.EptLayout
import NexusVM.EptLarge
import NexusVM.EptWalks
import NexusVM.EptHuge
import NexusVM.Devices
import NexusVM.Host
import NexusVM.IoEmul
import NexusVM.IoIsolation
import NexusVM.Handlers
import NexusVM.Scheduler
import NexusVM.Detection
import NexusVM.Vcpu
import NexusVM.Vm
import NexusVM.VmMemory
import NexusVM.Objects
import NexusVM.Lifecycle
import NexusVM.Creation
import NexusVM.Destruction
import NexusVM.Registry
import NexusVM.Placement
import NexusVM.Runs
import NexusVM.Requests
import NexusVM.Ledger
import NexusVM.Unwinding
import NexusVM.Homes
import NexusVM.Effects
import NexusVM.Queues
import NexusVM.Picking
import NexusVM.Orphans
import NexusVM.Migration
import NexusVM.MigrationRuns
import NexusVM.MigrationCounts
import NexusVM.MigrationOrder
import NexusVM.MigrationReceive
import NexusVM.Hypercall
import NexusVM.Mapping
import NexusVM.EptBuilt
import NexusVM.Isolation
import NexusVM.Wrapping
import NexusVM.Checkpoint
import NexusVM.CheckpointImage
import NexusVM.CheckpointRestore
import NexusVM.Snapshot
import NexusVM.Lib.Vmx
import NexusVM.Vmx
import NexusVM.VmxLaunch
import NexusVM.Lib.Flags
import NexusVM.Intercepts
import NexusVM.Nested
import NexusVM.NestedMode
import NexusVM.NestedStatus
import NexusVM.NestedHandles
import NexusVM.Svm
import NexusVM.Affinity
import NexusVM.Fairness
import NexusVM.Regions
import NexusVM.Ranges
import NexusVM.RegionTable
import NexusVM.Reclaiming
import NexusVM.Starting
import NexusVM.Identity
import NexusVM.Lib.Logged
import NexusVM.CheckpointWrites
import NexusVM.CreateOutcome
import NexusVM.RestoreOutcome
import NexusVM.SnapshotAtomic
import NexusVM.Lib.Annex
import NexusVM.Seclusion
import NexusVM.Rollback
import NexusVM.Lib.Stale
import NexusVM.ListModel
import NexusVM.Lib.FirstMin
import NexusVM.Choice
import NexusVM.Lib.Rota
import NexusVM.RoundRobin
import NexusVM.Accounting
import NexusVM.Lib.Balance
import NexusVM.Balancing
import NexusVM.Precopy
import NexusVM.Serialization
import NexusVM.NestedRoundTrip
import NexusVM.SvmSetup
import NexusVM.Lib.Tandem
import NexusVM.CheckpointLayout
import NexusVM.SvmDispatch
import NexusVM.Emulation
import NexusVM.Vmcall
import NexusVM.Controls
import NexusVM.DeviceBounds
import NexusVM.PortWrites
import NexusVM.QueueFamilies
import NexusVM.Lib.Crc
import NexusVM.Lib.Access
import NexusVM.Copying
import NexusVM.Strings
import NexusVM.StringCopy
import NexusVM.Crc32
import NexusVM.FindNextBit
import NexusVM.Interleavings
import NexusVM.MigrationMarks
import NexusVM.MigrationRaces
import NexusVM.IncrementalRoundTrip
import NexusVM.SvmRun
