import Mathlib.Data.Vector.Basic

/-!
# Types and constants

The enumerations, register files, configuration records and constants shared by all subsystems.
Pointers to heap objects are `Option Addr`, with `none` for `NULL`; 64-bit physical addresses are
`UInt64`.
-/

namespace NexusVM

/-- The address of a heap object. -/
abbrev Addr : Type := ℕ

/-- `nexusvm_result_t` -/
inductive Result
  | ok
  | errGeneric
  | errNotSupported
  | errInvalidParam
  | errNoMemory
  | errNotFound
  | errAlreadyExists
  | errVmxFailed
  | errSvmFailed
  | errCpuNotSupported
  | errVmRunning
  | errVmNotRunning
  | errMigrationFailed
  | errCheckpointFailed
deriving DecidableEq, Repr

/-- `cpu_vendor_t` -/
inductive CpuVendor
  | unknown
  | intel
  | amd
deriving DecidableEq, Repr

/-- `vm_state_t` -/
inductive VmState
  | created
  | initialized
  | running
  | paused
  | suspended
  | migrating
  | checkpointing
  | shuttingDown
  | shutdown
  | failed
deriving DecidableEq, Repr

/-- The value of a `vm_state_t`. -/
def VmState.code : VmState → UInt32
  | .created => 0
  | .initialized => 1
  | .running => 2
  | .paused => 3
  | .suspended => 4
  | .migrating => 5
  | .checkpointing => 6
  | .shuttingDown => 7
  | .shutdown => 8
  | .failed => 9

/-- `memory_region_type_t` -/
inductive MemoryRegionType
  | ram
  | rom
  | mmio
  | iomem
  | device
  | shared
  | volatile
deriving DecidableEq, Repr

/-- The value of a `memory_region_type_t`. -/
def MemoryRegionType.code : MemoryRegionType → UInt32
  | .ram => 0
  | .rom => 1
  | .mmio => 2
  | .iomem => 3
  | .device => 4
  | .shared => 5
  | .volatile => 6

/-- `sched_policy_t` -/
inductive SchedPolicy
  | fifo
  | rr
  | cfs
  | bvt
  | walt
deriving DecidableEq, Repr

/-- `vm_priority_t` -/
inductive VmPriority
  | low
  | normal
  | high
  | realtime
deriving DecidableEq, Repr

/-- `migration_state_t` -/
inductive MigrationState
  | initiated
  | precopy
  | stopAndCopy
  | setup
  | transfer
  | resume
  | completed
  | failed
  | cancelled
deriving DecidableEq, Repr

def PAGE_SIZE : UInt64 := 4096
def PAGE_SHIFT : UInt64 := 12
def HUGE_PAGE_SHIFT : UInt64 := 21
def HUGE_PAGE_SIZE : UInt64 := 1 <<< HUGE_PAGE_SHIFT
def GIG_PAGE_SHIFT : UInt64 := 30
def GIG_PAGE_SIZE : UInt64 := 1 <<< GIG_PAGE_SHIFT

/-- `IS_ALIGNED` -/
def isAligned (x a : UInt64) : Bool := x &&& (a - 1) = 0

def MEM_REGION_READABLE : UInt32 := 1
def MEM_REGION_WRITABLE : UInt32 := 2

/-- `EPT_MEMORY_TYPE_WRITE_BACK` -/
def EPT_MEMORY_TYPE_WRITE_BACK : BitVec 3 := 6

/-- `INVALID_PHYS_ADDR` -/
def INVALID_PHYS_ADDR : UInt64 := 0xFFFFFFFFFFFFFFFF

/-! ## Registers -/

/-- `guest_gprs_t` -/
structure GuestGprs where
  rax : UInt64 := 0
  rbx : UInt64 := 0
  rcx : UInt64 := 0
  rdx : UInt64 := 0
  rsi : UInt64 := 0
  rdi : UInt64 := 0
  rbp : UInt64 := 0
  rsp : UInt64 := 0
  r8 : UInt64 := 0
  r9 : UInt64 := 0
  r10 : UInt64 := 0
  r11 : UInt64 := 0
  r12 : UInt64 := 0
  r13 : UInt64 := 0
  r14 : UInt64 := 0
  r15 : UInt64 := 0
  rip : UInt64 := 0
  rflags : UInt64 := 0
deriving DecidableEq

/-- `segment_reg_t` -/
structure SegmentReg where
  selector : UInt16 := 0
  base : UInt64 := 0
  limit : UInt32 := 0
  attributes : UInt32 := 0
deriving DecidableEq

/-- `guest_control_regs_t` -/
structure GuestControlRegs where
  cr0 : UInt64 := 0
  cr2 : UInt64 := 0
  cr3 : UInt64 := 0
  cr4 : UInt64 := 0
  cr8 : UInt64 := 0
deriving DecidableEq

/-- `guest_debug_regs_t` -/
structure GuestDebugRegs where
  dr0 : UInt64 := 0
  dr1 : UInt64 := 0
  dr2 : UInt64 := 0
  dr3 : UInt64 := 0
  dr6 : UInt64 := 0
  dr7 : UInt64 := 0
deriving DecidableEq

/-- `guest_msrs_t`; the source lists `ia32_pat` twice, a field can only be there once. -/
structure GuestMsrs where
  ia32Efer : UInt64 := 0
  ia32Pat : UInt64 := 0
  ia32FsBase : UInt64 := 0
  ia32GsBase : UInt64 := 0
  ia32KernelGsBase : UInt64 := 0
  ia32Star : UInt64 := 0
  ia32Lstar : UInt64 := 0
  ia32Cstar : UInt64 := 0
  ia32Sfmask : UInt64 := 0
  ia32SysenterCs : UInt64 := 0
  ia32SysenterEsp : UInt64 := 0
  ia32SysenterEip : UInt64 := 0
  ia32PerfGlobalCtrl : UInt64 := 0
  ia32Debugctl : UInt64 := 0
  ia32MtrrCap : UInt64 := 0
  ia32MtrrDefType : UInt64 := 0
deriving DecidableEq

/-- `cpu_state_t` -/
structure CpuState where
  gprs : GuestGprs := {}
  cr : GuestControlRegs := {}
  dr : GuestDebugRegs := {}
  msrs : GuestMsrs := {}
  cs : SegmentReg := {}
  ds : SegmentReg := {}
  es : SegmentReg := {}
  fs : SegmentReg := {}
  gs : SegmentReg := {}
  ss : SegmentReg := {}
  tr : SegmentReg := {}
  ldt : SegmentReg := {}
  gdtBase : SegmentReg := {}
  idtBase : SegmentReg := {}
  gdtrLimit : UInt64 := 0
  idtrLimit : UInt64 := 0
  pendingExceptions : UInt64 := 0
  activeEvents : UInt64 := 0
  interruptibilityState : UInt64 := 0
deriving DecidableEq

/-! ## Records -/

/-- `memory_region_t` -/
structure MemoryRegion where
  guestPhys : UInt64 := 0
  hostPhys : UInt64 := 0
  size : UInt64 := 0
  type : MemoryRegionType := .ram
  flags : UInt32 := 0
  name : Option Addr := none
  next : Option Addr := none
deriving DecidableEq

/-- `vm_config_t` -/
structure VmConfig where
  name : Vector UInt8 64 := Vector.replicate 64 0
  id : UInt32 := 0
  vcpuCount : UInt32 := 0
  memorySize : UInt64 := 0
  memoryRegionCount : UInt32 := 0
  memoryRegions : UInt64 := 0
  vcpuConfigs : UInt64 := 0
  kernelEntry : UInt64 := 0
  initrdAddr : UInt64 := 0
  initrdSize : UInt64 := 0
  kernelCmdline : Vector UInt8 256 := Vector.replicate 256 0
  eptp : UInt64 := 0
  nestedVirtualization : Bool := false
  unrestrictedGuest : Bool := false
  longMode : Bool := false
  pae : Bool := false
  apic : Bool := false
  x2apic : Bool := false
  vpidEnabled : Bool := false
  eptEnabled : Bool := false
  preemptionTimer : Bool := false
deriving DecidableEq

/-- `eptp_t` -/
structure Eptp where
  memoryType : BitVec 3 := 0
  pageWalkLength : BitVec 3 := 0
  enableAccessedDirty : Bool := false
  pml4PhysicalAddress : BitVec 40 := 0
deriving DecidableEq

/-- `affinity_t` -/
structure Affinity where
  mask : Vector UInt64 16 := Vector.replicate 16 0
  nrCpus : UInt32 := 0
deriving DecidableEq

/-- `sched_entity_t` but for its two list pointers, which are links of the runqueues. -/
structure SchedEntity where
  vmId : UInt32 := 0
  vcpuId : UInt32 := 0
  runtime : UInt64 := 0
  vruntime : UInt64 := 0
  deadline : UInt64 := 0
  policy : SchedPolicy := .fifo
  priority : VmPriority := .low
  allowedCpus : Affinity := {}
  weight : UInt32 := 0
deriving DecidableEq

/-- `pci_config_space_t`, as its 64 bytes. -/
abbrev PciConfigSpace : Type := Vector UInt8 64

/-- `nexusvm_t` -/
structure Nexusvm where
  id : UInt32 := 0
  name : List UInt8 := List.replicate 64 0
  state : VmState := .created
  /-- The array `vcpus` is at `vcpuTable`; these are the entries filled in so far. -/
  vcpuTable : Option Addr := none
  vcpus : List Addr := []
  vcpuCount : UInt32 := 0
  /-- The array `memory_regions` is at `regionTable`; these are all its entries. -/
  regionTable : Option Addr := none
  memoryRegions : List MemoryRegion := []
  memoryRegionCount : UInt32 := 0
  memorySize : UInt64 := 0
  eptPointer : Option Addr := none
  eptp : Eptp := {}
  eptRoot : Option Addr := none
  nestedVmx : Option Addr := none
  nestedSvm : Option Addr := none
  assignedDevices : List PciConfigSpace := []
  assignedDeviceCount : UInt32 := 0
  config : VmConfig := {}
  uptimeNs : UInt64 := 0
  totalRuntimeNs : UInt64 := 0
  vmexitCount : UInt64 := 0
  next : Option Addr := none
  prev : Option Addr := none

/-- `nexusvcpu_t` -/
structure Nexusvcpu where
  vcpuId : UInt32 := 0
  physicalCpu : UInt32 := 0
  vm : Addr := 0
  cpuState : CpuState := {}
  vmcb : Option Addr := none
  vmxOnRegion : Option Addr := none
  vmxVmcsRegion : Option Addr := none
  msrBitmap : Option Addr := none
  ioBitmapA : Option Addr := none
  ioBitmapB : Option Addr := none
  schedEntity : Option Addr := none
  vmexitCount : UInt64 := 0
  vmentryCount : UInt64 := 0
  instructionCount : UInt64 := 0
  running : Bool := false
  initialized : Bool := false

/-- `hypervisor_t` -/
structure Hypervisor where
  cpuVendor : CpuVendor := .unknown
  onlineCpuCount : UInt32 := 0
  logicalCpuCount : UInt32 := 0
  vms : Option Addr := none
  vmCount : UInt32 := 0
  nextVmId : UInt32 := 1
  hasVmx : Bool := false
  hasSvm : Bool := false
  hasEpt : Bool := false
  hasNpt : Bool := false
  hasVpid : Bool := false
  hasPcid : Bool := false
  hasFsgsbase : Bool := false
  hasRdrand : Bool := false
  hasMpx : Bool := false
  hasXsaves : Bool := false
  hasSmep : Bool := false
  hasSmap : Bool := false
  hasUmip : Bool := false
  hasPku : Bool := false
  /-- The VMXON region size field of `MSR_IA32_VMX_BASIC`. -/
  vmxOnInfo : UInt32 := 0
  vmxRevisionId : UInt32 := 0
  vmxCapPinbased : UInt64 := 0
  vmxCapProcbased : UInt64 := 0
  vmxCapProcbased2 : UInt64 := 0
  vmxCapExit : UInt64 := 0
  vmxCapEntry : UInt64 := 0
  vmxCapEptVpid : UInt64 := 0

/-- `migration_config_t` -/
structure MigrationConfig where
  maxConvergenceIterations : UInt32 := 0
deriving DecidableEq

/-- `migration_stats_t`; the percentage, a `double`, is left out. -/
structure MigrationStats where
  state : MigrationState := .initiated
  totalPages : UInt64 := 0
  transferredPages : UInt64 := 0
  dirtyPages : UInt64 := 0
  remainingPages : UInt64 := 0
deriving DecidableEq

/-- `migration_session_t` -/
structure MigrationSession where
  vm : Addr := 0
  config : MigrationConfig := {}
  state : MigrationState := .initiated
  connection : Option Addr := none
  isSource : Bool := false
  /-- The words of the bitmap at `dirtyTable`. -/
  dirtyTable : Option Addr := none
  dirtyPages : List UInt64 := []
  dirtyPageCount : UInt64 := 0
  totalPages : UInt64 := 0
  transferredPages : UInt64 := 0
  iteration : UInt64 := 0
  stats : MigrationStats := {}

/-! ## Sizes

The `sizeof` of the records under the x86-64 System V layout. -/

def sizeofCpuState : ℕ := 640
def sizeofMemoryRegion : ℕ := 48
def sizeofVmConfig : ℕ := 408
def sizeofEptp : ℕ := 16
def sizeofSchedEntity : ℕ := 224
def sizeofNexusvcpu : ℕ := 1424
def sizeofNexusvm : ℕ := 648
def sizeofPciConfigSpace : ℕ := 64
def sizeofCheckpointHeader : ℕ := 128
def sizeofMigrationSession : ℕ := 472
def sizeofPointer : ℕ := 8
def sizeofHypervisor : ℕ := 184
def sizeofCpuRunqueue : ℕ := 56
def sizeofIoHandler : ℕ := 32
def sizeofMmioHandler : ℕ := 40
def sizeofNestedVmx : ℕ := 24
def sizeofNestedSvm : ℕ := 656
def sizeofL2State : ℕ := 688

end NexusVM
