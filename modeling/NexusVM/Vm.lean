import NexusVM.Ept
import NexusVM.Vcpu

/-!
# Virtual machines

The VM functions of `hypervisor.c`. The VM list is linked through `next` and `prev` of the VM
records themselves.

* `vmCreate`, `vmDestroy`: creation with its error paths, and destruction;
* `vmStart`, `vmStop`, `vmPause`, `vmResume`, `vmReset`: the lifecycle;
* `vmGetById`, `vmEnumerate`, `hypervisorShutdown`: walks of the VM list.
-/

namespace NexusVM

/-! ## Creation -/

/-- The EPT pointer that `vm_create` sets up for a root. -/
def makeEptp (root : Addr) : Eptp where
  memoryType := EPT_MEMORY_TYPE_WRITE_BACK
  pageWalkLength := 4 - 1
  enableAccessedDirty := true
  pml4PhysicalAddress := frameNumber (UInt64.ofNat root)

/-- Give back what `vm_create` had allocated when it failed. -/
def vmAbandon (vm : Addr) : HostM Unit := do
  let v ← getVm vm
  freeBuffer .vcpus v.vcpuTable
  freeBuffer .eptp v.eptPointer
  onMem (eptFreeRoot v.eptRoot)
  freeBuffer .regions v.regionTable
  freeVm vm

/-- The loop of `vm_create` over the vCPUs, `n` of which are left. -/
def createVcpus (vm : Addr) : ℕ → UInt32 → HostM Result
  | 0, _ => return .ok
  | n + 1, i => do
    match ← vcpuCreate vm i with
    | .ok c =>
      let v ← getVm vm
      putVm vm { v with vcpus := v.vcpus ++ [c] }
      createVcpus vm n (i + 1)
    | .error result =>
      let v ← getVm vm
      Prog.forEach (fun c => discard (vcpuDestroy (some c))) v.vcpus
      return result

/-- The allocation of the region table in `vm_create`. -/
def vmAllocRegions (vm : Addr) (config : VmConfig) : HostM Result := do
  if config.memoryRegionCount > 0 then
    match ← calloc .regions config.memoryRegionCount.toNat sizeofMemoryRegion with
    | none => return .errNoMemory
    | some regions =>
      putVm vm { ← getVm vm with
        regionTable := some regions
        memoryRegions := List.replicate config.memoryRegionCount.toNat {} }
      return .ok
  else
    return .ok

/-- The part of `vm_create` that allocates what belongs to the VM. -/
def vmBuild (vm : Addr) (config : VmConfig) : HostM Result := do
  let result ← vmAllocRegions vm config
  if result ≠ .ok then return result
  match ← onMem eptAllocRoot with
  | none => return .errNoMemory
  | some root =>
  putVm vm { ← getVm vm with eptRoot := some root }
  match ← calloc .eptp 1 sizeofEptp with
  | none => return .errNoMemory
  | some eptp =>
  putVm vm { ← getVm vm with eptPointer := some eptp, eptp := makeEptp root }
  match ← calloc .vcpus config.vcpuCount.toNat sizeofPointer with
  | none => return .errNoMemory
  | some vcpus =>
  putVm vm { ← getVm vm with vcpuTable := some vcpus }
  createVcpus vm config.vcpuCount.toNat 0

/-- The end of `vm_create`: link the VM in at the front. -/
def vmLink (vm : Addr) : HostM Unit := do
  let hv ← getHv
  putVm vm { ← getVm vm with next := hv.vms }
  match hv.vms with
  | none => pure ()
  | some first => putVm first { ← getVm first with prev := some vm }
  putHv { hv with vms := some vm, vmCount := hv.vmCount + 1 }
  putVm vm { ← getVm vm with state := .initialized }

/-- The record of a new VM. -/
def newVm (config : VmConfig) (id : UInt32) (name : List UInt8) : Nexusvm where
  id := id
  name := name
  config := config
  vcpuCount := config.vcpuCount
  memorySize := config.memorySize
  state := .created

/-- `vm_create` -/
def vmCreate (config : Option VmConfig) : HostM (Except Result Addr) := do
  let h ← get
  match config with
  | none => return .error .errInvalidParam
  | some config =>
  if !h.gInitialized then return .error .errInvalidParam
  match ← calloc .vm 1 sizeofNexusvm with
  | none => return .error .errNoMemory
  | some vm =>
  let hv ← getHv
  putHv { hv with nextVmId := hv.nextVmId + 1 }
  let name ← Prog.fetch fun _ => strncpy (List.replicate 64 0) config.name.toList 63
  putVm vm (newVm config hv.nextVmId name)
  let result ← vmBuild vm config
  if result ≠ .ok then
    vmAbandon vm
    return .error result
  vmLink vm
  return .ok vm

/-! ## Lifecycle -/

/-- The loop of `vm_start`: the vCPUs already started, and those left. -/
def startVcpus : List Addr → List Addr → HostM Result
  | _, [] => return .ok
  | started, c :: cs => do
    let result ← vcpuStart (some c)
    if result ≠ .ok then
      Prog.forEach (fun d => discard (vcpuStop (some d))) started
      return result
    startVcpus (started ++ [c]) cs

/-- `vm_start` -/
def vmStart (vm : Option Addr) : HostM Result :=
  match vm with
  | none => return .errInvalidParam
  | some a => do
    let v ← getVm a
    if v.state = .running then return .ok
    if v.state ≠ .initialized ∧ v.state ≠ .paused ∧ v.state ≠ .shutdown then
      return .errVmNotRunning
    let result ← startVcpus [] v.vcpus
    if result ≠ .ok then return result
    putVm a { ← getVm a with state := .running }
    return .ok

/-- `vm_stop` -/
def vmStop (vm : Option Addr) : HostM Result :=
  match vm with
  | none => return .errInvalidParam
  | some a => do
    let v ← getVm a
    if v.state ≠ .running then return .errVmNotRunning
    Prog.forEach (fun c => discard (vcpuStop (some c))) v.vcpus
    putVm a { ← getVm a with state := .shutdown }
    return .ok

/-- `vm_pause` -/
def vmPause (vm : Option Addr) : HostM Result :=
  match vm with
  | none => return .errInvalidParam
  | some a => do
    let v ← getVm a
    if v.state ≠ .running then return .errVmNotRunning
    Prog.forEach (fun c => do
      let u ← getVcpu c
      Prog.when u.running (putVcpu c { u with running := false })) v.vcpus
    putVm a { ← getVm a with state := .paused }
    return .ok

/-- `vm_resume` -/
def vmResume (vm : Option Addr) : HostM Result :=
  match vm with
  | none => return .errInvalidParam
  | some a => do
    let v ← getVm a
    if v.state ≠ .paused then return .errVmRunning
    Prog.forEach (fun c => do
      let u ← getVcpu c
      Prog.when u.initialized (putVcpu c { u with running := true })) v.vcpus
    putVm a { ← getVm a with state := .running }
    return .ok

/-- The register values after a reset. -/
def resetState : CpuState := { gprs := { rsp := 0xFFFFFFF0, rip := 0xFFF0, rflags := 2 } }

/-- `vm_reset` -/
def vmReset (vm : Option Addr) (cold : Bool) : HostM Result :=
  match vm with
  | none => return .errInvalidParam
  | some a => do
    let v ← getVm a
    Prog.when (v.state = .running) (discard (vmStop (some a)))
    Prog.forEach (fun c => do putVcpu c { ← getVcpu c with cpuState := resetState }) v.vcpus
    Prog.when cold (onMem (eptClearRoot v.eptRoot))
    putVm a { ← getVm a with state := .shutdown }
    return .ok

/-- The part of `vm_destroy` that takes the VM out of the list. -/
def vmUnlink (vm : Addr) : HostM Unit := do
  let v ← getVm vm
  match v.prev with
  | some p => putVm p { ← getVm p with next := v.next }
  | none => putHv { ← getHv with vms := v.next }
  match v.next with
  | some n => putVm n { ← getVm n with prev := v.prev }
  | none => pure ()
  let hv ← getHv
  putHv { hv with vmCount := hv.vmCount - 1 }

/-- The part of `vm_destroy` that gives back what the VM owns; the names of memory regions are never
set. -/
def vmFreeParts (v : Nexusvm) : HostM Unit := do
  freeBuffer .vcpus v.vcpuTable
  onMem (eptFreeRoot v.eptRoot)
  freeBuffer .eptp v.eptPointer
  freeBuffer .regions v.regionTable

/-- `vm_destroy` -/
def vmDestroy (vm : Option Addr) : HostM Result :=
  match vm with
  | none => return .errInvalidParam
  | some a => do
    let v ← getVm a
    Prog.when (v.state = .running) (discard (vmStop (some a)))
    Prog.forEach (fun c => discard (vcpuDestroy (some c))) v.vcpus
    vmFreeParts v
    vmUnlink a
    freeBuffer .nestedVmx v.nestedVmx
    freeBuffer .nestedSvm v.nestedSvm
    freeVm a
    return .ok

/-! ## Walks of the VM list -/

/-- The loop of `vm_get_by_id`. -/
def findById (vmId : UInt32) : ℕ → Option Addr → HostM (Option Addr)
  | _, none => return none
  | 0, some _ => failure
  | fuel + 1, some a => do
    let v ← getVm a
    if v.id = vmId then return some a else findById vmId fuel v.next

/-- `vm_get_by_id` -/
def vmGetById (vmId : UInt32) : HostM (Option Addr) := do
  let hv ← getHv
  findById vmId (← get).fuel hv.vms

/-- The loop of `vm_enumerate`, with room for `room` more ids. -/
def enumerateFrom : ℕ → Option Addr → HostM (List UInt32)
  | _, none => return []
  | 0, some _ => return []
  | room + 1, some a => do
    let v ← getVm a
    let ids ← enumerateFrom room v.next
    return v.id :: ids

/-- `vm_enumerate`: the ids it writes, as many as it returns. -/
def vmEnumerate (maxCount : UInt32) : HostM (List UInt32) := do
  let hv ← getHv
  enumerateFrom maxCount.toNat hv.vms

/-- The loop of `hypervisor_shutdown`, with the VMs it destroys. -/
def shutdownLoop : ℕ → Option Addr → HostM (List Addr)
  | _, none => return []
  | 0, some _ => failure
  | fuel + 1, some a => do
    let v ← getVm a
    let _ ← vmStop (some a)
    let _ ← vmDestroy (some a)
    let rest ← shutdownLoop fuel v.next
    return a :: rest

/-- `hypervisor_shutdown` -/
def hypervisorShutdown : HostM (List Addr) := do
  let h ← get
  if !h.gInitialized then return []
  let destroyed ← shutdownLoop h.fuel h.hv.vms
  modify fun h => { h with gInitialized := false, gSchedulerInitialized := false }
  return destroyed

end NexusVM
