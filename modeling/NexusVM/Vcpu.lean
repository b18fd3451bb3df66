import NexusVM.Scheduler

/-!
# Virtual CPUs

The vCPU functions of `hypervisor.c`, with what they use of the two vendor modules.

* `vmxVcpuInit`, `vmxVcpuSetup`, `vmxVcpuCleanup` and the same for SVM: the vendor modules; the
  machine code of a setup is outside the program, so its result is one of the state's answers;
* `vcpuCreate`, `vcpuDestroy`, `vcpuStart`, `vcpuStop`, `vcpuSetState`, `vcpuSetAffinity`,
  `vcpuMigrate`: the functions.
-/

namespace NexusVM

/-! ## Vendor modules -/

/-- The size of a VMXON or VMCS region. -/
def vmxRegionSize (hv : Hypervisor) : ℕ := max 4096 (hv.vmxOnInfo &&& 0x1FFF).toNat

/-- `vmx_vcpu_init` -/
def vmxVcpuInit (c : Addr) : HostM Result := do
  let hv ← getHv
  match ← onMem (alignedAlloc .vmxonRegion 4096 (vmxRegionSize hv)) with
  | none => return .errNoMemory
  | some region =>
    putVcpu c { ← getVcpu c with vmxOnRegion := some region }
    match ← onMem (alignedAlloc .vmcsRegion 4096 (vmxRegionSize hv)) with
    | none =>
      freeBuffer .vmxonRegion (some region)
      return .errNoMemory
    | some vmcs =>
      putVcpu c { ← getVcpu c with vmxVmcsRegion := some vmcs }
      return .ok

/-- `svm_vcpu_init` -/
def svmVcpuInit (c : Addr) : HostM Result := do
  match ← onMem (alignedAlloc .vmcb 4096 4096) with
  | none => return .errNoMemory
  | some vmcb =>
    putVcpu c { ← getVcpu c with vmcb := some vmcb }
    return .ok

/-- The result of the machine code of a setup. -/
def setupOutcome : HostM Result := do
  let h ← get
  set h.countSetup
  return h.vendor.setup h.setups

/-- `vmx_vcpu_setup`; `vmx_on` leaves its result in `vcpu_id`. -/
def vmxVcpuSetup (c : Addr) : HostM Result := do
  let u ← getVcpu c
  if u.vmxOnRegion.isNone || u.vmxVmcsRegion.isNone then return .errInvalidParam
  let h ← get
  putVcpu c { u with vcpuId := if h.vendor.vmxOnFails h.setups then 0xFFFFFFFF else 0 }
  setupOutcome

/-- `svm_vcpu_setup` -/
def svmVcpuSetup (c : Addr) : HostM Result := do
  let u ← getVcpu c
  if u.vmcb.isNone then return .errInvalidParam
  setupOutcome

/-- `vmx_vcpu_cleanup` -/
def vmxVcpuCleanup (c : Addr) : HostM Unit := do
  let u ← getVcpu c
  freeBuffer .vmcsRegion u.vmxVmcsRegion
  freeBuffer .vmxonRegion u.vmxOnRegion
  putVcpu c { u with vmxVmcsRegion := none, vmxOnRegion := none }

/-- `svm_vcpu_cleanup` -/
def svmVcpuCleanup (c : Addr) : HostM Unit := do
  let u ← getVcpu c
  freeBuffer .vmcb u.vmcb
  putVcpu c { u with vmcb := none }

/-! ## Life of a vCPU -/

/-- The three bitmaps and the vCPU itself are given back. -/
def freeVcpuBuffers (c : Addr) : HostM Unit := do
  let u ← getVcpu c
  freeBuffer .msrBitmap u.msrBitmap
  freeBuffer .ioBitmap u.ioBitmapA
  freeBuffer .ioBitmap u.ioBitmapB
  freeVcpu c

/-- The vendor initialisation at the end of `vcpu_create`. -/
def vcpuVendorInit (c : Addr) : HostM Result := do
  let hv ← getHv
  match hv.cpuVendor with
  | .intel => vmxVcpuInit c
  | .amd => svmVcpuInit c
  | .unknown => return .ok

/-- `vcpu_create` -/
def vcpuCreate (vm : Addr) (vcpuId : UInt32) : HostM (Except Result Addr) := do
  match ← calloc .vcpu 1 sizeofNexusvcpu with
  | none => return .error .errNoMemory
  | some c =>
    let hv ← getHv
    Prog.require (hv.onlineCpuCount ≠ 0)
    putVcpu c { vcpuId := vcpuId, vm := vm, physicalCpu := vcpuId % hv.onlineCpuCount }
    match ← calloc .msrBitmap 1 (4096 * 2) with
    | none =>
      freeVcpu c
      return .error .errNoMemory
    | some msrBitmap =>
      let ioBitmapA ← calloc .ioBitmap 1 4096
      let ioBitmapB ← calloc .ioBitmap 1 4096
      putVcpu c { ← getVcpu c with
        msrBitmap := some msrBitmap
        ioBitmapA := ioBitmapA
        ioBitmapB := ioBitmapB }
      if ioBitmapA.isNone || ioBitmapB.isNone then
        freeVcpuBuffers c
        return .error .errNoMemory
      let result ← vcpuVendorInit c
      if result ≠ .ok then
        freeVcpuBuffers c
        return .error result
      return .ok c

/-- `vcpu_stop` -/
def vcpuStop (vcpu : Option Addr) : HostM Result :=
  match vcpu with
  | none => return .errInvalidParam
  | some c => do
    putVcpu c { ← getVcpu c with running := false }
    let _ ← schedulerRemoveVcpu (some c)
    return .ok

/-- The vendor clean-up in `vcpu_destroy`. -/
def vcpuVendorCleanup (c : Addr) : HostM Unit := do
  let hv ← getHv
  match hv.cpuVendor with
  | .intel => vmxVcpuCleanup c
  | .amd => svmVcpuCleanup c
  | .unknown => return ()

/-- `vcpu_destroy` -/
def vcpuDestroy (vcpu : Option Addr) : HostM Result :=
  match vcpu with
  | none => return .errInvalidParam
  | some c => do
    let u ← getVcpu c
    Prog.when u.running (discard (vcpuStop (some c)))
    vcpuVendorCleanup c
    freeVcpuBuffers c
    return .ok

/-- The vendor setup in `vcpu_start`. -/
def vcpuVendorSetup (c : Addr) : HostM Result := do
  let hv ← getHv
  match hv.cpuVendor with
  | .intel => vmxVcpuSetup c
  | .amd => svmVcpuSetup c
  | .unknown => return .errNotSupported

/-- `vcpu_start`; whether the vCPU could be queued is not looked at. -/
def vcpuStart (vcpu : Option Addr) : HostM Result :=
  match vcpu with
  | none => return .errInvalidParam
  | some c => do
    let u ← getVcpu c
    if u.running then return .ok
    if !u.initialized then
      let result ← vcpuVendorSetup c
      if result ≠ .ok then return result
      putVcpu c { ← getVcpu c with initialized := true }
    putVcpu c { ← getVcpu c with running := true }
    let _ ← schedulerAddVcpu (some c)
    return .ok

/-- `vcpu_set_state` -/
def vcpuSetState (vcpu : Option Addr) (state : CpuState) : HostM Result :=
  match vcpu with
  | none => return .errInvalidParam
  | some c => do
    putVcpu c { ← getVcpu c with cpuState := state }
    return .ok

/-- `vcpu_set_affinity`; the entity is written to without a look at the pointer. -/
def vcpuSetAffinity (vcpu : Option Addr) (affinity : Affinity) : HostM Result :=
  match vcpu with
  | none => return .errInvalidParam
  | some c => do
    let u ← getVcpu c
    let e ← Prog.fetch fun _ => u.schedEntity
    putEntity e { ← getEntity e with allowedCpus := affinity }
    return .ok

/-- `vcpu_migrate` -/
def vcpuMigrate (vcpu : Option Addr) (targetCpu : UInt32) : HostM Result :=
  match vcpu with
  | none => return .errInvalidParam
  | some c => do
    let hv ← getHv
    if targetCpu ≥ hv.onlineCpuCount then return .errInvalidParam
    putVcpu c { ← getVcpu c with physicalCpu := targetCpu }
    return .ok

end NexusVM
