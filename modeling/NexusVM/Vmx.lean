import NexusVM.Detection
import NexusVM.Hypercall
import NexusVM.Lib.Vmx
import NexusVM.Records
import NexusVM.Vcpu
import NexusVM.VmMemory

/-!
# Running a vCPU with VMX

The functions of `vmx/vmx.c` that set a vCPU up, run it and handle its VM exits, down to the VMX
instructions they issue, and `vcpu_start` and `vcpu_run` above them.

* `VmcsField`, `VmxExit`, `VmxWorld`: fields, exits, and what comes from the processor and from
  the guest; encodings and exit numbers that are not defined in the headers are parameters;
* `Machine`: the state of the program with that of the processor;
* `vmxOn`, `vmxVmcsClear`, `vmxVmread`, `vmxVmwrite`: single instructions;
* `setupVmcs`, `vmxVcpuRun`, `vmxHandleVmexit`: set-up, loop and handlers;
* `startVcpu`, `vcpuRun`: the calls of `hypervisor.c`, on an Intel processor.
-/

namespace NexusVM

/-! ## Fields and exits -/

/-- The VMCS fields that the program uses. -/
inductive VmcsField
  | pinBasedVmExecutionControls
  | primaryProcBasedVmExecControls
  | secondaryProcBasedVmExecControls
  | vmExitControls
  | vmEntryControls
  | msrBitmapAddress
  | ioBitmapAAddress
  | ioBitmapBAddress
  | eptPointer
  | hostCr0
  | hostCr3
  | hostCr4
  | hostFsBase
  | hostGsBase
  | hostGdtrBase
  | hostIdtrBase
  | hostTrBase
  | guestCr0
  | guestCr3
  | guestCr4
  | guestRsp
  | guestRip
  | guestRflags
  | guestEsSelector
  | guestCsSelector
  | guestSsSelector
  | guestDsSelector
  | guestFsSelector
  | guestGsSelector
  | guestEsBase
  | guestCsBase
  | guestSsBase
  | guestDsBase
  | guestFsBase
  | guestGsBase
  | guestActivityState
  | vmExitReason
  | vmExitQualification
  | vmExitInstructionLength
  | vmExitInterruptionInfo
  | guestLinearAddress
  | guestRax
  | guestRbx
  | guestRcx
  | guestRdx
  | guestRsi
  | guestRdi
  | guestRbp
  | guestCr2
deriving DecidableEq

/-- The cases of `vmx_handle_vmexit`. -/
inductive VmxExit
  | interrupt
  | cpuid
  | hlt
  | crAccess
  | msrRead
  | msrWrite
  | ioInstruction
  | eptViolation
  | vmcall
  | vmxoff
  | rdtsc
  | invlpg
  | xsetbv
  | machineCheck
  | taskSwitch
  | unhandled
deriving DecidableEq

/-- The exit numbers that the headers do not define. -/
structure VmxExitCodes where
  cpuid : UInt16
  hlt : UInt16
  crAccess : UInt16
  msrRead : UInt16
  msrWrite : UInt16
  ioInstruction : UInt16
  vmcall : UInt16
  vmxoff : UInt16
  rdtsc : UInt16
  invlpg : UInt16
  mceDuringEntry : UInt16
  mceDuringExit : UInt16
  taskSwitch : UInt16

/-- Which case of the `switch` an exit number selects. -/
def VmxExitCodes.select (codes : VmxExitCodes) (exitCode : UInt16) : VmxExit :=
  if exitCode = 1 ∨ exitCode = 0 then .interrupt
  else if exitCode = codes.cpuid then .cpuid
  else if exitCode = codes.hlt then .hlt
  else if exitCode = codes.crAccess then .crAccess
  else if exitCode = codes.msrRead then .msrRead
  else if exitCode = codes.msrWrite then .msrWrite
  else if exitCode = codes.ioInstruction then .ioInstruction
  else if exitCode = 19 then .eptViolation
  else if exitCode = codes.vmcall then .vmcall
  else if exitCode = codes.vmxoff then .vmxoff
  else if exitCode = codes.rdtsc ∨ exitCode = 22 then .rdtsc
  else if exitCode = codes.invlpg then .invlpg
  else if exitCode = 15 then .xsetbv
  else if exitCode = codes.mceDuringEntry ∨ exitCode = codes.mceDuringExit then .machineCheck
  else if exitCode = codes.taskSwitch then .taskSwitch
  else .unhandled

/-! ## The world -/

/-- What `vmx_vcpu_setup` reads of the host's own registers. -/
structure HostRegs where
  cr0 : UInt64
  cr3 : UInt64
  cr4 : UInt64
  fsBase : UInt64
  gsBase : UInt64
  gdtrBase : UInt64
  idtrBase : UInt64
  trBase : UInt64

/-- What the program gets from the processor and from the guest. -/
structure VmxWorld where
  /-- Whether VMXON enters VMX operation in a setup. -/
  enters : ℕ → Bool
  hostRegs : HostRegs
  /-- The encoding of a field: a VMREAD that is not accepted leaves it in the register. -/
  encoding : VmcsField → UInt32
  exitCodes : VmxExitCodes
  /-- The current VMCS after the exit that follows an entry, from what it was before. -/
  guest : ℕ → (VmcsField → UInt64) → VmcsField → UInt64
  cpuid : UInt32 → UInt32 → CpuidRegs
  tsc : ℕ → UInt64

/-- The program's state and the processor's. -/
structure Machine where
  host : Host
  vmx : Vmx.Traced VmcsField
  /-- How often a guest has been entered. -/
  entries : ℕ
  msrs : UInt32 → UInt64
  xcr0 : UInt64

abbrev VmxM : Type → Type := Prog Machine

def Machine.setHost (m : Machine) (h : Host) : Machine := { m with host := h }

def Machine.setVmx (m : Machine) (t : Vmx.Traced VmcsField) : Machine := { m with vmx := t }

def onHost {α : Type} (x : HostM α) : VmxM α := Prog.zoom Machine.host Machine.setHost x

/-- Issue a VMX instruction. -/
def instr (i : Vmx.Instr VmcsField) : VmxM Bool := Prog.zoom Machine.vmx Machine.setVmx (Vmx.issue i)

/-! ## Instructions -/

/-- `vmx_on`; the jump behind VMXON leaves its result in `vcpu_id`. -/
def vmxOn (w : VmxWorld) (c : Addr) : VmxM Result := do
  let u ← onHost (getVcpu c)
  if u.vmxOnRegion.isNone then return .errInvalidParam
  let m ← get
  let _ ← instr (.vmxon (w.enters m.host.setups))
  onHost (putVcpu c { u with
    vcpuId := if m.host.vendor.vmxOnFails m.host.setups then 0xFFFFFFFF else 0 })
  onHost (modify Host.countSetup)
  return .ok

/-- `vmx_vmcs_clear`; `setz` takes the flag of a failure for that of a success. -/
def vmxVmcsClear (c : Addr) : VmxM Result := do
  let u ← onHost (getVcpu c)
  match u.vmxVmcsRegion with
  | none => return .errInvalidParam
  | some region =>
    let accepted ← instr (.vmclear region)
    return if accepted then .errVmxFailed else .ok

/-- `vmx_vmread` -/
def vmxVmread (w : VmxWorld) (f : VmcsField) : VmxM UInt64 := do
  let accepted ← instr (.vmread f)
  let m ← get
  match m.vmx.cpu.current, accepted with
  | some x, true => return m.vmx.cpu.contents x f
  | _, _ => return (w.encoding f).toUInt64

/-- `vmx_vmwrite` -/
def vmxVmwrite (f : VmcsField) (value : UInt64) : VmxM Unit := discard (instr (.vmwrite f value))

/-! ## Set-up -/

/-- `BIT`, in a 32-bit control word. -/
def bit (n : UInt32) : UInt32 := 1 <<< n

def VMX_PIN_BASED_CTLS_EXT_INT_EXIT : UInt32 := bit 0
def VMX_PIN_BASED_CTLS_NMI_EXIT : UInt32 := bit 3
def VMX_PIN_BASED_CTLS_VIRTUAL_NMI : UInt32 := bit 5

def VMX_PROC_BASED_CTLS_CR3_STORE : UInt32 := bit 15
def VMX_PROC_BASED_CTLS_CR3_LOAD : UInt32 := bit 16
def VMX_PROC_BASED_CTLS_TPR_SHADOW : UInt32 := bit 21
def VMX_PROC_BASED_CTLS_IO_BITMAP : UInt32 := bit 25
def VMX_PROC_BASED_CTLS_MSR_BITMAP : UInt32 := bit 28
def VMX_PROC_BASED_CTLS_PAUSE : UInt32 := bit 30
def VMX_PROC_BASED_CTLS_SECONDARY : UInt32 := bit 31

def VMX_PROC_BASED_CTLS2_EPT : UInt32 := bit 1
def VMX_PROC_BASED_CTLS2_VPID : UInt32 := bit 5
def VMX_PROC_BASED_CTLS2_UNRESTRICTED_GUEST : UInt32 := bit 7

def VMX_EXIT_CTLS_SAVE_DEBUG : UInt32 := bit 2
def VMX_EXIT_CTLS_HOST_ADDRESS_SPACE_SIZE : UInt32 := bit 9
def VMX_EXIT_CTLS_ACK_INTERRUPT : UInt32 := bit 15
def VMX_EXIT_CTLS_SAVE_PAT : UInt32 := bit 18
def VMX_EXIT_CTLS_LOAD_PAT : UInt32 := bit 19
def VMX_EXIT_CTLS_SAVE_EFER : UInt32 := bit 20
def VMX_EXIT_CTLS_LOAD_EFER : UInt32 := bit 21

def VMX_ENTRY_CTLS_LOAD_DEBUG : UInt32 := bit 2
def VMX_ENTRY_CTLS_LOAD_PAT : UInt32 := bit 14
def VMX_ENTRY_CTLS_LOAD_EFER : UInt32 := bit 15

/-- The pin-based controls. -/
def pinControls (hv : Hypervisor) : UInt32 :=
  let pinCtls := VMX_PIN_BASED_CTLS_EXT_INT_EXIT ||| VMX_PIN_BASED_CTLS_NMI_EXIT
  if hv.vmxCapPinbased &&& VMX_PIN_BASED_CTLS_VIRTUAL_NMI.toUInt64 ≠ 0 then
    pinCtls ||| VMX_PIN_BASED_CTLS_VIRTUAL_NMI
  else pinCtls

/-- The primary processor-based controls. -/
def procControls : UInt32 :=
  VMX_PROC_BASED_CTLS_CR3_STORE ||| VMX_PROC_BASED_CTLS_CR3_LOAD ||| VMX_PROC_BASED_CTLS_TPR_SHADOW |||
    VMX_PROC_BASED_CTLS_IO_BITMAP ||| VMX_PROC_BASED_CTLS_MSR_BITMAP ||| VMX_PROC_BASED_CTLS_PAUSE |||
    VMX_PROC_BASED_CTLS_SECONDARY

/-- A control that is asked for where `cond` holds. -/
def controlIf (cond : Bool) (control : UInt32) : UInt32 := if cond then control else 0

/-- The secondary processor-based controls. -/
def proc2Controls (hv : Hypervisor) : UInt32 :=
  controlIf hv.hasEpt VMX_PROC_BASED_CTLS2_EPT ||| controlIf hv.hasVpid VMX_PROC_BASED_CTLS2_VPID |||
    VMX_PROC_BASED_CTLS2_UNRESTRICTED_GUEST

/-- The VM-exit controls. -/
def exitControls (hv : Hypervisor) : UInt32 :=
  VMX_EXIT_CTLS_SAVE_DEBUG ||| VMX_EXIT_CTLS_ACK_INTERRUPT ||| VMX_EXIT_CTLS_HOST_ADDRESS_SPACE_SIZE |||
    controlIf (bit64 hv.vmxCapExit 18) VMX_EXIT_CTLS_SAVE_PAT |||
    controlIf (bit64 hv.vmxCapExit 19) VMX_EXIT_CTLS_LOAD_PAT |||
    controlIf (bit64 hv.vmxCapExit 20) VMX_EXIT_CTLS_SAVE_EFER |||
    controlIf (bit64 hv.vmxCapExit 21) VMX_EXIT_CTLS_LOAD_EFER

/-- The VM-entry controls. -/
def entryControls : UInt32 :=
  VMX_ENTRY_CTLS_LOAD_DEBUG ||| VMX_ENTRY_CTLS_LOAD_PAT ||| VMX_ENTRY_CTLS_LOAD_EFER

/-- A pointer as a number. -/
def pointerValue (a : Option Addr) : UInt64 := UInt64.ofNat (a.getD 0)

/-- The word that `vmx_set_eptp` writes. -/
def eptpValue (e : Eptp) : UInt64 :=
  UInt64.ofNat e.memoryType.toNat <<< 3 ||| (UInt64.ofNat e.pageWalkLength.toNat - 1) <<< 6 |||
    (if e.enableAccessedDirty then (1 : UInt64) else 0) <<< 6 |||
    (UInt64.ofNat e.pml4PhysicalAddress.toNat &&& 0xFFFFFFFFFF)

/-- The fields that are written before the EPT pointer, in order. -/
def controlFields (hv : Hypervisor) (u : Nexusvcpu) : List (VmcsField × UInt64) :=
  [(.pinBasedVmExecutionControls, (pinControls hv).toUInt64),
    (.primaryProcBasedVmExecControls, procControls.toUInt64),
    (.secondaryProcBasedVmExecControls, (proc2Controls hv).toUInt64),
    (.vmExitControls, (exitControls hv).toUInt64),
    (.vmEntryControls, entryControls.toUInt64),
    (.msrBitmapAddress, pointerValue u.msrBitmap),
    (.ioBitmapAAddress, pointerValue u.ioBitmapA),
    (.ioBitmapBAddress, pointerValue u.ioBitmapB)]

/-- The fields of the host and of the guest, in the order in which they are written. -/
def stateFields (r : HostRegs) (s : CpuState) : List (VmcsField × UInt64) :=
  [(.hostCr0, r.cr0), (.hostCr3, r.cr3), (.hostCr4, r.cr4),
    (.hostFsBase, r.fsBase), (.hostGsBase, r.gsBase),
    (.hostGdtrBase, r.gdtrBase), (.hostIdtrBase, r.idtrBase), (.hostTrBase, r.trBase),
    (.guestCr0, s.cr.cr0), (.guestCr3, s.cr.cr3), (.guestCr4, s.cr.cr4),
    (.guestRsp, s.gprs.rsp), (.guestRip, s.gprs.rip), (.guestRflags, s.gprs.rflags),
    (.guestEsSelector, s.es.selector.toUInt64), (.guestCsSelector, s.cs.selector.toUInt64),
    (.guestSsSelector, s.ss.selector.toUInt64), (.guestDsSelector, s.ds.selector.toUInt64),
    (.guestFsSelector, s.fs.selector.toUInt64), (.guestGsSelector, s.gs.selector.toUInt64),
    (.guestEsBase, s.es.base), (.guestCsBase, s.cs.base), (.guestSsBase, s.ss.base),
    (.guestDsBase, s.ds.base), (.guestFsBase, s.fs.base), (.guestGsBase, s.gs.base),
    (.guestActivityState, 0)]

/-- Write fields, one after the other. -/
def writeFields (fields : List (VmcsField × UInt64)) : VmxM Unit :=
  Prog.forEach (fun p => vmxVmwrite p.1 p.2) fields

/-- The VMWRITEs of `vmx_vcpu_setup`. -/
def writeVmcs (w : VmxWorld) (hv : Hypervisor) (u : Nexusvcpu) : VmxM Unit := do
  writeFields (controlFields hv u)
  Prog.when hv.hasEpt do
    let v ← onHost (getVm u.vm)
    Prog.when v.eptPointer.isSome (vmxVmwrite .eptPointer (eptpValue v.eptp))
  writeFields (stateFields w.hostRegs u.cpuState)

/-- `vmx_vcpu_setup`, with its instructions; no result of one is looked at. -/
def setupVmcs (w : VmxWorld) (c : Addr) : VmxM Result := do
  let u ← onHost (getVcpu c)
  if u.vmxOnRegion.isNone || u.vmxVmcsRegion.isNone then return .errInvalidParam
  let hv ← onHost getHv
  let _ ← vmxOn w c
  let _ ← vmxVmcsClear c
  writeVmcs w hv u
  let _ ← vmxVmcsClear c
  return .ok

/-! ## Handlers -/

/-- Go past the instruction that has been handled. -/
def advanceRip (w : VmxWorld) : VmxM Unit := do
  let rip ← vmxVmread w .guestRip
  let len ← vmxVmread w .vmExitInstructionLength
  vmxVmwrite .guestRip (rip + len)

/-- Change the general registers of a vCPU. -/
def modifyGprs (c : Addr) (f : GuestGprs → GuestGprs) : VmxM Unit := do
  let u ← onHost (getVcpu c)
  onHost (putVcpu c { u with cpuState := { u.cpuState with gprs := f u.cpuState.gprs } })

/-- `vmx_handle_interrupt` -/
def vmxHandleInterrupt (w : VmxWorld) : VmxM Result := do
  let _ ← vmxVmread w .vmExitInterruptionInfo
  return .ok

/-- `vmx_handle_cpuid` -/
def vmxHandleCpuid (w : VmxWorld) (c : Addr) : VmxM Result := do
  let u ← onHost (getVcpu c)
  let r := w.cpuid u.cpuState.gprs.rax.toUInt32 0
  modifyGprs c fun g => { g with
    rax := r.eax.toUInt64
    rbx := r.ebx.toUInt64
    rcx := r.ecx.toUInt64
    rdx := r.edx.toUInt64 }
  advanceRip w
  return .ok

/-- `vmx_handle_hlt` -/
def vmxHandleHlt (w : VmxWorld) : VmxM Result := do
  advanceRip w
  return .ok

/-- `vmx_handle_cr_access` -/
def vmxHandleCrAccess : VmxM Result := return .ok

/-- `vmx_handle_msr_read`; RDMSR leaves the low half of the register in RAX, which is all that is
looked at. -/
def vmxHandleMsrRead (w : VmxWorld) (c : Addr) : VmxM Result := do
  let u ← onHost (getVcpu c)
  let m ← get
  let value := m.msrs u.cpuState.gprs.rcx.toUInt32 &&& 0xFFFFFFFF
  modifyGprs c fun g => { g with rax := value &&& 0xFFFFFFFF, rdx := (value >>> 32) &&& 0xFFFFFFFF }
  advanceRip w
  return .ok

/-- `vmx_handle_msr_write` -/
def vmxHandleMsrWrite (w : VmxWorld) (c : Addr) : VmxM Result := do
  let u ← onHost (getVcpu c)
  let g := u.cpuState.gprs
  let value := g.rax ||| g.rdx <<< 32
  modify fun m => { m with msrs := Function.update m.msrs g.rcx.toUInt32 value }
  advanceRip w
  return .ok

/-- `vmx_handle_io`; the access itself is left open. -/
def vmxHandleIo (w : VmxWorld) : VmxM Result := do
  advanceRip w
  return .ok

/-- `vmx_handle_ept_violation` -/
def vmxHandleEptViolation (w : VmxWorld) (qual : UInt64) : VmxM Result := do
  let _ ← vmxVmread w .guestLinearAddress
  if bit64 qual 3 then return .errGeneric
  if !bit64 qual 7 then return .errGeneric
  return .ok

/-- The counters and flags of a vCPU, behind the pointers of its record at `c`, after bytes were stored from
`dest` on. -/
def Nexusvcpu.overwritten (u : Nexusvcpu) (c dest : Addr) (bytes : List UInt8) : Nexusvcpu :=
  { u with
    vmexitCount := Codec.u64.overlay u.vmexitCount (c + 736) dest bytes
    vmentryCount := Codec.u64.overlay u.vmentryCount (c + 744) dest bytes
    instructionCount := Codec.u64.overlay u.instructionCount (c + 752) dest bytes
    running := Codec.bool.overlay u.running (c + 768) dest bytes
    initialized := Codec.bool.overlay u.initialized (c + 769) dest bytes }

/-- `hypercall_handle` on the records: an address in RBX is one of memory that holds no record, or of that part
of the vCPU's own. -/
def Host.hypercallHandle (c : Addr) (params : HypercallParams) : HostM (Result × HypercallResult) := do
  let u ← getVcpu c
  if params.rax = HYPERCALL_VM_GET_INFO then
    let v ← getVm u.vm
    return (.ok, {
      ret0 := v.id.toUInt64
      ret1 := v.vcpuCount.toUInt64
      ret2 := v.memorySize
      ret3 := v.state.code.toUInt64 })
  else if params.rax = HYPERCALL_VCPU_GET_STATE then
    Prog.when (params.rbx ≠ 0) do
      writeRam params.rbx.toNat (cpuStateCodec.encode u.cpuState)
      putVcpu c (u.overwritten c params.rbx.toNat (cpuStateCodec.encode u.cpuState))
    return (.ok, {})
  else if params.rax = HYPERCALL_VCPU_SET_STATE then
    Prog.when (params.rbx ≠ 0) do
      let data ← readRam params.rbx.toNat sizeofCpuState
      putVcpu c { u with cpuState := cpuStateCodec.decode data }
    return (.ok, {})
  else if params.rax = HYPERCALL_VM_GET_STATISTICS then
    let v ← getVm u.vm
    return (.ok, { ret0 := v.uptimeNs, ret1 := v.vmexitCount, ret2 := v.totalRuntimeNs })
  else if params.rax = HYPERCALL_VCPU_GET_STATISTICS then
    return (.ok, { ret0 := u.vmexitCount, ret1 := u.vmentryCount, ret2 := u.instructionCount })
  else
    return (.errNotSupported, { status := .errNotSupported })

/-- `vmx_handle_vmcall` -/
def vmxHandleVmcall (w : VmxWorld) (c : Addr) : VmxM Result := do
  let u ← onHost (getVcpu c)
  let (status, result) ← onHost (Host.hypercallHandle c ⟨u.cpuState.gprs.rax, u.cpuState.gprs.rbx⟩)
  modifyGprs c fun g => { g with
    rax := result.ret0
    rbx := result.ret1
    rcx := result.ret2
    rdx := result.ret3 }
  advanceRip w
  return status

/-- `vmx_handle_rdtsc` -/
def vmxHandleRdtsc (w : VmxWorld) (c : Addr) : VmxM Result := do
  let m ← get
  let tsc := w.tsc m.entries
  modifyGprs c fun g => { g with rax := tsc &&& 0xFFFFFFFF, rdx := (tsc >>> 32) &&& 0xFFFFFFFF }
  advanceRip w
  return .ok

/-- `vmx_handle_invlpg` -/
def vmxHandleInvlpg (w : VmxWorld) : VmxM Result := do
  advanceRip w
  return .ok

/-- `vmx_handle_xsetbv` -/
def vmxHandleXsetbv (w : VmxWorld) (c : Addr) : VmxM Result := do
  let u ← onHost (getVcpu c)
  let g := u.cpuState.gprs
  let value := g.rax ||| g.rdx <<< 32
  Prog.when (g.rcx.toUInt32 = 0) (modify fun m => { m with xcr0 := value })
  advanceRip w
  return .ok

/-- Let the run loop of a vCPU end. -/
def stopRunning (c : Addr) : VmxM Unit := do
  let u ← onHost (getVcpu c)
  onHost (putVcpu c { u with running := false })

/-- `vmx_handle_machine_check` -/
def vmxHandleMachineCheck (c : Addr) : VmxM Result := do
  stopRunning c
  return .errGeneric

/-- `vmx_handle_task_switch` -/
def vmxHandleTaskSwitch : VmxM Result := return .errNotSupported

/-- `vmx_handle_vmexit` -/
def vmxHandleVmexit (w : VmxWorld) (c : Addr) (exitReason exitQual : UInt64) : VmxM Result :=
  match w.exitCodes.select (exitReason &&& 0xFFFF).toUInt16 with
  | .interrupt => vmxHandleInterrupt w
  | .cpuid => vmxHandleCpuid w c
  | .hlt => vmxHandleHlt w
  | .crAccess => vmxHandleCrAccess
  | .msrRead => vmxHandleMsrRead w c
  | .msrWrite => vmxHandleMsrWrite w c
  | .ioInstruction => vmxHandleIo w
  | .eptViolation => vmxHandleEptViolation w exitQual
  | .vmcall => vmxHandleVmcall w c
  | .vmxoff => do
    stopRunning c
    return .ok
  | .rdtsc => vmxHandleRdtsc w c
  | .invlpg => vmxHandleInvlpg w
  | .xsetbv => vmxHandleXsetbv w c
  | .machineCheck => vmxHandleMachineCheck c
  | .taskSwitch => vmxHandleTaskSwitch
  | .unhandled => return .errGeneric

/-! ## The run loop -/

/-- The guest has run until its next exit, which has changed the current VMCS. -/
def Machine.afterExit (w : VmxWorld) (m : Machine) : Machine :=
  let cpu := m.vmx.cpu
  let contents x := if cpu.current = some x then w.guest m.entries (cpu.contents x) else cpu.contents x
  { m with entries := m.entries + 1, vmx := { m.vmx with cpu := { cpu with contents := contents } } }

/-- Enter the guest; it runs where the instruction is accepted. -/
def enterGuest (w : VmxWorld) (i : Vmx.Instr VmcsField) : VmxM Unit := do
  let accepted ← instr i
  Prog.when (accepted = true) (modify (Machine.afterExit w))

/-- The instruction that enters the guest: it is chosen by the number of the vCPU. -/
def entryInstr (u : Nexusvcpu) : Vmx.Instr VmcsField :=
  if u.vcpuId = 0 then .vmlaunch else .vmresume

/-- The body of the loop of `vmx_vcpu_run`. -/
def runOnce (w : VmxWorld) (c : Addr) : VmxM Result := do
  let u ← onHost (getVcpu c)
  onHost (putVcpu c { u with vmentryCount := u.vmentryCount + 1 })
  enterGuest w (entryInstr u)
  let u ← onHost (getVcpu c)
  onHost (putVcpu c { u with vmexitCount := u.vmexitCount + 1 })
  let exitReason ← vmxVmread w .vmExitReason
  let exitQual ← vmxVmread w .vmExitQualification
  vmxHandleVmexit w c exitReason exitQual

/-- The loop of `vmx_vcpu_run` for up to `n` times; `none` if it has not ended by then. -/
def runLoop (w : VmxWorld) (c : Addr) : ℕ → VmxM (Option Result)
  | 0 => return none
  | n + 1 => do
    let u ← onHost (getVcpu c)
    if !u.running then return some .ok
    let result ← runOnce w c
    if result ≠ .ok then return some result
    runLoop w c n

/-- `vmx_vcpu_run`, its loop for up to `n` times. -/
def vmxVcpuRun (w : VmxWorld) (c : Addr) (n : ℕ) : VmxM (Option Result) := do
  let u ← onHost (getVcpu c)
  if u.vmxVmcsRegion.isNone then return some .errInvalidParam
  let _ ← vmxVmcsClear c
  runLoop w c n

/-! ## Calls -/

/-- The vendor setup in `vcpu_start`, with its instructions. -/
def setupVendor (w : VmxWorld) (c : Addr) : VmxM Result := do
  let hv ← onHost getHv
  match hv.cpuVendor with
  | .intel => setupVmcs w c
  | .amd => onHost (svmVcpuSetup c)
  | .unknown => return .errNotSupported

/-- `vcpu_start`, with the instructions it issues. -/
def startVcpu (w : VmxWorld) (c : Addr) : VmxM Result := do
  let u ← onHost (getVcpu c)
  if u.running then return .ok
  if !u.initialized then
    let result ← setupVendor w c
    if result ≠ .ok then return result
    onHost (do putVcpu c { ← getVcpu c with initialized := true })
  onHost (do putVcpu c { ← getVcpu c with running := true })
  let _ ← onHost (schedulerAddVcpu (some c))
  return .ok

/-- `vcpu_run` on an Intel processor, the loop for up to `n` times. -/
def vcpuRun (w : VmxWorld) (c : Addr) (n : ℕ) : VmxM (Option Result) := do
  let u ← onHost (getVcpu c)
  if !u.initialized then return some .errInvalidParam
  onHost (putVcpu c { u with vmentryCount := u.vmentryCount + 1 })
  vmxVcpuRun w c n

/-! ## Rules -/

section Rules

open Prog

variable {m : Machine} {h : Host}

@[simp] theorem wp_onHost {α : Type} {p : HostM α} {Q : α → Machine → Prop} :
    wp (onHost p) Q m ↔ wp p (fun a h => Q a (m.setHost h)) m.host := wp_zoom

@[simp] theorem Machine.setHost_self (m : Machine) : m.setHost m.host = m := rfl

@[simp] theorem wp_instr {i : Vmx.Instr VmcsField} {Q : Bool → Machine → Prop} :
    wp (instr i) Q m ↔ wp (Vmx.issue i) (fun b t => Q b (m.setVmx t)) m.vmx := wp_zoom

/-- The general registers of a vCPU are changed. -/
def Nexusvcpu.setGprs (u : Nexusvcpu) (g : GuestGprs) : Nexusvcpu :=
  { u with cpuState := { u.cpuState with gprs := g } }

@[simp] theorem Nexusvcpu.setGprs_vm (u : Nexusvcpu) (g : GuestGprs) : (u.setGprs g).vm = u.vm := rfl
@[simp] theorem Nexusvcpu.setGprs_gprs (u : Nexusvcpu) (g : GuestGprs) :
    (u.setGprs g).cpuState.gprs = g := rfl

@[simp] theorem wp_modifyGprs {c : Addr} {f : GuestGprs → GuestGprs} {Q : Unit → Machine → Prop} :
    wp (modifyGprs c f) Q m ↔ ∃ u, m.host.vcpus c = some u ∧
      Q () (m.setHost (m.host.setVcpu c (some (u.setGprs (f u.cpuState.gprs))))) := by
  rw [modifyGprs, wp_bind, wp_onHost, wp_getVcpu]
  refine exists_congr fun u => and_congr_right fun _ => ?_
  rw [wp_onHost, wp_putVcpu]
  rfl

/-! An instruction changes nothing of the program's state. -/

theorem instr_host (i : Vmx.Instr VmcsField) : Keeps (fun m => m.host = h) (instr i) := by
  intro m hm
  rw [wp_instr, Vmx.wp_issue]
  exact ⟨fun _ _ => hm, fun _ => hm⟩

theorem vmxVmread_host (w : VmxWorld) (f : VmcsField) :
    Keeps (fun m => m.host = h) (vmxVmread w f) := by
  refine (instr_host _).bind fun accepted => Keeps.get.bind fun m => ?_
  split <;> exact .pure _

theorem vmxVmwrite_host (f : VmcsField) (value : UInt64) :
    Keeps (fun m => m.host = h) (vmxVmwrite f value) := (instr_host _).discard

theorem writeFields_host (fields : List (VmcsField × UInt64)) :
    Keeps (fun m => m.host = h) (writeFields fields) :=
  .forEach fun p _ => vmxVmwrite_host p.1 p.2

theorem advanceRip_host (w : VmxWorld) : Keeps (fun m => m.host = h) (advanceRip w) :=
  (vmxVmread_host w _).bind fun _ => (vmxVmread_host w _).bind fun _ => vmxVmwrite_host _ _

theorem enterGuest_host (w : VmxWorld) (i : Vmx.Instr VmcsField) :
    Keeps (fun m => m.host = h) (enterGuest w i) :=
  (instr_host i).bind fun _ => (Keeps.modify (f := Machine.afterExit w) fun _ hm => hm).when

end Rules

/-! ## A processor outside VMX operation -/

/-- A processor that has just been switched on, and the program on it. -/
def bareMachine (h : Host) : Machine where
  host := h
  vmx := ⟨⟨none, fun _ => false, fun _ _ => 0⟩, []⟩
  entries := 0
  msrs _ := 0
  xcr0 := 0

/-- A world in which VMXON works and nothing else happens. -/
def bareWorld : VmxWorld where
  enters _ := true
  hostRegs := ⟨0, 0, 0, 0, 0, 0, 0, 0⟩
  encoding _ := 0
  exitCodes := ⟨64, 65, 53, 56, 57, 55, 42, 51, 39, 37, 58, 81, 80⟩
  guest _ contents := contents
  cpuid _ _ := {}
  tsc _ := 0

end NexusVM
