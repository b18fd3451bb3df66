import NexusVM.Vmx

/-!
# Nested virtualization

The functions of `nested/nested_virt.c` on which a vCPU's L2 mode depends.

* `NestedVmx`, `NestedSvm`, `L2State`: the records, and `NestedMachine`, the state with them;
* `nestedVmxEnable` … `nestedVmxHandleL2Vmexit`: nested VMX;
* `nestedSvmEnable`, `nestedSvmDisable`, `nestedSvmHandleVmrun`: nested SVM;
* `nestedSaveL2State`, `nestedRestoreL2State`, `nestedGetStatus`: saved states, and what is reported.
-/

namespace NexusVM

/-! ## Records -/

/-- `nested_vmx_t` -/
structure NestedVmx where
  vmcsLinkPointer : UInt64 := 0
  vmxonPointer : UInt64 := 0
  l1GuestMode : Bool := false
deriving DecidableEq

/-- `nested_svm_t` -/
structure NestedSvm where
  vmcb : UInt64 := 0
  nestedRunning : Bool := false
deriving DecidableEq

/-- `l2_state_t` -/
structure L2State where
  guestState : CpuState := {}
  vmexitReason : UInt64 := 0
  vmexitQualification : UInt64 := 0
  vmexitInstructionLen : UInt64 := 0
deriving DecidableEq

/-- The state with the records of nested virtualization. -/
structure NestedMachine where
  machine : Machine
  vmxs : Addr → Option NestedVmx
  svms : Addr → Option NestedSvm
  l2s : Addr → Option L2State

abbrev NestedM : Type → Type := Prog NestedMachine

namespace NestedMachine

def host (n : NestedMachine) : Host := n.machine.host

@[simps -fullyApplied]
def setMachine (n : NestedMachine) (m : Machine) : NestedMachine := { n with machine := m }

def setHost (n : NestedMachine) (h : Host) : NestedMachine := n.setMachine (n.machine.setHost h)

@[simps -fullyApplied]
def setVmx (n : NestedMachine) (a : Addr) (r : Option NestedVmx) : NestedMachine :=
  { n with vmxs := Function.update n.vmxs a r }

@[simps -fullyApplied]
def setSvm (n : NestedMachine) (a : Addr) (r : Option NestedSvm) : NestedMachine :=
  { n with svms := Function.update n.svms a r }

@[simps -fullyApplied]
def setL2 (n : NestedMachine) (a : Addr) (r : Option L2State) : NestedMachine :=
  { n with l2s := Function.update n.l2s a r }

end NestedMachine

def onMachine {α : Type} (x : VmxM α) : NestedM α :=
  Prog.zoom NestedMachine.machine NestedMachine.setMachine x

def onProgram {α : Type} (x : HostM α) : NestedM α := onMachine (onHost x)

def getNestedVmx (a : Addr) : NestedM NestedVmx := Prog.fetch fun n => n.vmxs a

def putNestedVmx (a : Addr) (r : NestedVmx) : NestedM Unit := modify fun n => n.setVmx a (some r)

def getNestedSvm (a : Addr) : NestedM NestedSvm := Prog.fetch fun n => n.svms a

def putNestedSvm (a : Addr) (r : NestedSvm) : NestedM Unit := modify fun n => n.setSvm a (some r)

/-- The VM of a vCPU. -/
def getOwner (c : Addr) : NestedM (Addr × Nexusvm) := do
  let u ← onProgram (getVcpu c)
  let v ← onProgram (getVm u.vm)
  return (u.vm, v)

/-! ## Nested VMX -/

/-- `vmx_alloc_vmcs_region` -/
def vmxAllocVmcsRegion : HostM (Except Result Addr) := do
  let hv ← getHv
  match ← onMem (alignedAlloc .vmcsRegion 4096 (vmxRegionSize hv)) with
  | none => return .error .errNoMemory
  | some region => return .ok region

/-- `nested_vmx_enable` -/
def nestedVmxEnable (vcpu : Option Addr) : NestedM Result :=
  match vcpu with
  | none => return .errInvalidParam
  | some c => do
    let hv ← onProgram getHv
    if hv.cpuVendor ≠ .intel then return .errNotSupported
    match ← onProgram (calloc .nestedVmx 1 sizeofNestedVmx) with
    | none => return .errNoMemory
    | some nested =>
      match ← onProgram vmxAllocVmcsRegion with
      | .error result =>
        onProgram (freeBuffer .nestedVmx (some nested))
        return result
      | .ok region =>
        putNestedVmx nested { vmcsLinkPointer := UInt64.ofNat region }
        let (a, v) ← getOwner c
        onProgram (putVm a { v with nestedVmx := some nested })
        return .ok

/-- `nested_vmx_disable` -/
def nestedVmxDisable (vcpu : Option Addr) : NestedM Unit :=
  match vcpu with
  | none => return ()
  | some c => do
    let (a, v) ← getOwner c
    match v.nestedVmx with
    | none => return ()
    | some nested =>
      let r ← getNestedVmx nested
      Prog.when (r.vmcsLinkPointer ≠ 0)
        (onProgram (freeBuffer .vmcsRegion (some r.vmcsLinkPointer.toNat)))
      onProgram (freeBuffer .nestedVmx (some nested))
      modify fun n => n.setVmx nested none
      onProgram (putVm a { v with nestedVmx := none })

/-- Change the nested VMX record of a vCPU's VM, if there is one. -/
def modifyNestedVmx (c : Addr) (f : NestedVmx → NestedVmx) : NestedM Unit := do
  let (_, v) ← getOwner c
  match v.nestedVmx with
  | none => return ()
  | some nested => putNestedVmx nested (f (← getNestedVmx nested))

/-- `vmx_vmentry` -/
def vmxVmentry (w : VmxWorld) : VmxM Result := do
  enterGuest w .vmlaunch
  return .ok

/-- `nested_vmx_handle_vmxon` -/
def nestedVmxHandleVmxon (vcpu : Option Addr) (vmxonRegion : UInt64) : NestedM Result :=
  match vcpu with
  | none => return .errInvalidParam
  | some c => do
    if vmxonRegion = 0 then return .errInvalidParam
    modifyNestedVmx c fun r => { r with vmxonPointer := vmxonRegion }
    return .ok

/-- `nested_vmx_handle_vmxoff` -/
def nestedVmxHandleVmxoff (vcpu : Option Addr) : NestedM Result :=
  match vcpu with
  | none => return .errInvalidParam
  | some c => do
    modifyNestedVmx c fun r => { r with vmxonPointer := 0, l1GuestMode := false }
    return .ok

/-- `nested_vmx_handle_vmlaunch` -/
def nestedVmxHandleVmlaunch (w : VmxWorld) (vcpu : Option Addr) : NestedM Result :=
  match vcpu with
  | none => return .errInvalidParam
  | some c => do
    modifyNestedVmx c fun r => { r with l1GuestMode := true }
    onMachine (vmxVmentry w)

/-- `nested_vmx_handle_vmresume` -/
def nestedVmxHandleVmresume (w : VmxWorld) (vcpu : Option Addr) : NestedM Result :=
  match vcpu with
  | none => return .errInvalidParam
  | some _ => onMachine (vmxVmentry w)

/-! ## Nested SVM -/

/-- `nested_svm_enable` -/
def nestedSvmEnable (vcpu : Option Addr) : NestedM Result :=
  match vcpu with
  | none => return .errInvalidParam
  | some c => do
    let hv ← onProgram getHv
    if hv.cpuVendor ≠ .amd then return .errNotSupported
    match ← onProgram (calloc .nestedSvm 1 sizeofNestedSvm) with
    | none => return .errNoMemory
    | some nested =>
      putNestedSvm nested {}
      let (a, v) ← getOwner c
      onProgram (putVm a { v with nestedSvm := some nested })
      return .ok

/-- `nested_svm_disable` -/
def nestedSvmDisable (vcpu : Option Addr) : NestedM Unit :=
  match vcpu with
  | none => return ()
  | some c => do
    let (a, v) ← getOwner c
    match v.nestedSvm with
    | none => return ()
    | some nested =>
      onProgram (freeBuffer .nestedSvm (some nested))
      modify fun n => n.setSvm nested none
      onProgram (putVm a { v with nestedSvm := none })

/-- `nested_svm_handle_vmrun` -/
def nestedSvmHandleVmrun (vcpu : Option Addr) (vmcbPa : UInt64) : NestedM Result :=
  match vcpu with
  | none => return .errInvalidParam
  | some c => do
    let (_, v) ← getOwner c
    match v.nestedSvm with
    | none => return .ok
    | some nested =>
      let _ ← getNestedSvm nested
      putNestedSvm nested { vmcb := vmcbPa, nestedRunning := true }
      return .ok

/-! ## L2 states -/

/-- The VMREADs of `nested_save_l2_state`. -/
def readL2State (w : VmxWorld) : VmxM L2State := do
  let rax ← vmxVmread w .guestRax
  let rbx ← vmxVmread w .guestRbx
  let rcx ← vmxVmread w .guestRcx
  let rdx ← vmxVmread w .guestRdx
  let rsi ← vmxVmread w .guestRsi
  let rdi ← vmxVmread w .guestRdi
  let rbp ← vmxVmread w .guestRbp
  let rsp ← vmxVmread w .guestRsp
  let rip ← vmxVmread w .guestRip
  let rflags ← vmxVmread w .guestRflags
  let cr0 ← vmxVmread w .guestCr0
  let cr2 ← vmxVmread w .guestCr2
  let cr3 ← vmxVmread w .guestCr3
  let cr4 ← vmxVmread w .guestCr4
  let reason ← vmxVmread w .vmExitReason
  let qualification ← vmxVmread w .vmExitQualification
  let len ← vmxVmread w .vmExitInstructionLength
  return {
    guestState := {
      gprs := { rax, rbx, rcx, rdx, rsi, rdi, rbp, rsp, rip, rflags }
      cr := { cr0, cr2, cr3, cr4 } }
    vmexitReason := reason
    vmexitQualification := qualification
    vmexitInstructionLen := len }

/-- The fields that `nested_restore_l2_state` writes, in order. -/
def l2Fields (s : CpuState) : List (VmcsField × UInt64) :=
  [(.guestRax, s.gprs.rax), (.guestRbx, s.gprs.rbx), (.guestRcx, s.gprs.rcx),
    (.guestRdx, s.gprs.rdx), (.guestRsi, s.gprs.rsi), (.guestRdi, s.gprs.rdi),
    (.guestRbp, s.gprs.rbp), (.guestRsp, s.gprs.rsp), (.guestRip, s.gprs.rip),
    (.guestRflags, s.gprs.rflags), (.guestCr0, s.cr.cr0), (.guestCr2, s.cr.cr2),
    (.guestCr3, s.cr.cr3), (.guestCr4, s.cr.cr4)]

/-- Store a word in the register that keeps the handle. -/
def setR12 (c : Addr) (r12 : UInt64) : VmxM Unit := modifyGprs c fun g => { g with r12 := r12 }

/-- `nested_save_l2_state` -/
def nestedSaveL2State (w : VmxWorld) (vcpu : Option Addr) : NestedM Result :=
  match vcpu with
  | none => return .errInvalidParam
  | some c => do
    let hv ← onProgram getHv
    let (_, v) ← getOwner c
    if hv.cpuVendor = .intel ∧ v.nestedVmx.isSome then
      match ← onProgram (calloc .l2State 1 sizeofL2State) with
      | none => return .errNoMemory
      | some l2 =>
        let s ← onMachine (readL2State w)
        modify fun n => n.setL2 l2 (some s)
        onMachine (setR12 c (UInt64.ofNat l2))
        return .ok
    return .ok

/-- `nested_restore_l2_state`; the state is read and given back through the handle. -/
def nestedRestoreL2State (vcpu : Option Addr) : NestedM Result :=
  match vcpu with
  | none => return .errInvalidParam
  | some c => do
    let hv ← onProgram getHv
    let (_, v) ← getOwner c
    if hv.cpuVendor = .intel ∧ v.nestedVmx.isSome then
      let u ← onProgram (getVcpu c)
      let l2 := u.cpuState.gprs.r12
      if l2 = 0 then return .errGeneric
      let s ← Prog.fetch fun n : NestedMachine => n.l2s l2.toNat
      onMachine (writeFields (l2Fields s.guestState))
      onProgram (freeBuffer .l2State (some l2.toNat))
      modify fun n => n.setL2 l2.toNat none
      onMachine (setR12 c 0)
      return .ok
    return .ok

/-- `nested_vmx_handle_l2_vmexit` -/
def nestedVmxHandleL2Vmexit (w : VmxWorld) (vcpu : Option Addr) : NestedM Result :=
  match vcpu with
  | none => return .errInvalidParam
  | some c => do
    let _ ← onMachine (vmxVmread w .vmExitReason)
    let _ ← onMachine (vmxVmread w .vmExitQualification)
    let _ ← nestedSaveL2State w (some c)
    return .ok

/-! ## Status -/

/-- `nested_get_status`: whether nested mode is on, and whether L2 runs. -/
def nestedGetStatus (c : Addr) : NestedM (Bool × Bool) := do
  let hv ← onProgram getHv
  match hv.cpuVendor with
  | .intel =>
    let (_, v) ← getOwner c
    match v.nestedVmx with
    | none => return (false, false)
    | some nested => return (true, (← getNestedVmx nested).l1GuestMode)
  | .amd =>
    let (_, v) ← getOwner c
    match v.nestedSvm with
    | none => return (false, false)
    | some nested => return (true, (← getNestedSvm nested).nestedRunning)
  | .unknown => return (false, false)

/-! ## Rules -/

section Rules

open Prog

variable {α : Type} {n : NestedMachine} {a c : Addr}

@[simp] theorem NestedMachine.setHost_self (n : NestedMachine) : n.setHost n.host = n := rfl
@[simp] theorem NestedMachine.setHost_host (n : NestedMachine) (h : Host) : (n.setHost h).host = h := rfl
@[simp] theorem NestedMachine.setHost_vmxs (n : NestedMachine) (h : Host) :
    (n.setHost h).vmxs = n.vmxs := rfl
@[simp] theorem NestedMachine.setHost_svms (n : NestedMachine) (h : Host) :
    (n.setHost h).svms = n.svms := rfl
@[simp] theorem NestedMachine.setHost_l2s (n : NestedMachine) (h : Host) :
    (n.setHost h).l2s = n.l2s := rfl
@[simp] theorem NestedMachine.setVmx_host (n : NestedMachine) (a : Addr) (r : Option NestedVmx) :
    (n.setVmx a r).host = n.host := rfl
@[simp] theorem NestedMachine.setSvm_host (n : NestedMachine) (a : Addr) (r : Option NestedSvm) :
    (n.setSvm a r).host = n.host := rfl
@[simp] theorem NestedMachine.setL2_host (n : NestedMachine) (a : Addr) (r : Option L2State) :
    (n.setL2 a r).host = n.host := rfl

@[simp] theorem wp_onMachine {x : VmxM α} {Q : α → NestedMachine → Prop} :
    wp (onMachine x) Q n ↔ wp x (fun b m => Q b (n.setMachine m)) n.machine := wp_zoom

@[simp] theorem wp_onProgram {x : HostM α} {Q : α → NestedMachine → Prop} :
    wp (onProgram x) Q n ↔ wp x (fun b h => Q b (n.setHost h)) n.host := by
  rw [onProgram, wp_onMachine, wp_onHost]
  rfl

@[simp] theorem wp_getOwner {Q : Addr × Nexusvm → NestedMachine → Prop} : wp (getOwner c) Q n ↔
    ∃ u, n.host.vcpus c = some u ∧ ∃ v, n.host.vms u.vm = some v ∧ Q (u.vm, v) n := by
  simp only [getOwner, wp_bind, wp_onProgram, wp_getVcpu, wp_getVm, wp_pure,
    NestedMachine.setHost_self]

@[simp] theorem wlp_onProgram {x : HostM α} {Q : α → NestedMachine → Prop} :
    wlp (onProgram x) Q n ↔ wlp x (fun b h => Q b (n.setHost h)) n.host := by
  rw [onProgram, onMachine, wlp_zoom, onHost, wlp_zoom]
  rfl

@[simp] theorem wlp_getOwner {Q : Addr × Nexusvm → NestedMachine → Prop} : wlp (getOwner c) Q n ↔
    ∀ u, n.host.vcpus c = some u → ∀ v, n.host.vms u.vm = some v → Q (u.vm, v) n := by
  simp only [getOwner, wlp_bind, wlp_onProgram, wlp_getVcpu, wlp_getVm, wlp_pure,
    NestedMachine.setHost_self]

@[simp] theorem wp_getNestedVmx {Q : NestedVmx → NestedMachine → Prop} :
    wp (getNestedVmx a) Q n ↔ ∃ r, n.vmxs a = some r ∧ Q r n := wp_fetch

@[simp] theorem wp_putNestedVmx {r : NestedVmx} {Q : Unit → NestedMachine → Prop} :
    wp (putNestedVmx a r) Q n ↔ Q () (n.setVmx a (some r)) := wp_modify _

@[simp] theorem wp_getNestedSvm {Q : NestedSvm → NestedMachine → Prop} :
    wp (getNestedSvm a) Q n ↔ ∃ r, n.svms a = some r ∧ Q r n := wp_fetch

@[simp] theorem wp_putNestedSvm {r : NestedSvm} {Q : Unit → NestedMachine → Prop} :
    wp (putNestedSvm a r) Q n ↔ Q () (n.setSvm a (some r)) := wp_modify _

theorem wp_onMachine_of_host {x : VmxM α} (hx : ∀ h, Keeps (fun m => m.host = h) x)
    {Q : α → NestedMachine → Prop} (hQ : ∀ b m, m.host = n.host → Q b (n.setMachine m)) :
    wp (onMachine x) Q n := by
  rw [wp_onMachine]
  exact wp_mono (hx n.host n.machine rfl) fun b m hm => hQ b m hm

theorem vmxAllocVmcsRegion_spec {h : Host} (hinit : h.gInitialized = true)
    {Q : Except Result Addr → Host → Prop}
    (hok : ∀ b, Q (.ok b) (h.grant ⟨.vmcsRegion, b, vmxRegionSize h.hv⟩))
    (herror : Q (.error .errNoMemory) h.refuse) : wp vmxAllocVmcsRegion Q h := by
  rw [vmxAllocVmcsRegion, wp_bind, wp_getHv]
  refine ⟨hinit, ?_⟩
  rw [wp_bind]
  refine wp_alignedAlloc (fun b _ => ?_) ?_
  · rw [wp_pure]
    exact hok b
  · rw [wp_pure]
    exact herror

theorem vmxVmentry_host (w : VmxWorld) (h : Host) : Keeps (fun m => m.host = h) (vmxVmentry w) :=
  (enterGuest_host w _).bind fun _ => .pure _

theorem readL2State_host (w : VmxWorld) (h : Host) : Keeps (fun m => m.host = h) (readL2State w) := by
  unfold readL2State
  repeat' refine (vmxVmread_host w _).bind fun _ => ?_
  exact .pure _

end Rules

/-- A VM at 1 with vCPUs at 2 and 3, of a vendor, without nested state. -/
def nestedStart (cpuVendor : CpuVendor) : NestedMachine where
  machine := bareMachine {
    bootHost 1 cpuVendor with
    vms := fun a => if a = 1 then some {} else none
    vcpus := fun a => if a = 2 then some { vm := 1 }
      else if a = 3 then some { vm := 1, vcpuId := 1 } else none }
  vmxs _ := none
  svms _ := none
  l2s _ := none

end NexusVM
