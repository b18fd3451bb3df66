import NexusVM.Effects
import NexusVM.Svm
import NexusVM.VmxLaunch

/-!
# What emulating an instruction leaves

The handlers of `vmx/vmx.c` that emulate an instruction of the guest: how far they go past it, and what
writing and reading an MSR gives back.

* `wp_vmxVmread_on`, `wp_vmxVmwrite_on`, `wp_advanceRip`: instructions on a current VMCS;
* `hypercallAnswer`, `Host.afterHypercall`, `hypercallHandle_spec`: a hypercall;
* `VmxExit.emulates`, `Advanced`, `Advances`: the exits that are emulated, and progress past one;
* **`emulation_progress_iff`**: which of them make progress;
* **`msr_round_trip_iff`**: when an MSR is read as it was written.
-/

namespace NexusVM

open Prog

variable {w : VmxWorld} {c x : Addr} {m m' : Machine} {u : Nexusvcpu} {v : Nexusvm} {h : Host}

/-! ## Instructions on a current VMCS -/

/-- An instruction has been accepted, with this effect on the processor. -/
def Machine.issued (m : Machine) (cpu : Vmx.Cpu VmcsField) (i : Vmx.Instr VmcsField) : Machine :=
  m.setVmx ⟨cpu, m.vmx.issued ++ [(i, true)]⟩

theorem wp_instr_of_step {i : Vmx.Instr VmcsField} {cpu : Vmx.Cpu VmcsField} {Q : Bool → Machine → Prop}
    (hstep : m.vmx.cpu.step i = some cpu) : wp (instr i) Q m ↔ Q true (m.issued cpu i) := by
  rw [wp_instr, Vmx.wp_issue, hstep]
  constructor
  · exact fun hq => hq.1 cpu rfl
  · intro hq
    refine ⟨fun cpu' he => ?_, by simp⟩
    cases he
    exact hq

theorem wp_vmxVmread_on (hx : m.vmx.cpu.current = some x) {f : VmcsField} {Q : UInt64 → Machine → Prop} :
    wp (vmxVmread w f) Q m ↔ Q (m.vmx.cpu.contents x f) (m.issued m.vmx.cpu (.vmread f)) := by
  have hstep : m.vmx.cpu.step (.vmread f) = some m.vmx.cpu := by
    rw [Vmx.Cpu.step, hx, Option.map_some]
  rw [vmxVmread, wp_bind, wp_instr_of_step hstep, wp_bind, wp_get]
  simp only [Machine.issued, Machine.setVmx, hx, wp_pure]

theorem wp_vmxVmwrite_on (hx : m.vmx.cpu.current = some x) {f : VmcsField} {value : UInt64}
    {Q : Unit → Machine → Prop} : wp (vmxVmwrite f value) Q m ↔
      Q () (m.issued (m.vmx.cpu.store x f value) (.vmwrite f value)) := by
  have hstep : m.vmx.cpu.step (.vmwrite f value) = some (m.vmx.cpu.store x f value) := by
    rw [Vmx.Cpu.step, hx, Option.map_some]
  rw [vmxVmwrite, wp_discard, wp_instr_of_step hstep]

/-- Where the instruction behind the one that has been handled begins. -/
def Machine.nextRip (m : Machine) (x : Addr) : UInt64 :=
  m.vmx.cpu.contents x .guestRip + m.vmx.cpu.contents x .vmExitInstructionLength

/-- The guest is behind the instruction. -/
def Machine.advance (m : Machine) (x : Addr) : Machine :=
  ((m.issued m.vmx.cpu (.vmread .guestRip)).issued m.vmx.cpu (.vmread .vmExitInstructionLength)).issued
    (m.vmx.cpu.store x .guestRip (m.nextRip x)) (.vmwrite .guestRip (m.nextRip x))

@[simp] theorem Machine.advance_host (m : Machine) (x : Addr) : (m.advance x).host = m.host := rfl
@[simp] theorem Machine.advance_msrs (m : Machine) (x : Addr) : (m.advance x).msrs = m.msrs := rfl

theorem wp_advanceRip (hx : m.vmx.cpu.current = some x) {Q : Unit → Machine → Prop} :
    wp (advanceRip w) Q m ↔ Q () (m.advance x) := by
  have hrip : (m.issued m.vmx.cpu (.vmread .guestRip)).vmx.cpu.current = some x := hx
  have hlen : ((m.issued m.vmx.cpu (.vmread .guestRip)).issued m.vmx.cpu
      (.vmread .vmExitInstructionLength)).vmx.cpu.current = some x := hx
  rw [advanceRip, wp_bind, wp_vmxVmread_on hx, wp_bind, wp_vmxVmread_on hrip]
  exact wp_vmxVmwrite_on hlen

theorem wp_advanceRip_bind (hx : m.vmx.cpu.current = some x) {status : Result}
    {Q : Result → Machine → Prop} :
    wp (advanceRip w >>= fun _ => pure status) Q m ↔ Q status (m.advance x) := by
  rw [wp_bind, wp_advanceRip hx, wp_pure]

/-! ## Hypercalls -/

/-- What a hypercall answers. -/
def hypercallAnswer (u : Nexusvcpu) (v : Nexusvm) (callNumber : UInt64) : Result × HypercallResult :=
  if callNumber = HYPERCALL_VM_GET_INFO then
    (.ok, {
      ret0 := v.id.toUInt64
      ret1 := v.vcpuCount.toUInt64
      ret2 := v.memorySize
      ret3 := v.state.code.toUInt64 })
  else if callNumber = HYPERCALL_VCPU_GET_STATE ∨ callNumber = HYPERCALL_VCPU_SET_STATE then (.ok, {})
  else if callNumber = HYPERCALL_VM_GET_STATISTICS then
    (.ok, { ret0 := v.uptimeNs, ret1 := v.vmexitCount, ret2 := v.totalRuntimeNs })
  else if callNumber = HYPERCALL_VCPU_GET_STATISTICS then
    (.ok, { ret0 := u.vmexitCount, ret1 := u.vmentryCount, ret2 := u.instructionCount })
  else (.errNotSupported, { status := .errNotSupported })

/-- The state of a vCPU that lies in memory. -/
def PhysMem.stateAt (m : PhysMem) (a : Addr) : CpuState := cpuStateCodec.decode (m.bytesAt a sizeofCpuState)

/-- The vCPU after a hypercall: RBX may be the address of its new state, or one in its record. -/
def Nexusvcpu.afterHypercall (u : Nexusvcpu) (c : Addr) (m : PhysMem) (params : HypercallParams) : Nexusvcpu :=
  if params.rax = HYPERCALL_VCPU_GET_STATE ∧ params.rbx ≠ 0
  then u.overwritten c params.rbx.toNat (cpuStateCodec.encode u.cpuState)
  else if params.rax = HYPERCALL_VCPU_SET_STATE ∧ params.rbx ≠ 0
  then { u with cpuState := m.stateAt params.rbx.toNat } else u

/-- Memory after a hypercall: RBX may be the address for the state. -/
def PhysMem.afterHypercall (m : PhysMem) (u : Nexusvcpu) (params : HypercallParams) : PhysMem :=
  if params.rax = HYPERCALL_VCPU_GET_STATE ∧ params.rbx ≠ 0
  then m.putRam params.rbx.toNat (cpuStateCodec.encode u.cpuState) else m

/-- The host after a hypercall. -/
def Host.afterHypercall (h : Host) (c : Addr) (u : Nexusvcpu) (params : HypercallParams) : Host :=
  (h.setMem (h.mem.afterHypercall u params)).setVcpu c (some (u.afterHypercall c h.mem params))

theorem Host.afterHypercall_self {params : HypercallParams} (hu : h.vcpus c = some u)
    (hget : params.rax = HYPERCALL_VCPU_GET_STATE → params.rbx = 0)
    (hset : params.rax = HYPERCALL_VCPU_SET_STATE → params.rbx = 0) :
    h.afterHypercall c u params = h := by
  unfold afterHypercall Nexusvcpu.afterHypercall PhysMem.afterHypercall
  rw [if_neg fun hc => hc.2 (hget hc.1), if_neg fun hc => hc.2 (hget hc.1), if_neg fun hc => hc.2 (hset hc.1)]
  exact setVcpu_of_eq hu

/-- What a hypercall answers, and what it changes. -/
def HypercallDone (h : Host) (c : Addr) (u : Nexusvcpu) (v : Nexusvm) (params : HypercallParams)
    (r : Result × HypercallResult) (h' : Host) : Prop :=
  r = hypercallAnswer u v params.rax ∧ h' = h.afterHypercall c u params

theorem hypercallHandle_get {params : HypercallParams} (hu : h.vcpus c = some u)
    (hget : params.rax = HYPERCALL_VCPU_GET_STATE) :
    wp (Host.hypercallHandle c params) (HypercallDone h c u v params) h := by
  have hinfo : params.rax ≠ HYPERCALL_VM_GET_INFO := by rw [hget]; decide
  have hset : params.rax ≠ HYPERCALL_VCPU_SET_STATE := by rw [hget]; decide
  have hanswer : hypercallAnswer u v params.rax = (.ok, {}) := by
    rw [hypercallAnswer, if_neg hinfo, if_pos (.inl hget)]
  rw [Host.hypercallHandle, wp_bind, wp_getVcpu]
  refine ⟨u, hu, ?_⟩
  rw [if_neg hinfo, if_pos hget, wp_bind, wp_when]
  refine ⟨fun hrbx => ?_, fun hrbx => ?_⟩
  · rw [wp_bind, writeRam, wp_modify, wp_putVcpu, wp_pure, HypercallDone, hanswer, Host.afterHypercall,
      PhysMem.afterHypercall, Nexusvcpu.afterHypercall, if_pos ⟨hget, hrbx⟩, if_pos ⟨hget, hrbx⟩]
    exact ⟨rfl, rfl⟩
  · have hsame : h.afterHypercall c u params = h :=
      h.afterHypercall_self hu (fun _ => not_not.mp hrbx) fun hc => absurd hc hset
    rw [wp_pure, HypercallDone, hanswer, hsame]
    exact ⟨rfl, rfl⟩

theorem hypercallHandle_set {params : HypercallParams} (hu : h.vcpus c = some u)
    (hset : params.rax = HYPERCALL_VCPU_SET_STATE) :
    wp (Host.hypercallHandle c params) (HypercallDone h c u v params) h := by
  have hinfo : params.rax ≠ HYPERCALL_VM_GET_INFO := by rw [hset]; decide
  have hget : params.rax ≠ HYPERCALL_VCPU_GET_STATE := by rw [hset]; decide
  have hanswer : hypercallAnswer u v params.rax = (.ok, {}) := by
    rw [hypercallAnswer, if_neg hinfo, if_pos (.inr hset)]
  rw [Host.hypercallHandle, wp_bind, wp_getVcpu]
  refine ⟨u, hu, ?_⟩
  rw [if_neg hinfo, if_neg hget, if_pos hset, wp_bind, wp_when]
  refine ⟨fun hrbx => ?_, fun hrbx => ?_⟩
  · rw [wp_bind, readRam, wp_bind, wp_get, wp_pure, wp_putVcpu, wp_pure, HypercallDone, hanswer,
      Host.afterHypercall, PhysMem.afterHypercall, Nexusvcpu.afterHypercall, if_neg fun hc => hget hc.1,
      if_neg fun hc => hget hc.1, if_pos ⟨hset, hrbx⟩]
    exact ⟨rfl, rfl⟩
  · have hsame : h.afterHypercall c u params = h :=
      h.afterHypercall_self hu (fun hc => absurd hc hget) fun _ => not_not.mp hrbx
    rw [wp_pure, HypercallDone, hanswer, hsame]
    exact ⟨rfl, rfl⟩

/-- **A hypercall** answers, and changes what it is to change. -/
theorem hypercallHandle_spec {params : HypercallParams} (hu : h.vcpus c = some u)
    (hv : h.vms u.vm = some v) : wp (Host.hypercallHandle c params) (fun r h' =>
      r = hypercallAnswer u v params.rax ∧ h' = h.afterHypercall c u params) h := by
  by_cases hget : params.rax = HYPERCALL_VCPU_GET_STATE
  · exact hypercallHandle_get hu hget
  by_cases hset : params.rax = HYPERCALL_VCPU_SET_STATE
  · exact hypercallHandle_set hu hset
  -- the other calls change nothing
  have hsame : h.afterHypercall c u params = h :=
    h.afterHypercall_self hu (fun hc => absurd hc hget) fun hc => absurd hc hset
  rw [Host.hypercallHandle, wp_bind, wp_getVcpu]
  refine ⟨u, hu, ?_⟩
  rw [if_neg hget, if_neg hset, hsame, hypercallAnswer, if_neg (not_or.mpr ⟨hget, hset⟩)]
  split_ifs
  · rw [wp_bind, wp_getVm]
    refine ⟨v, hv, ?_⟩
    rw [wp_pure]
    exact ⟨rfl, rfl⟩
  · rw [wp_bind, wp_getVm]
    refine ⟨v, hv, ?_⟩
    rw [wp_pure]
    exact ⟨rfl, rfl⟩
  · rw [wp_pure]
    exact ⟨rfl, rfl⟩
  · rw [wp_pure]
    exact ⟨rfl, rfl⟩

/-! ## Progress -/

/-- The exits that are handled as an instruction to emulate. -/
def VmxExit.emulates : VmxExit → Bool
  | .cpuid | .hlt | .crAccess | .msrRead | .msrWrite | .ioInstruction | .vmcall | .rdtsc | .invlpg
  | .xsetbv => true
  | _ => false

/-- RIP of the current VMCS has been advanced by the length of the instruction, once. -/
structure Advanced (x : Addr) (m m' : Machine) : Prop where
  rip : m'.vmx.cpu.contents x .guestRip = m.nextRip x
  once : m'.vmx.written .guestRip = m.vmx.written .guestRip ++ [m.nextRip x]

/-- All that the handler does to the processor is to go past the instruction. -/
def Advances (x : Addr) (p : VmxM Result) (m : Machine) : Prop :=
  wp p (fun _ m' => ∃ m₀ : Machine, m₀.vmx = m.vmx ∧ m' = m₀.advance x) m

theorem advance_advanced {m₀ : Machine} (h : m₀.vmx = m.vmx) : Advanced x m (m₀.advance x) := by
  have hnext : m₀.nextRip x = m.nextRip x := by rw [Machine.nextRip, Machine.nextRip, h]
  constructor
  · change Function.update m₀.vmx.cpu.contents x (Function.update (m₀.vmx.cpu.contents x) .guestRip
      (m₀.nextRip x)) x .guestRip = m.nextRip x
    rw [Function.update_self, Function.update_self, hnext]
  · rw [← hnext, ← h]
    simp [Machine.advance, Machine.issued, Machine.setVmx, Vmx.Traced.written]

section Handlers

variable {status : Result} (hx : m.vmx.cpu.current = some x)
include hx

theorem advanceRip_advances {m₀ : Machine} (h : m₀.vmx = m.vmx) :
    wp (advanceRip w >>= fun _ => pure status)
      (fun _ m' => ∃ m₀ : Machine, m₀.vmx = m.vmx ∧ m' = m₀.advance x) m₀ := by
  rw [wp_advanceRip_bind (h ▸ hx)]
  exact ⟨m₀, h, rfl⟩

theorem modifyGprs_advances {m₀ : Machine} {f : GuestGprs → GuestGprs} (h : m₀.vmx = m.vmx)
    (hu : m₀.host.vcpus c = some u) : wp (modifyGprs c f >>= fun _ => advanceRip w >>= fun _ => pure status)
      (fun _ m' => ∃ m₀ : Machine, m₀.vmx = m.vmx ∧ m' = m₀.advance x) m₀ := by
  rw [wp_bind, wp_modifyGprs]
  exact ⟨u, hu, advanceRip_advances hx h⟩

theorem vmxHandleCpuid_advances (hu : m.host.vcpus c = some u) : Advances x (vmxHandleCpuid w c) m := by
  rw [Advances, vmxHandleCpuid, wp_bind, wp_onHost, wp_getVcpu]
  exact ⟨u, hu, modifyGprs_advances hx rfl hu⟩

theorem vmxHandleMsrRead_advances (hu : m.host.vcpus c = some u) :
    Advances x (vmxHandleMsrRead w c) m := by
  rw [Advances, vmxHandleMsrRead, wp_bind, wp_onHost, wp_getVcpu]
  refine ⟨u, hu, ?_⟩
  rw [wp_bind, wp_get]
  exact modifyGprs_advances hx rfl hu

theorem vmxHandleMsrWrite_advances (hu : m.host.vcpus c = some u) :
    Advances x (vmxHandleMsrWrite w c) m := by
  rw [Advances, vmxHandleMsrWrite, wp_bind, wp_onHost, wp_getVcpu]
  refine ⟨u, hu, ?_⟩
  rw [wp_bind, wp_modify]
  exact advanceRip_advances hx rfl

theorem vmxHandleVmcall_advances (hu : m.host.vcpus c = some u) (hv : m.host.vms u.vm = some v) :
    Advances x (vmxHandleVmcall w c) m := by
  rw [Advances, vmxHandleVmcall, wp_bind, wp_onHost, wp_getVcpu]
  refine ⟨u, hu, ?_⟩
  rw [wp_bind, wp_onHost]
  refine wp_mono (hypercallHandle_spec hu hv) ?_
  rintro _ _ ⟨rfl, rfl⟩
  exact modifyGprs_advances hx rfl (Function.update_self _ _ _)

theorem vmxHandleRdtsc_advances (hu : m.host.vcpus c = some u) : Advances x (vmxHandleRdtsc w c) m := by
  rw [Advances, vmxHandleRdtsc, wp_bind, wp_get]
  exact modifyGprs_advances hx rfl hu

theorem vmxHandleXsetbv_advances (hu : m.host.vcpus c = some u) :
    Advances x (vmxHandleXsetbv w c) m := by
  rw [Advances, vmxHandleXsetbv, wp_bind, wp_onHost, wp_getVcpu]
  refine ⟨u, hu, ?_⟩
  rw [wp_bind, wp_when]
  refine ⟨fun _ => ?_, fun _ => advanceRip_advances hx rfl⟩
  rw [wp_modify]
  exact advanceRip_advances hx rfl

end Handlers

/-- **Progress.** Of the exits that are handled as an instruction to emulate, each has its RIP advanced
once by the length of the instruction, but for an access to a control register: that is entered again. -/
theorem emulation_progress_iff {exitReason exitQual : UInt64} (hx : m.vmx.cpu.current = some x)
    (hu : HasVcpu m.host c u)
    (hexit : (w.exitCodes.select (exitReason &&& 0xFFFF).toUInt16).emulates = true) :
    wp (vmxHandleVmexit w c exitReason exitQual) (fun r m' => r = .ok → Advanced x m m') m ↔
      w.exitCodes.select (exitReason &&& 0xFFFF).toUInt16 ≠ .crAccess := by
  obtain ⟨hvcpu, hvm⟩ := hu
  obtain ⟨v, hv⟩ := Option.ne_none_iff_exists'.mp hvm
  have hdone : ∀ {p : VmxM Result}, Advances x p m → wp p (fun r m' => r = .ok → Advanced x m m') m := by
    intro p hp
    refine wp_mono hp ?_
    rintro r _ ⟨m₀, h₀, rfl⟩ -
    exact advance_advanced h₀
  rw [vmxHandleVmexit]
  generalize w.exitCodes.select (exitReason &&& 0xFFFF).toUInt16 = exit at hexit
  cases exit with
  | cpuid => exact iff_of_true (hdone (vmxHandleCpuid_advances hx hvcpu)) (by simp)
  | hlt => exact iff_of_true (hdone (advanceRip_advances hx rfl)) (by simp)
  | crAccess =>
    refine iff_of_false (fun h => ?_) (by simp)
    -- nothing has been written
    rw [vmxHandleCrAccess, wp_pure] at h
    have honce := (h rfl).once
    simp at honce
  | msrRead => exact iff_of_true (hdone (vmxHandleMsrRead_advances hx hvcpu)) (by simp)
  | msrWrite => exact iff_of_true (hdone (vmxHandleMsrWrite_advances hx hvcpu)) (by simp)
  | ioInstruction => exact iff_of_true (hdone (advanceRip_advances hx rfl)) (by simp)
  | vmcall => exact iff_of_true (hdone (vmxHandleVmcall_advances hx hvcpu hv)) (by simp)
  | rdtsc => exact iff_of_true (hdone (vmxHandleRdtsc_advances hx hvcpu)) (by simp)
  | invlpg => exact iff_of_true (hdone (advanceRip_advances hx rfl)) (by simp)
  | xsetbv => exact iff_of_true (hdone (vmxHandleXsetbv_advances hx hvcpu)) (by simp)
  | interrupt | eptViolation | vmxoff | machineCheck | taskSwitch | unhandled => cases hexit

/-! ## MSRs -/

theorem low_of_or_shift (x y : UInt64) : (x ||| y <<< 32) &&& 0xFFFFFFFF = x &&& 0xFFFFFFFF := by
  apply UInt64.toNat_inj.mp
  rw [UInt64.toNat_and, UInt64.toNat_and, show (0xFFFFFFFF : UInt64).toNat = 2 ^ 32 - 1 from rfl,
    Nat.and_two_pow_sub_one_eq_mod, Nat.and_two_pow_sub_one_eq_mod, UInt64.toNat_or, Nat.or_mod_two_pow,
    UInt64.toNat_shiftLeft, show (32 : UInt64).toNat % 64 = 32 from rfl, Nat.shiftLeft_eq]
  have hzero : y.toNat * 2 ^ 32 % 2 ^ 64 % 2 ^ 32 = 0 := by omega
  rw [hzero, Nat.or_zero]

theorem exists_of_left {r : MainRegs} {f : UInt32 → UInt64} (h : LeftOnVmx c r f m) :
    ∃ u', m.host.vcpus c = some u' ∧ u'.cpuState.gprs.main = r :=
  Option.map_eq_some_iff.mp h.1

/-- **Writing an MSR and reading it** gives back RAX and RDX without their upper halves just if the lower
half of RDX is zero: a read loses the upper half of the MSR. -/
theorem msr_round_trip_iff (hu : m.host.vcpus c = some u) :
    wp (vmxHandleMsrWrite w c >>= fun _ => vmxHandleMsrRead w c) (fun _ m' => ∃ u',
      m'.host.vcpus c = some u' ∧
        u'.cpuState.gprs.rax.toNat = u.cpuState.gprs.rax.toNat % 2 ^ 32 ∧
        u'.cpuState.gprs.rdx.toNat = u.cpuState.gprs.rdx.toNat % 2 ^ 32) m ↔
      u.cpuState.gprs.rdx.toNat % 2 ^ 32 = 0 := by
  have hrun : wp (vmxHandleMsrWrite w c >>= fun _ => vmxHandleMsrRead w c) (fun _ m' => ∃ f,
      LeftOnVmx c { u.cpuState.gprs.main with rax := u.cpuState.gprs.rax &&& 0xFFFFFFFF, rdx := 0 } f
        m') m := by
    rw [wp_bind]
    refine wp_mono (vmxHandleMsrWrite_left hu) fun _ m₁ hleft => ?_
    obtain ⟨u₁, hu₁, hmain⟩ := exists_of_left hleft
    have hrcx : u₁.cpuState.gprs.rcx = u.cpuState.gprs.rcx := congrArg MainRegs.rcx hmain
    refine wp_mono (vmxHandleMsrRead_left hu₁) fun _ m₂ hleft₂ => ?_
    rw [hmain, hrcx, hleft.2, Function.update_self, low_of_or_shift] at hleft₂
    exact ⟨_, hleft₂⟩
  obtain ⟨_, m₂, hrun₂, f, hleft⟩ := hrun
  obtain ⟨u₂, hu₂, hmain⟩ := exists_of_left hleft
  have hrax : u₂.cpuState.gprs.rax.toNat = u.cpuState.gprs.rax.toNat % 2 ^ 32 := by
    rw [show u₂.cpuState.gprs.rax = _ from congrArg MainRegs.rax hmain, UInt64.toNat_and]
    exact Nat.and_two_pow_sub_one_eq_mod _ 32
  have hrdx : u₂.cpuState.gprs.rdx = 0 := congrArg MainRegs.rdx hmain
  constructor
  · intro h
    obtain ⟨u', hu', -, hsame⟩ := wp_run h hrun₂
    obtain rfl : u₂ = u' := Option.some.inj (hu₂.symm.trans hu')
    rw [← hsame, hrdx, UInt64.toNat_zero]
  · intro hzero
    exact wp_of_run hrun₂ ⟨u₂, hu₂, hrax, by rw [hrdx, hzero, UInt64.toNat_zero]⟩

/-! ## A guest that has left -/

/-- A VMCS of a guest whose instruction at 0x1000 takes two bytes. -/
def exitedVmcs : VmcsField → UInt64
  | .guestRip => 0x1000
  | .vmExitInstructionLength => 2
  | _ => 0

/-- A vCPU that runs on an Intel host, and its VMCS. -/
def exitedMachine (g : GuestGprs) : Machine := {
  bareMachine (((bootHost 1 .intel).setVcpu 16384 (some {
    vm := 8192, running := true, vmxVmcsRegion := some 12288, cpuState := { gprs := g } })).setVm 8192
      (some { vcpus := [16384], vcpuCount := 1 })) with
  vmx := ⟨⟨some 12288, fun _ => false, fun _ => exitedVmcs⟩, []⟩ }

/-- Its vCPU. -/
def exitedVcpu (g : GuestGprs) : Nexusvcpu where
  vm := 8192
  running := true
  vmxVmcsRegion := some 12288
  cpuState := { gprs := g }

theorem hasVcpu_exitedMachine (g : GuestGprs) : HasVcpu (exitedMachine g).host 16384 (exitedVcpu g) :=
  ⟨rfl, by simp [exitedMachine, bareMachine, exitedVcpu, Host.setVm]⟩

theorem msr_round_trip_iff_sysenter : wp (vmxHandleMsrWrite bareWorld 16384 >>= fun _ =>
      vmxHandleMsrRead bareWorld 16384) (fun _ m' => ∃ u', m'.host.vcpus 16384 = some u' ∧
        u'.cpuState.gprs.rax.toNat = (0xFFFFFFFF00000005 : UInt64).toNat % 2 ^ 32 ∧
        u'.cpuState.gprs.rdx.toNat = (0x700000000 : UInt64).toNat % 2 ^ 32)
      (exitedMachine { rax := 0xFFFFFFFF00000005, rcx := 0x174, rdx := 0x700000000 }) :=
  (msr_round_trip_iff (u := exitedVcpu { rax := 0xFFFFFFFF00000005, rcx := 0x174, rdx := 0x700000000 })
    rfl).mpr (by decide)

/-- A guest that is about to set where its system calls enter. -/
def lstarGprs : GuestGprs := { rax := 0x81000000, rcx := 0xC0000082, rdx := 0xFFFFFFFF }

/-- **The upper half of where system calls enter is lost.** -/
theorem lstar_loses_high_half : (exitedMachine lstarGprs).host.vcpus 16384 = some (exitedVcpu lstarGprs) ∧
    wp (vmxHandleMsrWrite bareWorld 16384 >>= fun _ => vmxHandleMsrRead bareWorld 16384) (fun _ m' =>
      ∃ u', m'.host.vcpus 16384 = some u' ∧ u'.cpuState.gprs.rax = 0x81000000 ∧
        u'.cpuState.gprs.rdx = 0)
      (exitedMachine lstarGprs) ∧
    lstarGprs.rdx.toNat % 2 ^ 32 ≠ 0 := by
  refine ⟨rfl, ?_, by decide⟩
  have hany : ((vmxHandleMsrWrite bareWorld 16384 >>= fun _ => vmxHandleMsrRead bareWorld 16384).run
      (exitedMachine lstarGprs)).any (fun p =>
        (p.2.host.vcpus 16384).any fun u => u.cpuState.gprs.rax = 0x81000000 &&
          u.cpuState.gprs.rdx = 0) = true := by decide +kernel
  obtain ⟨⟨r, m'⟩, hrun, hu⟩ := (Option.any_eq_true _ _).mp hany
  obtain ⟨u, hu, hregs⟩ := (Option.any_eq_true _ _).mp hu
  rw [Bool.and_eq_true, decide_eq_true_eq, decide_eq_true_eq] at hregs
  exact ⟨r, m', hrun, u, hu, hregs⟩

theorem emulation_progress_iff_cpuid : wp (vmxHandleVmexit bareWorld 16384 64 0) (fun r m' => r = .ok →
    Advanced 12288 (exitedMachine {}) m') (exitedMachine {}) :=
  Iff.mpr (emulation_progress_iff rfl (hasVcpu_exitedMachine {}) (by decide)) (by decide)

/-- **A guest that writes CR0 stays there.** -/
theorem cr_access_entered_again : HasVcpu (exitedMachine {}).host 16384 (exitedVcpu {}) ∧
    bareWorld.exitCodes.select ((53 : UInt64) &&& 0xFFFF).toUInt16 = .crAccess ∧
    ¬ wp (vmxHandleVmexit bareWorld 16384 53 0) (fun r m' => r = .ok →
      Advanced 12288 (exitedMachine {}) m') (exitedMachine {}) := by
  refine ⟨hasVcpu_exitedMachine {}, by decide, ?_⟩
  rw [show vmxHandleVmexit bareWorld 16384 53 0 = vmxHandleCrAccess from rfl, vmxHandleCrAccess, wp_pure]
  intro h
  have honce := (h rfl).once
  simp at honce

end NexusVM
