import NexusVM.Emulation

/-!
# What a VMCALL leaves

`vmx_handle_vmcall` puts the results of a hypercall into the registers of the vCPU after the call, and
hands its status to the run loop.

* `HypercallResult.load`, `Nexusvcpu.afterVmcall`, `vmxHandleVmcall_spec`: the vCPU after a VMCALL;
* `SetStateTakes`, **`set_state_iff`**: when a state set by hypercall is the state of the vCPU;
* `Supported`, `Informs`, `hypercallAnswer_status`, `hypercallAnswer_silent_iff`: what a call answers;
* `ArgumentInside`, `SparesRunning`: where a call takes a state from or puts it, and what that leaves of the
  flag that the loop looks at;
* `AtVmcall`, `KeepsRunning`, `Tells`: a VMCALL in the run loop, and telling two calls apart;
* **`vmcall_status_iff`**: when the loop goes on, and when the registers tell the status.
-/

namespace NexusVM

open Prog

variable {w : VmxWorld} {c x : Addr} {m m' : Machine} {u : Nexusvcpu} {v : Nexusvm}

/-! ## The vCPU after a VMCALL -/

/-- The registers with the results of a call. -/
def HypercallResult.load (r : HypercallResult) (g : GuestGprs) : GuestGprs :=
  { g with rax := r.ret0, rbx := r.ret1, rcx := r.ret2, rdx := r.ret3 }

/-- A state with the results of a call. -/
def CpuState.withResults (s : CpuState) (r : HypercallResult) : CpuState := { s with gprs := r.load s.gprs }

/-- What the handler passes on. -/
def GuestGprs.hypercallParams (g : GuestGprs) : HypercallParams := ⟨g.rax, g.rbx⟩

/-- The vCPU after a VMCALL. -/
def Nexusvcpu.afterVmcall (u : Nexusvcpu) (c : Addr) (v : Nexusvm) (mem : PhysMem) : Nexusvcpu :=
  let u' := u.afterHypercall c mem u.cpuState.gprs.hypercallParams
  { u' with cpuState := u'.cpuState.withResults (hypercallAnswer u v u.cpuState.gprs.rax).2 }

/-- A VMCALL has been handled. -/
structure Vmcalled (c : Addr) (u : Nexusvcpu) (v : Nexusvm) (m m' : Machine) : Prop where
  vcpu : m'.host.vcpus c = some (u.afterVmcall c v m.host.mem)
  mem : m'.host.mem = m.host.mem.afterHypercall u u.cpuState.gprs.hypercallParams
  vms : m'.host.vms = m.host.vms

/-- **A VMCALL.** -/
theorem vmxHandleVmcall_spec (hu : m.host.vcpus c = some u) (hv : m.host.vms u.vm = some v) :
    wp (vmxHandleVmcall w c) (fun r m' =>
      r = (hypercallAnswer u v u.cpuState.gprs.rax).1 ∧ Vmcalled c u v m m') m := by
  rw [vmxHandleVmcall, wp_bind, wp_onHost, wp_getVcpu]
  refine ⟨u, hu, ?_⟩
  rw [wp_bind, wp_onHost]
  refine wp_mono (hypercallHandle_spec hu hv) ?_
  rintro _ _ ⟨rfl, rfl⟩
  rw [wp_bind, wp_modifyGprs]
  refine ⟨_, Function.update_self _ _ _, ?_⟩
  rw [wp_bind]
  refine wp_mono (advanceRip_host w _ rfl) fun _ m' hm' => ?_
  rw [wp_pure]
  refine ⟨rfl, ?_, ?_, ?_⟩
  · rw [hm']
    exact Function.update_self _ _ _
  · rw [hm']
    rfl
  · rw [hm']
    rfl

/-! ## Setting the state -/

theorem PhysMem.stateAt_putRam (m : PhysMem) (a : Addr) (s : CpuState) :
    (m.putRam a (cpuStateCodec.encode s)).stateAt a = s := by
  have hbytes := m.putRam_read a (cpuStateCodec.encode s)
  rw [cpuStateCodec.length_encode, size_codecs.1] at hbytes
  change cpuStateCodec.decode ((List.range sizeofCpuState).map fun k =>
    (m.putRam a (cpuStateCodec.encode s)).ram (a + k)) = s
  rw [hbytes, Codec.decode_encode_self]

/-- The VMCALL leaves the vCPU with the state `s`. A VMCALL that asks for the state, with registers that
have been set up by any `f`, stores `s` but for what `f` has set. -/
def SetStateTakes (w : VmxWorld) (c : Addr) (s : CpuState) (m : Machine) : Prop :=
  wp (vmxHandleVmcall w c) (fun r m₁ => r = .ok →
    (m₁.host.vcpus c).map Nexusvcpu.cpuState = some s ∧
    ∀ (f : GuestGprs → GuestGprs) (buffer : UInt64), buffer ≠ 0 →
      (∀ g, (f g).rax = HYPERCALL_VCPU_GET_STATE ∧ (f g).rbx = buffer) →
      wp (modifyGprs c f >>= fun _ => vmxHandleVmcall w c) (fun _ m₂ =>
        m₂.host.mem.stateAt buffer.toNat = { s with gprs := f s.gprs }) m₁) m

theorem getState_stores {f : GuestGprs → GuestGprs} {buffer : UInt64} (hu : m.host.vcpus c = some u)
    (hv : m.host.vms u.vm = some v) (hbuffer : buffer ≠ 0)
    (hf : ∀ g, (f g).rax = HYPERCALL_VCPU_GET_STATE ∧ (f g).rbx = buffer) :
    wp (modifyGprs c f >>= fun _ => vmxHandleVmcall w c) (fun _ m' =>
      m'.host.mem.stateAt buffer.toNat = { u.cpuState with gprs := f u.cpuState.gprs }) m := by
  rw [wp_bind, wp_modifyGprs]
  refine ⟨u, hu, ?_⟩
  obtain ⟨hrax, hrbx⟩ := hf u.cpuState.gprs
  refine wp_mono (vmxHandleVmcall_spec (Function.update_self _ _ _) hv) ?_
  rintro _ m' ⟨-, hcalled⟩
  rw [hcalled.mem, PhysMem.afterHypercall, Nexusvcpu.setGprs_gprs]
  change (if (f u.cpuState.gprs).rax = HYPERCALL_VCPU_GET_STATE ∧ (f u.cpuState.gprs).rbx ≠ 0
    then PhysMem.putRam _ (f u.cpuState.gprs).rbx.toNat _ else _).stateAt buffer.toNat = _
  rw [hrbx, if_pos ⟨hrax, hbuffer⟩, PhysMem.stateAt_putRam]
  rfl

theorem setState_leaves (hu : m.host.vcpus c = some u) (hv : m.host.vms u.vm = some v)
    (hrax : u.cpuState.gprs.rax = HYPERCALL_VCPU_SET_STATE) (hrbx : u.cpuState.gprs.rbx ≠ 0) :
    wp (vmxHandleVmcall w c) (fun r m' => r = .ok ∧ m'.host.vms = m.host.vms ∧ m'.host.vcpus c = some {
      u with cpuState := (m.host.mem.stateAt u.cpuState.gprs.rbx.toNat).withResults {} }) m := by
  have hanswer : hypercallAnswer u v u.cpuState.gprs.rax = (.ok, {}) := by
    rw [hrax]
    rfl
  have hget : ¬ (u.cpuState.gprs.hypercallParams.rax = HYPERCALL_VCPU_GET_STATE ∧
      u.cpuState.gprs.hypercallParams.rbx ≠ 0) := fun hc => absurd (hrax.symm.trans hc.1) (by decide)
  have hafter : u.afterVmcall c v m.host.mem = { u with
      cpuState := (m.host.mem.stateAt u.cpuState.gprs.rbx.toNat).withResults {} } := by
    unfold Nexusvcpu.afterVmcall Nexusvcpu.afterHypercall
    rw [hanswer, if_neg hget, if_pos ⟨hrax, hrbx⟩]
    rfl
  refine wp_mono (vmxHandleVmcall_spec hu hv) ?_
  rintro _ m' ⟨rfl, hcalled⟩
  rw [hanswer, ← hafter]
  exact ⟨rfl, hcalled.vms, hcalled.vcpu⟩

/-- **A state set by hypercall** is the state of the vCPU just if its first four registers are zero: the
results of the call take their place. -/
theorem set_state_iff (hu : m.host.vcpus c = some u) (hv : m.host.vms u.vm = some v)
    (hrax : u.cpuState.gprs.rax = HYPERCALL_VCPU_SET_STATE) (hrbx : u.cpuState.gprs.rbx ≠ 0) :
    SetStateTakes w c (m.host.mem.stateAt u.cpuState.gprs.rbx.toNat) m ↔
      (m.host.mem.stateAt u.cpuState.gprs.rbx.toNat).gprs.rax = 0 ∧
      (m.host.mem.stateAt u.cpuState.gprs.rbx.toNat).gprs.rbx = 0 ∧
      (m.host.mem.stateAt u.cpuState.gprs.rbx.toNat).gprs.rcx = 0 ∧
      (m.host.mem.stateAt u.cpuState.gprs.rbx.toNat).gprs.rdx = 0 := by
  obtain ⟨_, m₁, hrun, rfl, hvms, hvcpu⟩ := setState_leaves (w := w) hu hv hrax hrbx
  generalize m.host.mem.stateAt u.cpuState.gprs.rbx.toNat = s at hvcpu
  constructor
  · intro h
    have hsame := (wp_run h hrun rfl).1
    rw [hvcpu, Option.map_some, Option.some.injEq] at hsame
    have hgprs : (s.withResults {}).gprs = s.gprs := congrArg CpuState.gprs hsame
    rw [← hgprs]
    exact ⟨rfl, rfl, rfl, rfl⟩
  · rintro ⟨h0, h1, h2, h3⟩
    have hself : s.withResults {} = s := by
      obtain ⟨⟨rax, rbx, rcx, rdx, _⟩, _⟩ := s
      dsimp only at h0 h1 h2 h3
      subst h0 h1 h2 h3
      rfl
    rw [hself] at hvcpu
    refine wp_of_run hrun fun _ => ⟨by rw [hvcpu]; rfl, fun f buffer hbuffer hf => ?_⟩
    exact getState_stores hvcpu (by rw [hvms]; exact hv) hbuffer hf

/-- A guest that asks for a call, with RBX the address of a state. -/
def callGprs (callNumber : UInt64) : GuestGprs := { rax := callNumber, rbx := 1048576 }

/-- A guest that is about to set the state of its vCPU. -/
def settingMachine (s : CpuState) : Machine :=
  (exitedMachine (callGprs HYPERCALL_VCPU_SET_STATE)).setHost
    ((exitedMachine (callGprs HYPERCALL_VCPU_SET_STATE)).host.setMem
      ((exitedMachine (callGprs HYPERCALL_VCPU_SET_STATE)).host.mem.putRam 1048576
        (cpuStateCodec.encode s)))

theorem stateAt_settingMachine (s : CpuState) : (settingMachine s).host.mem.stateAt 1048576 = s :=
  PhysMem.stateAt_putRam _ _ _

theorem set_state_iff_rip : SetStateTakes bareWorld 16384
    ((settingMachine { gprs := { rip := 0x7C00 } }).host.mem.stateAt 1048576)
    (settingMachine { gprs := { rip := 0x7C00 } }) := by
  refine (set_state_iff (c := 16384) (u := exitedVcpu (callGprs HYPERCALL_VCPU_SET_STATE))
    (v := { vcpus := [16384], vcpuCount := 1 }) rfl rfl rfl (by decide)).mpr ?_
  have hstate : (settingMachine { gprs := { rip := 0x7C00 } }).host.mem.stateAt
      (exitedVcpu (callGprs HYPERCALL_VCPU_SET_STATE)).cpuState.gprs.rbx.toNat =
        { gprs := { rip := 0x7C00 } } := stateAt_settingMachine _
  rw [hstate]
  exact ⟨rfl, rfl, rfl, rfl⟩

/-- **RAX of the state is lost.** -/
theorem set_state_loses_rax : (settingMachine { gprs := { rax := 7 } }).host.mem.stateAt 1048576 =
      { gprs := { rax := 7 } } ∧
    ¬ SetStateTakes bareWorld 16384 { gprs := { rax := 7 } } (settingMachine { gprs := { rax := 7 } }) := by
  refine ⟨stateAt_settingMachine _, fun h => ?_⟩
  obtain ⟨_, m₁, hrun, rfl, -, hvcpu⟩ := setState_leaves (w := bareWorld) (c := 16384)
    (m := settingMachine { gprs := { rax := 7 } })
    (u := exitedVcpu (callGprs HYPERCALL_VCPU_SET_STATE)) (v := { vcpus := [16384], vcpuCount := 1 })
    rfl rfl rfl (by decide)
  have hsame := (wp_run h hrun rfl).1
  rw [hvcpu, Option.map_some, Option.some.injEq] at hsame
  have hrax : (0 : UInt64) = 7 := congrArg (fun s => s.gprs.rax) hsame
  cases hrax

/-! ## Status -/

/-- The calls that `hypercall_handle` knows. -/
def supportedCalls : List UInt64 :=
  [HYPERCALL_VM_GET_INFO, HYPERCALL_VCPU_GET_STATE, HYPERCALL_VCPU_SET_STATE, HYPERCALL_VM_GET_STATISTICS,
    HYPERCALL_VCPU_GET_STATISTICS]

/-- The number is that of a supported call. -/
def Supported (callNumber : UInt64) : Prop := callNumber ∈ supportedCalls

instance (callNumber : UInt64) : Decidable (Supported callNumber) := by
  unfold Supported; infer_instance

/-- There is something other than zeros to report. -/
def Informs (u : Nexusvcpu) (v : Nexusvm) (callNumber : UInt64) : Prop :=
  (callNumber = HYPERCALL_VM_GET_INFO ∧
    ¬ (v.id = 0 ∧ v.vcpuCount = 0 ∧ v.memorySize = 0 ∧ v.state.code = 0)) ∨
  (callNumber = HYPERCALL_VM_GET_STATISTICS ∧
    ¬ (v.uptimeNs = 0 ∧ v.vmexitCount = 0 ∧ v.totalRuntimeNs = 0)) ∨
  (callNumber = HYPERCALL_VCPU_GET_STATISTICS ∧
    ¬ (u.vmexitCount = 0 ∧ u.vmentryCount = 0 ∧ u.instructionCount = 0))

/-- The results, as the guest finds them. -/
def HypercallResult.main (r : HypercallResult) : MainRegs := ⟨r.ret0, r.ret1, r.ret2, r.ret3⟩

theorem hypercallAnswer_unsupported {callNumber : UInt64} (h : ¬ Supported callNumber) :
    hypercallAnswer u v callNumber = (.errNotSupported, { status := .errNotSupported }) := by
  simp only [Supported, supportedCalls, List.mem_cons, List.not_mem_nil, or_false, not_or] at h
  obtain ⟨hinfo, hget, hset, hstat, hown⟩ := h
  rw [hypercallAnswer, if_neg hinfo, if_neg (not_or.mpr ⟨hget, hset⟩), if_neg hstat, if_neg hown]

/-- **The status** of a call. -/
theorem hypercallAnswer_status {callNumber : UInt64} :
    (hypercallAnswer u v callNumber).1 = if Supported callNumber then .ok else .errNotSupported := by
  split_ifs with h
  · simp only [Supported, supportedCalls, List.mem_cons, List.not_mem_nil, or_false] at h
    rcases h with rfl | rfl | rfl | rfl | rfl <;> rfl
  · rw [hypercallAnswer_unsupported h]

/-- **The results** of a supported call are those of one that is not, if it has nothing to report. -/
theorem hypercallAnswer_silent_iff {callNumber : UInt64} (h : Supported callNumber) :
    (hypercallAnswer u v callNumber).2.main = ⟨0, 0, 0, 0⟩ ↔ ¬ Informs u v callNumber := by
  have hzero : ∀ x : UInt32, x.toUInt64 = 0 ↔ x = 0 := fun x => by
    rw [← UInt64.toNat_inj, ← UInt32.toNat_inj, UInt32.toNat_toUInt64]
    rfl
  simp only [Supported, supportedCalls, List.mem_cons, List.not_mem_nil, or_false] at h
  have h01 : HYPERCALL_VM_GET_INFO ≠ HYPERCALL_VM_GET_STATISTICS := by decide
  have h02 : HYPERCALL_VM_GET_INFO ≠ HYPERCALL_VCPU_GET_STATISTICS := by decide
  have h12 : HYPERCALL_VM_GET_STATISTICS ≠ HYPERCALL_VCPU_GET_STATISTICS := by decide
  rcases h with rfl | rfl | rfl | rfl | rfl
  · change MainRegs.mk v.id.toUInt64 v.vcpuCount.toUInt64 v.memorySize v.state.code.toUInt64 = _ ↔ _
    simp [Informs, h01, h02, hzero]
  · refine iff_of_true rfl ?_
    rintro (⟨hc, -⟩ | ⟨hc, -⟩ | ⟨hc, -⟩) <;> cases hc
  · refine iff_of_true rfl ?_
    rintro (⟨hc, -⟩ | ⟨hc, -⟩ | ⟨hc, -⟩) <;> cases hc
  · change MainRegs.mk v.uptimeNs v.vmexitCount v.totalRuntimeNs 0 = _ ↔ _
    simp [Informs, h01.symm, h12]
  · change MainRegs.mk u.vmexitCount u.vmentryCount u.instructionCount 0 = _ ↔ _
    simp [Informs, h02.symm, h12.symm]

/-! ## States that are passed -/

/-- A state that the call moves lies in memory of the VM, or in the vCPU's own record behind its pointers. -/
def ArgumentInside (c : Addr) (u : Nexusvcpu) (v : Nexusvm) (mem : PhysMem) : Prop :=
  u.cpuState.gprs.rax = HYPERCALL_VCPU_GET_STATE ∨ u.cpuState.gprs.rax = HYPERCALL_VCPU_SET_STATE →
    u.cpuState.gprs.rbx ≠ 0 → v.Holds mem u.cpuState.gprs.rbx.toNat sizeofCpuState ∨
      (c + 736 ≤ u.cpuState.gprs.rbx.toNat ∧
        u.cpuState.gprs.rbx.toNat + sizeofCpuState ≤ c + sizeofNexusvcpu)

theorem argumentInside_of_null {mem : PhysMem} (h : u.cpuState.gprs.rbx = 0) : ArgumentInside c u v mem :=
  fun _ hrbx => absurd h hrbx

/-- A state that is stored over `vcpu->running` has a byte there that is not 0. -/
def SparesRunning (c : Addr) (u : Nexusvcpu) : Prop :=
  u.cpuState.gprs.rax = HYPERCALL_VCPU_GET_STATE → u.cpuState.gprs.rbx ≠ 0 →
    u.cpuState.gprs.rbx.toNat ≤ c + 768 → c + 768 < u.cpuState.gprs.rbx.toNat + sizeofCpuState →
      (cpuStateCodec.encode u.cpuState).getD (c + 768 - u.cpuState.gprs.rbx.toNat) 0 ≠ 0

/-- **The flag** of a vCPU that runs, after a VMCALL. -/
theorem Nexusvcpu.afterVmcall_running (mem : PhysMem) (hrun : u.running = true) :
    (u.afterVmcall c v mem).running = true ↔ SparesRunning c u := by
  have hsize : (cpuStateCodec.encode u.cpuState).length = sizeofCpuState :=
    (cpuStateCodec.length_encode _).trans size_codecs.1
  change (u.afterHypercall c mem u.cpuState.gprs.hypercallParams).running = true ↔ _
  unfold afterHypercall SparesRunning GuestGprs.hypercallParams
  dsimp only
  by_cases hget : u.cpuState.gprs.rax = HYPERCALL_VCPU_GET_STATE ∧ u.cpuState.gprs.rbx ≠ 0
  · rw [if_pos hget]
    change Codec.bool.overlay u.running (c + 768) u.cpuState.gprs.rbx.toNat _ = true ↔ _
    rw [Codec.overlay_bool, hsize]
    split_ifs with hmeet
    · rw [bne_iff_ne]
      exact ⟨fun h _ _ _ _ => h, fun h => h hget.1 hget.2 hmeet.1 hmeet.2⟩
    · exact iff_of_true hrun fun _ _ hle hlt => absurd ⟨hle, hlt⟩ hmeet
  · rw [if_neg hget]
    refine iff_of_true ?_ fun hrax hrbx => absurd ⟨hrax, hrbx⟩ hget
    split_ifs <;> exact hrun

/-! ## The run loop -/

/-- A vCPU that runs, from whose VMCS the guest can be entered, and which leaves by a VMCALL then. -/
structure AtVmcall (w : VmxWorld) (c x : Addr) (u : Nexusvcpu) (v : Nexusvm) (m : Machine) : Prop where
  vcpu : m.host.vcpus c = some u
  vm : m.host.vms u.vm = some v
  running : u.running = true
  on : m.vmx.cpu.On x (decide (u.vcpuId ≠ 0))
  exit : w.exitCodes.select (w.guest m.entries (m.vmx.cpu.contents x) .vmExitReason &&& 0xFFFF).toUInt16 =
    .vmcall
  argument : ArgumentInside c u v m.host.mem

/-- The guest has left, with these fields in its VMCS. -/
structure Exited (x : Addr) (fields : VmcsField → UInt64) (m : Machine) : Prop where
  current : m.vmx.cpu.current = some x
  contents : m.vmx.cpu.contents x = fields

theorem enterGuest_exited (hon : m.vmx.cpu.On x (decide (u.vcpuId ≠ 0))) :
    wp (enterGuest w (entryInstr u)) (fun _ m' => m'.host = m.host ∧
      Exited x (w.guest m.entries (m.vmx.cpu.contents x)) m') m := by
  obtain ⟨cpu, hstep, hcpu, hcontents⟩ : ∃ cpu, m.vmx.cpu.step (entryInstr u) = some cpu ∧
      cpu.current = some x ∧ cpu.contents = m.vmx.cpu.contents := by
    by_cases hid : u.vcpuId = 0
    · refine ⟨m.vmx.cpu.setLaunched x true, ?_, hon.current, rfl⟩
      rw [entryInstr, if_pos hid, hon.step_vmlaunch, if_neg (by simp [hid])]
    · refine ⟨m.vmx.cpu, ?_, hon.current, rfl⟩
      rw [entryInstr, if_neg hid, hon.step_vmresume, if_pos (by simp [hid])]
  rw [enterGuest, wp_bind, wp_instr_of_step hstep, wp_when]
  refine ⟨fun _ => ?_, fun hne => absurd rfl hne⟩
  rw [wp_modify]
  refine ⟨rfl, hcpu, ?_⟩
  change (if cpu.current = some x then w.guest m.entries (cpu.contents x) else cpu.contents x) = _
  rw [if_pos hcpu, hcontents]

theorem vmxVmread_exited {fields : VmcsField → UInt64} (he : Exited x fields m) (f : VmcsField) :
    wp (vmxVmread w f) (fun value m' => value = fields f ∧ m'.host = m.host ∧ Exited x fields m') m := by
  rw [wp_vmxVmread_on he.current]
  exact ⟨by rw [he.contents], rfl, he.current, he.contents⟩

/-- The turn of the loop goes on: the vCPU runs, and RIP of its guest is behind the instruction. -/
def KeepsRunning (w : VmxWorld) (c x : Addr) (m : Machine) : Prop :=
  wp (runOnce w c) (fun r m' => r = .ok ∧ (m'.host.vcpus c).map Nexusvcpu.running = some true ∧
    m'.vmx.cpu.contents x .guestRip = w.guest m.entries (m.vmx.cpu.contents x) .guestRip +
      w.guest m.entries (m.vmx.cpu.contents x) .vmExitInstructionLength) m

/-- A turn of the loop with a guest that is entered: both counters are advanced, and the exit is handled
that the guest has left in its VMCS. -/
theorem runOnce_exits {Q : Result → Machine → Prop} (hu : m.host.vcpus c = some u)
    (hon : m.vmx.cpu.On x (decide (u.vcpuId ≠ 0)))
    (hexit : ∀ qual m', m'.host.vcpus c = some { u with
        vmentryCount := u.vmentryCount + 1, vmexitCount := u.vmexitCount + 1 } →
      m'.host.vms = m.host.vms → Exited x (w.guest m.entries (m.vmx.cpu.contents x)) m' →
      wp (vmxHandleVmexit w c (w.guest m.entries (m.vmx.cpu.contents x) .vmExitReason) qual) Q m') :
    wp (runOnce w c) Q m := by
  rw [runOnce, wp_bind, wp_onHost, wp_getVcpu, Machine.setHost_self]
  refine ⟨u, hu, ?_⟩
  rw [wp_bind, wp_onHost, wp_putVcpu, wp_bind]
  refine wp_mono (enterGuest_exited (m := m.setHost _) hon) ?_
  rintro _ m₁ ⟨hhost₁, he₁⟩
  rw [wp_bind, wp_onHost, wp_getVcpu, Machine.setHost_self]
  refine ⟨{ u with vmentryCount := u.vmentryCount + 1 }, ?_, ?_⟩
  · rw [hhost₁]
    exact Function.update_self _ _ _
  rw [wp_bind, wp_onHost, wp_putVcpu]
  generalize hm₂ : m₁.setHost (m₁.host.setVcpu c _) = m₂
  have he₂ : Exited x (w.guest m.entries (m.vmx.cpu.contents x)) m₂ := by
    subst hm₂
    exact ⟨he₁.current, he₁.contents⟩
  have hvms : m₂.host.vms = m.host.vms := by
    subst hm₂
    change m₁.host.vms = m.host.vms
    rw [hhost₁]
    rfl
  have hvcpu : m₂.host.vcpus c = some { u with
      vmentryCount := u.vmentryCount + 1, vmexitCount := u.vmexitCount + 1 } := by
    subst hm₂
    exact Function.update_self _ _ _
  rw [wp_bind]
  refine wp_mono (vmxVmread_exited he₂ .vmExitReason) ?_
  rintro _ m₃ ⟨rfl, hhost₃, he₃⟩
  rw [wp_bind]
  refine wp_mono (vmxVmread_exited he₃ .vmExitQualification) ?_
  rintro qual m₄ ⟨-, hhost₄, he₄⟩
  have hhost : m₄.host = m₂.host := hhost₄.trans hhost₃
  exact hexit qual m₄ (hhost ▸ hvcpu) (hhost ▸ hvms) he₄

/-- **A turn of the loop with a VMCALL**: the result is the status of the call, and the vCPU runs on but for a
state that is stored over its flag. -/
theorem runOnce_vmcall (h : AtVmcall w c x u v m) : wp (runOnce w c) (fun r m' =>
    r = (if Supported u.cpuState.gprs.rax then .ok else .errNotSupported) ∧
      ((m'.host.vcpus c).map Nexusvcpu.running = some true ↔ SparesRunning c u) ∧
      m'.vmx.cpu.contents x .guestRip = w.guest m.entries (m.vmx.cpu.contents x) .guestRip +
        w.guest m.entries (m.vmx.cpu.contents x) .vmExitInstructionLength) m := by
  refine runOnce_exits h.vcpu h.on fun qual m₁ hu₁ hvms he₁ => ?_
  have hv₁ : m₁.host.vms u.vm = some v := by
    rw [hvms]
    exact h.vm
  rw [vmxHandleVmexit, h.exit]
  refine wp_mono (wp_and (vmxHandleVmcall_spec hu₁ hv₁) (vmxHandleVmcall_advances he₁.current hu₁ hv₁)) ?_
  rintro _ m₂ ⟨⟨rfl, hcalled⟩, m₀, h₀, rfl⟩
  refine ⟨hypercallAnswer_status, ?_, ?_⟩
  · rw [hcalled.vcpu, Option.map_some, Option.some.injEq]
    exact Nexusvcpu.afterVmcall_running _ h.running
  · rw [(advance_advanced h₀).rip, Machine.nextRip, he₁.contents]

/-! ## Telling calls apart -/

/-- If the status of the two calls differs, so do the registers that they leave. -/
def Tells (w : VmxWorld) (c₁ c₂ : Addr) (m₁ m₂ : Machine) : Prop :=
  wp (vmxHandleVmcall w c₁) (fun r₁ m₁' => wp (vmxHandleVmcall w c₂) (fun r₂ m₂' => r₁ ≠ r₂ →
    (m₁'.host.vcpus c₁).map (fun u => u.cpuState.gprs.main) ≠
      (m₂'.host.vcpus c₂).map fun u => u.cpuState.gprs.main) m₂) m₁

/-- The vCPU and its VM, and what a call of it is given. -/
structure Calls (c : Addr) (u : Nexusvcpu) (v : Nexusvm) (m : Machine) : Prop where
  vcpu : m.host.vcpus c = some u
  vm : m.host.vms u.vm = some v
  argument : ArgumentInside c u v m.host.mem

theorem Vmcalled.main (h : Vmcalled c u v m m') : (m'.host.vcpus c).map (fun u => u.cpuState.gprs.main) =
    some (hypercallAnswer u v u.cpuState.gprs.rax).2.main := by
  rw [h.vcpu]
  rfl

theorem tells_answers_iff {c₁ c₂ : Addr} {u₁ u₂ : Nexusvcpu} {v₁ v₂ : Nexusvm} {m₁ m₂ : Machine}
    (h₁ : Calls c₁ u₁ v₁ m₁) (h₂ : Calls c₂ u₂ v₂ m₂) : Tells w c₁ c₂ m₁ m₂ ↔
      ((hypercallAnswer u₁ v₁ u₁.cpuState.gprs.rax).1 ≠ (hypercallAnswer u₂ v₂ u₂.cpuState.gprs.rax).1 →
        (hypercallAnswer u₁ v₁ u₁.cpuState.gprs.rax).2.main ≠
          (hypercallAnswer u₂ v₂ u₂.cpuState.gprs.rax).2.main) := by
  obtain ⟨_, m₁', hrun₁, rfl, hcalled₁⟩ := vmxHandleVmcall_spec (w := w) h₁.vcpu h₁.vm
  obtain ⟨_, m₂', hrun₂, rfl, hcalled₂⟩ := vmxHandleVmcall_spec (w := w) h₂.vcpu h₂.vm
  constructor
  · intro h
    rw [Tells] at h
    have hboth := wp_run h hrun₁
    have hregs := wp_run hboth hrun₂
    rw [hcalled₁.main, hcalled₂.main] at hregs
    exact fun hne heq => hregs hne (congrArg some heq)
  · intro h
    refine wp_of_run hrun₁ (wp_of_run hrun₂ fun hne => ?_)
    rw [hcalled₁.main, hcalled₂.main]
    exact fun heq => h hne (Option.some.inj heq)

/-- **Two calls** can be told apart, but where one of them is supported and has nothing to report, and the
other one is not supported. -/
theorem tells_iff {c₁ c₂ : Addr} {u₁ u₂ : Nexusvcpu} {v₁ v₂ : Nexusvm} {m₁ m₂ : Machine}
    (h₁ : Calls c₁ u₁ v₁ m₁) (h₂ : Calls c₂ u₂ v₂ m₂) : Tells w c₁ c₂ m₁ m₂ ↔
      (Supported u₁.cpuState.gprs.rax → ¬ Supported u₂.cpuState.gprs.rax →
        Informs u₁ v₁ u₁.cpuState.gprs.rax) ∧
      (Supported u₂.cpuState.gprs.rax → ¬ Supported u₁.cpuState.gprs.rax →
        Informs u₂ v₂ u₂.cpuState.gprs.rax) := by
  have hnone : ∀ (u : Nexusvcpu) (v : Nexusvm), ¬ Supported u.cpuState.gprs.rax →
      (hypercallAnswer u v u.cpuState.gprs.rax).2.main = ⟨0, 0, 0, 0⟩ := by
    intro u v hs
    rw [hypercallAnswer_unsupported hs]
    rfl
  rw [tells_answers_iff h₁ h₂, hypercallAnswer_status, hypercallAnswer_status]
  by_cases hs₁ : Supported u₁.cpuState.gprs.rax
  · by_cases hs₂ : Supported u₂.cpuState.gprs.rax
    · simp [hs₁, hs₂]
    · have hsilent := hypercallAnswer_silent_iff (u := u₁) (v := v₁) hs₁
      simpa [hs₁, hs₂, hnone u₂ v₂ hs₂] using not_congr hsilent
  · by_cases hs₂ : Supported u₂.cpuState.gprs.rax
    · have hsilent := hypercallAnswer_silent_iff (u := u₂) (v := v₂) hs₂
      simpa [hs₁, hs₂, hnone u₁ v₁ hs₁, eq_comm] using not_congr hsilent
    · simp [hs₁, hs₂]

/-- **The status of a VMCALL.** The loop goes on just if the call is supported and stores no 0 over the flag
of the vCPU; and two calls can be told apart just if one that is supported has something to report when the
other one is not. -/
theorem vmcall_status_iff (w : VmxWorld) :
    (∀ c x u v m, AtVmcall w c x u v m →
      (KeepsRunning w c x m ↔ Supported u.cpuState.gprs.rax ∧ SparesRunning c u)) ∧
    ∀ c₁ c₂ u₁ u₂ v₁ v₂ m₁ m₂, Calls c₁ u₁ v₁ m₁ → Calls c₂ u₂ v₂ m₂ → (Tells w c₁ c₂ m₁ m₂ ↔
      (Supported u₁.cpuState.gprs.rax → ¬ Supported u₂.cpuState.gprs.rax →
        Informs u₁ v₁ u₁.cpuState.gprs.rax) ∧
      (Supported u₂.cpuState.gprs.rax → ¬ Supported u₁.cpuState.gprs.rax →
        Informs u₂ v₂ u₂.cpuState.gprs.rax)) := by
  refine ⟨fun c x u v m h => ?_, fun c₁ c₂ u₁ u₂ v₁ v₂ m₁ m₂ h₁ h₂ => tells_iff h₁ h₂⟩
  obtain ⟨r, m', hrun, hr, hflag, hrip⟩ := runOnce_vmcall h
  constructor
  · intro hkeeps
    obtain ⟨hok, hruns, -⟩ := wp_run hkeeps hrun
    refine ⟨?_, hflag.mp hruns⟩
    by_contra hnot
    rw [hok, if_neg hnot] at hr
    cases hr
  · rintro ⟨hs, hspares⟩
    rw [if_pos hs] at hr
    exact wp_of_run hrun ⟨hr, hflag.mpr hspares, hrip⟩

/-- A guest that leaves by a VMCALL whenever it is entered. -/
def callingWorld : VmxWorld :=
  { bareWorld with guest := fun _ fields => Function.update fields .vmExitReason 42 }

theorem atVmcall_exitedMachine {g : GuestGprs} (hinside : ArgumentInside 16384 (exitedVcpu g)
    { vcpus := [16384], vcpuCount := 1 } (exitedMachine g).host.mem) : AtVmcall callingWorld 16384 12288
      (exitedVcpu g) { vcpus := [16384], vcpuCount := 1 } (exitedMachine g) := by
  refine ⟨rfl, rfl, rfl, ⟨rfl, rfl⟩, ?_, hinside⟩
  change bareWorld.exitCodes.select ((42 : UInt64) &&& 0xFFFF).toUInt16 = .vmcall
  decide

theorem vmcall_status_iff_get_info :
    KeepsRunning callingWorld 16384 12288 (exitedMachine { rax := HYPERCALL_VM_GET_INFO }) ∧
    Tells callingWorld 16384 16384 (exitedMachine { rax := HYPERCALL_VM_GET_INFO })
      (exitedMachine { rax := 0x1000 }) := by
  refine ⟨((vmcall_status_iff callingWorld).1 _ _ _ _ _ (atVmcall_exitedMachine (argumentInside_of_null rfl))).mpr
    ⟨by decide, fun _ hrbx => absurd rfl hrbx⟩, ?_⟩
  refine ((vmcall_status_iff callingWorld).2 16384 16384 (exitedVcpu { rax := HYPERCALL_VM_GET_INFO })
    (exitedVcpu { rax := 0x1000 }) { vcpus := [16384], vcpuCount := 1 }
    { vcpus := [16384], vcpuCount := 1 } _ _ ⟨rfl, rfl, argumentInside_of_null rfl⟩
    ⟨rfl, rfl, argumentInside_of_null rfl⟩).mpr ⟨fun _ _ => ?_, fun h => ?_⟩
  · exact .inl ⟨rfl, by decide⟩
  · exact absurd h (by decide)

/-- A guest that asks for its state, to be stored 16 bytes before the flag of its vCPU. -/
def clearingGprs : GuestGprs := { rax := HYPERCALL_VCPU_GET_STATE, rbx := 17136 }

/-- **A guest stops its own loop** by asking for a VM, and does not learn that the call has failed. It also does
so by having its RCX stored over the flag of its vCPU. -/
theorem vmcall_stops_loop :
    (AtVmcall callingWorld 16384 12288 (exitedVcpu { rax := 0x1000 }) { vcpus := [16384], vcpuCount := 1 }
      (exitedMachine { rax := 0x1000 }) ∧
    ¬ KeepsRunning callingWorld 16384 12288 (exitedMachine { rax := 0x1000 })) ∧
    (AtVmcall callingWorld 16384 12288 (exitedVcpu clearingGprs) { vcpus := [16384], vcpuCount := 1 }
      (exitedMachine clearingGprs) ∧
    ¬ KeepsRunning callingWorld 16384 12288 (exitedMachine clearingGprs)) ∧
    ¬ Tells callingWorld 16384 16384 (exitedMachine { rax := HYPERCALL_VCPU_SET_STATE })
      (exitedMachine { rax := 0x1000 }) := by
  refine ⟨⟨atVmcall_exitedMachine (argumentInside_of_null rfl), fun h => ?_⟩,
    ⟨atVmcall_exitedMachine fun _ _ => .inr (by decide), fun h => ?_⟩, fun h => ?_⟩
  · obtain ⟨r, m', hrun, hr, -⟩ :=
      runOnce_vmcall (atVmcall_exitedMachine (g := { rax := 0x1000 }) (argumentInside_of_null rfl))
    rw [(wp_run h hrun).1] at hr
    exact absurd hr (by decide)
  · obtain ⟨r, m', hrun, -, hflag, -⟩ :=
      runOnce_vmcall (atVmcall_exitedMachine (g := clearingGprs) fun _ _ => .inr (by decide))
    exact hflag.mp (wp_run h hrun).2.1 rfl (by decide) (by decide) (by decide) (by decide)
  · have hcalls : ∀ callNumber, Calls 16384 (exitedVcpu { rax := callNumber })
        { vcpus := [16384], vcpuCount := 1 } (exitedMachine { rax := callNumber }) :=
      fun _ => ⟨rfl, rfl, argumentInside_of_null rfl⟩
    have hiff := (tells_iff (hcalls _) (hcalls _)).mp h
    rcases hiff.1 (by decide) (by decide) with ⟨hc, -⟩ | ⟨hc, -⟩ | ⟨hc, -⟩ <;> exact absurd hc (by decide)

end NexusVM
