import NexusVM.Runs
import NexusVM.Vmx

/-!
# The launch protocol

Whether the processor accepts the VMX instructions that starting and running a vCPU issue.

* `Invariant`, `Invariant.handleVmexit`: what every handler keeps, it is enough to see of its single
  instructions;
* `Faulty`, `Running`: an instruction was not accepted, or all were;
* `Invariant.runOnce`, `setupVmcs_spec`, `startVcpu_spec`, `vcpuRun_spec`: the turns of the loop and the
  calls;
* **`launch_accepted_iff`**: exactly when all instructions are accepted.
-/

namespace NexusVM

open Prog

variable {w : VmxWorld} {c region x : Addr} {m : Machine} {I : Machine → Prop}

/-! ## Invariants -/

/-- The vCPU and its VM are there. -/
structure HasVcpu (h : Host) (c : Addr) (u : Nexusvcpu) : Prop where
  vcpu : h.vcpus c = some u
  vm : h.vms u.vm ≠ none

/-- What handlers do to a vCPU. -/
structure SameVcpu (u u' : Nexusvcpu) : Prop where
  vcpuId : u'.vcpuId = u.vcpuId
  vm : u'.vm = u.vm
  vmcs : u'.vmxVmcsRegion = u.vmxVmcsRegion

/-- The condition is kept by all that handlers consist of. -/
structure Invariant (c : Addr) (I : Machine → Prop) : Prop where
  exist : ∀ m, I m → ∃ u, HasVcpu m.host c u
  put : ∀ m u u', I m → m.host.vcpus c = some u → SameVcpu u u' →
    I (m.setHost (m.host.setVcpu c (some u')))
  mem : ∀ m p, I m → I (m.setHost (m.host.setMem p))
  msrs : ∀ m msrs, I m → I { m with msrs := msrs }
  xcr0 : ∀ m xcr0, I m → I { m with xcr0 := xcr0 }
  exit : ∀ w m, I m → I (m.afterExit w)
  vmread : ∀ f, Keeps I (instr (.vmread f))
  vmwrite : ∀ f value, Keeps I (instr (.vmwrite f value))

theorem SameVcpu.refl (u : Nexusvcpu) : SameVcpu u u := ⟨rfl, rfl, rfl⟩

theorem SameVcpu.overwritten (u : Nexusvcpu) (a : Addr) (bytes : List UInt8) :
    SameVcpu u (u.overwritten c a bytes) := by
  unfold Nexusvcpu.overwritten
  exact ⟨rfl, rfl, rfl⟩

namespace Invariant

variable (hI : Invariant c I)
include hI

theorem vmxVmread (w : VmxWorld) (f : VmcsField) : Keeps I (vmxVmread w f) := by
  refine (hI.vmread f).bind fun accepted => Keeps.get.bind fun m => ?_
  split <;> exact .pure _

theorem vmxVmwrite (f : VmcsField) (value : UInt64) : Keeps I (vmxVmwrite f value) :=
  (hI.vmwrite f value).discard

theorem writeFields (fields : List (VmcsField × UInt64)) : Keeps I (writeFields fields) :=
  .forEach fun p _ => hI.vmxVmwrite p.1 p.2

theorem advanceRip (w : VmxWorld) : Keeps I (advanceRip w) :=
  (hI.vmxVmread w _).bind fun _ => (hI.vmxVmread w _).bind fun _ => hI.vmxVmwrite _ _

theorem getVcpu_bind {α : Type} {f : Nexusvcpu → VmxM α} (hf : ∀ u, Keeps I (f u)) :
    Keeps I (onHost (getVcpu c) >>= f) := by
  refine Keeps.bind (fun m hm => ?_) hf
  obtain ⟨u, hu, -⟩ := hI.exist m hm
  rw [wp_onHost, wp_getVcpu]
  exact ⟨u, hu, hm⟩

theorem update {f : Nexusvcpu → Nexusvcpu} (hf : ∀ u, SameVcpu u (f u)) :
    Keeps I (do onHost (putVcpu c (f (← onHost (getVcpu c))))) := by
  intro m hm
  obtain ⟨u, hu, -⟩ := hI.exist m hm
  rw [wp_bind, wp_onHost, wp_getVcpu]
  refine ⟨u, hu, ?_⟩
  rw [wp_onHost, wp_putVcpu]
  exact hI.put m u (f u) hm hu (hf u)

theorem modifyGprs (f : GuestGprs → GuestGprs) : Keeps I (modifyGprs c f) :=
  hI.update (f := fun u => { u with cpuState := { u.cpuState with gprs := f u.cpuState.gprs } })
    fun _ => ⟨rfl, rfl, rfl⟩

theorem stopRunning : Keeps I (stopRunning c) :=
  hI.update (f := fun u => { u with running := false }) fun _ => ⟨rfl, rfl, rfl⟩

theorem hypercallHandle (params : HypercallParams) :
    Keeps I (onHost (Host.hypercallHandle c params)) := by
  intro m hm
  obtain ⟨u, hu, hvm⟩ := hI.exist m hm
  obtain ⟨v, hv⟩ := Option.ne_none_iff_exists'.mp hvm
  rw [wp_onHost, Host.hypercallHandle, wp_bind, wp_getVcpu]
  refine ⟨u, hu, ?_⟩
  split_ifs
  · rw [wp_bind, wp_getVm]
    refine ⟨v, hv, ?_⟩
    rw [wp_pure]
    exact hm
  · rw [wp_bind, wp_when]
    refine ⟨fun _ => ?_, fun _ => ?_⟩
    · rw [wp_bind, writeRam, wp_modify, wp_putVcpu, wp_pure]
      exact hI.put _ u _ (hI.mem m _ hm) hu (.overwritten u _ _)
    · rw [wp_pure]
      exact hm
  · rw [wp_bind, wp_when]
    refine ⟨fun _ => ?_, fun _ => ?_⟩
    · rw [wp_bind, readRam, wp_bind, wp_get, wp_pure, wp_putVcpu, wp_pure]
      exact hI.put m u _ hm hu ⟨rfl, rfl, rfl⟩
    · rw [wp_pure]
      exact hm
  · rw [wp_bind, wp_getVm]
    refine ⟨v, hv, ?_⟩
    rw [wp_pure]
    exact hm
  · rw [wp_pure]
    exact hm
  · rw [wp_pure]
    exact hm

/-- **Every handler keeps it.** -/
theorem handleVmexit (w : VmxWorld) (exitReason exitQual : UInt64) :
    Keeps I (vmxHandleVmexit w c exitReason exitQual) := by
  have hrip : Keeps I (do NexusVM.advanceRip w; return Result.ok) :=
    (hI.advanceRip w).bind fun _ => .pure _
  have hgprs : ∀ f, Keeps I (do NexusVM.modifyGprs c f; NexusVM.advanceRip w; return Result.ok) :=
    fun f => (hI.modifyGprs f).bind fun _ => hrip
  unfold vmxHandleVmexit
  split
  · exact (hI.vmxVmread w _).bind fun _ => .pure _
  · exact hI.getVcpu_bind fun u => hgprs _
  · exact hrip
  · exact .pure _
  · exact hI.getVcpu_bind fun u => Keeps.get.bind fun m => hgprs _
  · exact hI.getVcpu_bind fun u => (Keeps.modify fun m hm => hI.msrs m _ hm).bind fun _ => hrip
  · exact hrip
  · exact (hI.vmxVmread w _).bind fun _ => .ite (.pure _) (.ite (.pure _) (.pure _))
  · refine hI.getVcpu_bind fun u => (hI.hypercallHandle _).bind fun r => ?_
    exact (hI.modifyGprs _).bind fun _ => (hI.advanceRip w).bind fun _ => .pure _
  · exact hI.stopRunning.bind fun _ => .pure _
  · exact Keeps.get.bind fun m => hgprs _
  · exact hrip
  · refine hI.getVcpu_bind fun u => ?_
    exact (Keeps.modify fun m hm => hI.xcr0 m _ hm).when.bind fun _ => hrip
  · exact hI.stopRunning.bind fun _ => .pure _
  · exact .pure _
  · exact .pure _

end Invariant

/-! ## Accepted or not -/

/-- Some instruction was not accepted. -/
structure Faulty (c : Addr) (m : Machine) : Prop where
  faulty : ¬ m.vmx.Faultless
  exist : ∃ u, HasVcpu m.host c u

/-- All instructions were accepted; the VMCS at `x` is current, launched or not. -/
structure Running (c region x : Addr) (id : UInt32) (b : Bool) (m : Machine) : Prop where
  faultless : m.vmx.Faultless
  on : m.vmx.cpu.On x b
  exist : ∃ u, HasVcpu m.host c u ∧ u.vcpuId = id ∧ u.vmxVmcsRegion = some region

theorem HasVcpu.put {h : Host} {u u' : Nexusvcpu} (hv : HasVcpu h c u) (hs : SameVcpu u u') :
    HasVcpu (h.setVcpu c (some u')) c u' :=
  ⟨Function.update_self _ _ _, by rw [hs.vm]; exact hv.vm⟩

theorem faulty_instr (i : Vmx.Instr VmcsField) : Keeps (Faulty c) (instr i) := by
  intro m hm
  rw [wp_instr]
  exact wp_mono (Vmx.issue_keeps_fault i m.vmx hm.faulty) fun _ _ ht => ⟨ht, hm.exist⟩

theorem faulty_invariant (c : Addr) : Invariant c (Faulty c) where
  exist m hm := hm.exist
  put m u u' hm hu hs := by
    obtain ⟨w, hw, hvm⟩ := hm.exist
    rw [hu] at hw
    cases hw
    exact ⟨hm.faulty, u', HasVcpu.put ⟨hu, hvm⟩ hs⟩
  mem _ _ hm := ⟨hm.faulty, hm.exist.imp fun _ hu => ⟨hu.vcpu, hu.vm⟩⟩
  msrs _ _ hm := ⟨hm.faulty, hm.exist⟩
  xcr0 _ _ hm := ⟨hm.faulty, hm.exist⟩
  exit _ _ hm := ⟨hm.faulty, hm.exist⟩
  vmread f := faulty_instr (.vmread f)
  vmwrite f value := faulty_instr (.vmwrite f value)

variable {id : UInt32} {b : Bool}

/-- An instruction that spares the current VMCS is accepted. -/
theorem running_instr {i : Vmx.Instr VmcsField} (hi : i.Spares x) :
    Keeps (Running c region x id b) (instr i) := by
  intro m hm
  rw [wp_instr]
  exact wp_mono (Vmx.issue_on hm.faultless hm.on hi) fun _ _ ht => ⟨ht.2.1, ht.2.2, hm.exist⟩

theorem running_invariant (c region x : Addr) (id : UInt32) (b : Bool) :
    Invariant c (Running c region x id b) where
  exist m hm := by
    obtain ⟨u, hu, -⟩ := hm.exist
    exact ⟨u, hu⟩
  put m u u' hm hu hs := by
    obtain ⟨w, ⟨hw, hvm⟩, hid, hregion⟩ := hm.exist
    rw [hu] at hw
    cases hw
    exact ⟨hm.faultless, hm.on, u', HasVcpu.put ⟨hu, hvm⟩ hs, hs.vcpuId.trans hid,
      hs.vmcs.trans hregion⟩
  mem _ _ hm := ⟨hm.faultless, hm.on, hm.exist.imp fun _ hu => ⟨⟨hu.1.vcpu, hu.1.vm⟩, hu.2⟩⟩
  msrs _ _ hm := ⟨hm.faultless, hm.on, hm.exist⟩
  xcr0 _ _ hm := ⟨hm.faultless, hm.on, hm.exist⟩
  exit _ _ hm := ⟨hm.faultless, ⟨hm.on.current, hm.on.launched⟩, hm.exist⟩
  vmread f := running_instr trivial
  vmwrite f value := running_instr trivial

/-! ## The loop -/

/-- **A turn of the loop.** What the instruction that enters the guest leads to is kept from there. -/
theorem Invariant.runOnce {J : Machine → Prop} (hI : Invariant c I) (hJ : Invariant c J)
    (hentry : ∀ m u, I m → m.host.vcpus c = some u → wp (instr (entryInstr u)) (fun _ => J) m)
    (w : VmxWorld) (m : Machine) (hm : I m) : wp (runOnce w c) (fun _ => J) m := by
  obtain ⟨u, hu, -⟩ := hI.exist m hm
  rw [NexusVM.runOnce, wp_bind, wp_onHost, wp_getVcpu]
  refine ⟨u, hu, ?_⟩
  rw [wp_bind, wp_onHost, wp_putVcpu, wp_bind, NexusVM.enterGuest, wp_bind]
  have hm₁ := hI.put m u { u with vmentryCount := u.vmentryCount + 1 } hm hu ⟨rfl, rfl, rfl⟩
  refine wp_mono (hentry _ { u with vmentryCount := u.vmentryCount + 1 } hm₁
    (Function.update_self _ _ _)) ?_
  intro accepted m₂ hm₂
  refine wp_mono ((Keeps.modify fun m hm => hJ.exit w m hm).when m₂ hm₂) ?_
  intro _ m₃ hm₃
  have hcount := hJ.update (f := fun u => { u with vmexitCount := u.vmexitCount + 1 })
    fun _ => ⟨rfl, rfl, rfl⟩
  have hrest := hcount.bind fun _ => (hJ.vmxVmread w .vmExitReason).bind fun exitReason =>
    (hJ.vmxVmread w .vmExitQualification).bind fun exitQual => hJ.handleVmexit w exitReason exitQual
  rw [bind_assoc] at hrest
  exact hrest m₃ hm₃

theorem Invariant.runLoop (hI : Invariant c I) (hturn : Keeps I (NexusVM.runOnce w c)) (n : ℕ) :
    Keeps I (runLoop w c n) := by
  induction n with
  | zero => exact .pure _
  | succ n ih =>
    exact hI.getVcpu_bind fun u => .ite (.pure _) (hturn.bind fun r => .ite (.pure _) ih)

theorem faulty_runOnce (w : VmxWorld) (c : Addr) : Keeps (Faulty c) (runOnce w c) :=
  (faulty_invariant c).runOnce (faulty_invariant c) (fun m _ hm _ => faulty_instr _ m hm) w

/-- Entering the guest is refused where the VMCS is launched and the vCPU has number 0, or the VMCS is
not launched and the vCPU has another number. -/
theorem runOnce_refused (hrefused : id = 0 ↔ b = true) (w : VmxWorld)
    (hm : Running c region x id b m) : wp (runOnce w c) (fun _ => Faulty c) m := by
  refine (running_invariant c region x id b).runOnce (faulty_invariant c) (fun m u hm hu => ?_) w m hm
  obtain ⟨u', hu', hid, -⟩ := hm.exist
  obtain rfl : u' = u := Option.some.inj (hu'.vcpu.symm.trans hu)
  have hstep : m.vmx.cpu.step (entryInstr u') = none := by
    by_cases h0 : id = 0
    · rw [entryInstr, if_pos (hid.trans h0), hm.on.step_vmlaunch, if_pos (hrefused.mp h0)]
    · rw [entryInstr, if_neg (hid.trans_ne h0), hm.on.step_vmresume, if_neg fun hb => h0 (hrefused.mpr hb)]
  rw [wp_instr]
  exact wp_mono (Vmx.issue_refused hstep) fun _ _ ht => ⟨ht.2, u', hu'⟩

/-- A launched VMCS is resumed by a vCPU with another number than 0. -/
theorem running_runOnce (hid : id ≠ 0) (w : VmxWorld) :
    Keeps (Running c region x id true) (runOnce w c) := by
  refine (running_invariant c region x id true).runOnce (running_invariant c region x id true)
    (fun m u hm hu => ?_) w
  obtain ⟨u', hu', hid', -⟩ := hm.exist
  obtain rfl : u' = u := Option.some.inj (hu'.vcpu.symm.trans hu)
  rw [entryInstr, if_neg (hid'.trans_ne hid), wp_instr, Vmx.wp_issue, hm.on.step_vmresume, if_pos rfl]
  refine ⟨fun cpu he => ?_, nofun⟩
  cases he
  exact ⟨Vmx.Traced.faultless_append.mpr ⟨hm.faultless, rfl⟩, hm.on, hm.exist⟩

/-- **A field of the current VMCS is read.** -/
theorem vmxVmread_spec (hf : m.vmx.Faultless) (hon : m.vmx.cpu.On x b) (f : VmcsField) :
    wp (vmxVmread w f) (fun value m' => value = m.vmx.cpu.contents x f ∧ m'.host = m.host ∧
      m'.vmx.cpu = m.vmx.cpu ∧ m'.vmx.Faultless) m := by
  have hstep : m.vmx.cpu.step (.vmread f) = some m.vmx.cpu := by
    rw [Vmx.Cpu.step, hon.current, Option.map_some]
  rw [vmxVmread, wp_bind, wp_instr, Vmx.wp_issue, hstep]
  refine ⟨fun cpu he => ?_, by simp⟩
  cases he
  rw [wp_bind, wp_get]
  simp only [Machine.setVmx, hon.current, wp_pure]
  exact ⟨trivial, trivial, trivial, Vmx.Traced.faultless_append.mpr ⟨hf, rfl⟩⟩

/-- A guest that is interrupted as soon as it is entered. -/
def interrupted : ℕ → (VmcsField → UInt64) → VmcsField → UInt64 :=
  fun _ contents => Function.update contents .vmExitReason 1

theorem enterGuest_interrupted (hf : m.vmx.Faultless) (hon : m.vmx.cpu.On x false) :
    wp (enterGuest { w with guest := interrupted } .vmlaunch) (fun _ m' => m'.host = m.host ∧
      m'.vmx.Faultless ∧ m'.vmx.cpu.On x true ∧ m'.vmx.cpu.contents x .vmExitReason = 1) m := by
  rw [enterGuest, wp_bind, wp_instr, Vmx.wp_issue, hon.step_vmlaunch, if_neg Bool.false_ne_true]
  refine ⟨fun cpu he => ?_, nofun⟩
  cases he
  rw [wp_when]
  refine ⟨fun _ => ?_, fun hne => absurd rfl hne⟩
  rw [wp_modify]
  refine ⟨rfl, Vmx.Traced.faultless_append.mpr ⟨hf, rfl⟩, ⟨hon.current, Function.update_self _ _ _⟩, ?_⟩
  change (if m.vmx.cpu.current = some x then interrupted m.entries (m.vmx.cpu.contents x)
    else m.vmx.cpu.contents x) .vmExitReason = 1
  rw [if_pos hon.current]
  exact Function.update_self _ _ _

/-- Its vCPU runs on, with its VMCS launched. -/
theorem runOnce_interrupted (hm : Running c region x 0 false m)
    (hrun : ∀ u, m.host.vcpus c = some u → u.running = true) :
    wp (runOnce { w with guest := interrupted } c) (fun r m' => r = .ok ∧
      Running c region x 0 true m' ∧ ∀ u, m'.host.vcpus c = some u → u.running = true) m := by
  obtain ⟨u, hu, hid, hregion⟩ := hm.exist
  rw [runOnce, wp_bind, wp_onHost, wp_getVcpu, Machine.setHost_self]
  refine ⟨u, hu.vcpu, ?_⟩
  rw [wp_bind, wp_onHost, wp_putVcpu, wp_bind, entryInstr, if_pos hid]
  refine wp_mono (enterGuest_interrupted (m := m.setHost _) hm.faultless hm.on) ?_
  rintro _ m₁ ⟨hhost₁, hf₁, hon₁, hreason⟩
  have hself : m₁.host.vcpus c = some { u with vmentryCount := u.vmentryCount + 1 } := by
    rw [hhost₁]
    exact Function.update_self _ _ _
  rw [wp_bind, wp_onHost, wp_getVcpu, Machine.setHost_self]
  refine ⟨_, hself, ?_⟩
  rw [wp_bind, wp_onHost, wp_putVcpu]
  -- both counters have been advanced
  generalize hcount : { u with
    vmentryCount := u.vmentryCount + 1, vmexitCount := u.vmexitCount + 1 } = u'
  generalize hm₂ : m₁.setHost (m₁.host.setVcpu c (some u')) = m₂
  have hf₂ : m₂.vmx.Faultless := hm₂ ▸ hf₁
  have hon₂ : m₂.vmx.cpu.On x true := hm₂ ▸ hon₁
  have hreason₂ : m₂.vmx.cpu.contents x .vmExitReason = 1 := hm₂ ▸ hreason
  rw [wp_bind]
  refine wp_mono (vmxVmread_spec hf₂ hon₂ _) ?_
  rintro reason m₃ ⟨hreason₃, hhost₃, hcpu₃, hf₃⟩
  rw [wp_bind]
  refine wp_mono (vmxVmread_spec hf₃ (by rw [hcpu₃]; exact hon₂) _) ?_
  rintro qual m₄ ⟨-, hhost₄, hcpu₄, hf₄⟩
  have hselect : w.exitCodes.select (((1 : UInt64) &&& 0xFFFF).toUInt16) = .interrupt := rfl
  rw [hreason₃, hreason₂, vmxHandleVmexit]
  dsimp only
  rw [hselect]
  dsimp only
  rw [vmxHandleInterrupt, wp_bind]
  refine wp_mono (vmxVmread_spec (b := true) (x := x) hf₄ (by rw [hcpu₄, hcpu₃]; exact hon₂) _) ?_
  rintro _ m₅ ⟨-, hhost₅, hcpu₅, hf₅⟩
  rw [wp_pure]
  have hhost : m₅.host = m₁.host.setVcpu c (some u') :=
    hhost₅.trans (hhost₄.trans (hhost₃.trans (by rw [← hm₂]; rfl)))
  have hself₅ : m₅.host.vcpus c = some u' := by
    rw [hhost]
    exact Function.update_self _ _ _
  subst hcount
  refine ⟨rfl, ⟨hf₅, by rw [hcpu₅, hcpu₄, hcpu₃]; exact hon₂, _, ⟨hself₅, ?_⟩, hid, hregion⟩, ?_⟩
  · rw [hhost]
    change m₁.host.vms u.vm ≠ none
    rw [hhost₁]
    exact hu.vm
  · intro u' hu'
    rw [hself₅] at hu'
    cases hu'
    exact hrun u hu.vcpu

/-! ## Set-up -/

/-- A stopped vCPU of an Intel host that has not been set up yet. -/
structure Startable (h : Host) (c region : Addr) (u : Nexusvcpu) : Prop extends HasVcpu h c u where
  running : u.running = false
  initialized : u.initialized = false
  vmxon : u.vmxOnRegion.isSome
  vmcs : u.vmxVmcsRegion = some region
  intel : h.hv.cpuVendor = .intel

/-- What `vmx_on` leaves in `vcpu_id`. -/
def Host.vmxOnResult (h : Host) : UInt32 := if h.vendor.vmxOnFails h.setups then 0xFFFFFFFF else 0

/-- The host after a setup: the number of the vCPU has changed. -/
def Host.setUp (h : Host) (c : Addr) (u : Nexusvcpu) : Host :=
  (h.setVcpu c (some { u with vcpuId := h.vmxOnResult })).countSetup

/-- From a trace that satisfies `P` the instruction leads to one that satisfies `Q`. -/
def Leads (P : Vmx.Traced VmcsField → Prop) (i : Vmx.Instr VmcsField)
    (Q : Vmx.Traced VmcsField → Prop) : Prop := ∀ t, P t → wp (Vmx.issue i) (fun _ => Q) t

/-- The state of the program, and what is known of the trace. -/
def At (h : Host) (P : Vmx.Traced VmcsField → Prop) (m : Machine) : Prop := m.host = h ∧ P m.vmx

variable {u : Nexusvcpu} {h : Host} {P Q R : Vmx.Traced VmcsField → Prop}

/-- An instruction does nothing but what it does to the processor. -/
theorem instr_spec {i : Vmx.Instr VmcsField} (hi : Leads P i Q) (hm : At h P m) :
    wp (instr i) (fun _ => At h Q) m := by
  obtain ⟨rfl, hP⟩ := hm
  rw [wp_instr]
  exact wp_mono (hi m.vmx hP) fun _ _ ht => ⟨rfl, ht⟩

theorem vmxOn_spec (hu : m.host.vcpus c = some u) (hon : u.vmxOnRegion.isSome)
    (hi : wp (Vmx.issue (.vmxon (w.enters m.host.setups))) (fun _ => P) m.vmx) :
    wp (vmxOn w c) (fun _ => At (m.host.setUp c u) P) m := by
  rw [vmxOn, wp_bind, wp_onHost, wp_getVcpu]
  refine ⟨u, hu, ?_⟩
  rw [if_neg (fun hnone => by rw [Option.isNone_eq_false_iff.mpr hon] at hnone; cases hnone),
    wp_bind, wp_get, wp_bind, wp_instr]
  refine wp_mono hi ?_
  intro _ t ht
  rw [wp_bind, wp_onHost, wp_putVcpu, wp_bind, wp_onHost, wp_modify, wp_pure]
  exact ⟨rfl, ht⟩

theorem vmxVmcsClear_spec (hu : h.vcpus c = some u) (hregion : u.vmxVmcsRegion = some region)
    (hi : Leads P (.vmclear region) Q) (hm : At h P m) :
    wp (vmxVmcsClear c) (fun _ => At h Q) m := by
  rw [vmxVmcsClear, wp_bind, wp_onHost, wp_getVcpu]
  refine ⟨u, by rw [hm.1]; exact hu, ?_⟩
  rw [hregion, wp_bind]
  refine wp_mono (instr_spec hi hm) ?_
  intro b m' hm'
  rw [wp_pure]
  exact hm'

theorem writeFields_spec (hwrite : ∀ f value, Leads Q (.vmwrite f value) Q)
    (fields : List (VmcsField × UInt64)) : Keeps (At h Q) (writeFields fields) :=
  .forEach fun p _ => Keeps.discard fun _ hm => instr_spec (hwrite p.1 p.2) hm

/-- **The VMWRITEs of a setup**: the first leads from `P` to `Q`, and all others keep `Q`. -/
theorem writeVmcs_spec {hv : Hypervisor} (hvm : h.vms u.vm ≠ none)
    (hfirst : ∀ f value, Leads P (.vmwrite f value) Q)
    (hwrite : ∀ f value, Leads Q (.vmwrite f value) Q) (hm : At h P m) :
    wp (writeVmcs w hv u) (fun _ => At h Q) m := by
  obtain ⟨v, hv'⟩ := Option.ne_none_iff_exists'.mp hvm
  rw [writeVmcs, wp_bind, writeFields, controlFields, forEach, wp_bind, vmxVmwrite, wp_discard]
  refine wp_mono (instr_spec (hfirst _ _) hm) ?_
  intro _ m₁ hm₁
  refine wp_mono (writeFields_spec hwrite _ m₁ hm₁) ?_
  intro _ m₂ hm₂
  rw [wp_bind]
  refine wp_mono (Keeps.when (I := At h Q) (Keeps.bind (fun m' hm' => ?_) fun v => ?_) m₂ hm₂) ?_
  · rw [wp_onHost, wp_getVm]
    exact ⟨v, by rw [hm'.1]; exact hv', hm'⟩
  · exact Keeps.when (Keeps.discard fun _ hm => instr_spec (hwrite _ _) hm)
  · intro _ m₃ hm₃
    exact writeFields_spec hwrite _ m₃ hm₃

/-- **A setup.** The two instructions before the first VMWRITE lead to `P`; it leads to `Q`, and all
others keep `Q`. -/
theorem setupVmcs_spec (hinit : m.host.gInitialized = true) (hs : Startable m.host c region u)
    (hon : wp (Vmx.issue (.vmxon (w.enters m.host.setups))) (fun _ => R) m.vmx)
    (hopen : Leads R (.vmclear region) P) (hfirst : ∀ f value, Leads P (.vmwrite f value) Q)
    (hwrite : ∀ f value, Leads Q (.vmwrite f value) Q) (hclear : Leads Q (.vmclear region) Q) :
    wp (setupVmcs w c) (fun r m' => r = .ok ∧ At (m.host.setUp c u) Q m') m := by
  have hself : (m.host.setUp c u).vcpus c = some { u with vcpuId := m.host.vmxOnResult } :=
    Function.update_self _ _ _
  rw [setupVmcs, wp_bind, wp_onHost, wp_getVcpu]
  refine ⟨u, hs.vcpu, ?_⟩
  have hregions : ¬ (u.vmxOnRegion.isNone || u.vmxVmcsRegion.isNone) = true := by
    rw [hs.vmcs, Option.isNone_some, Bool.or_false, Option.isNone_eq_false_iff.mpr hs.vmxon]
    exact Bool.false_ne_true
  rw [if_neg hregions, wp_bind, wp_onHost, wp_getHv]
  refine ⟨hinit, ?_⟩
  rw [wp_bind]
  refine wp_mono (vmxOn_spec (m := m.setHost m.host) hs.vcpu hs.vmxon hon) ?_
  intro _ m₁ hm₁
  rw [wp_bind]
  refine wp_mono (vmxVmcsClear_spec hself hs.vmcs hopen hm₁) ?_
  intro _ m₂ hm₂
  rw [wp_bind]
  refine wp_mono (writeVmcs_spec (h := m.host.setUp c u) hs.vm hfirst hwrite hm₂) ?_
  intro _ m₃ hm₃
  rw [wp_bind]
  refine wp_mono (vmxVmcsClear_spec hself hs.vmcs hclear hm₃) ?_
  intro _ m₄ hm₄
  rw [wp_pure]
  exact ⟨rfl, hm₄⟩

/-! ## Start -/

theorem schedulerAddVcpu_same (hu : h.vcpus c = some u) :
    wlp (schedulerAddVcpu (some c)) (fun _ h' => ∃ u', h'.vcpus c = some u' ∧ SameVcpu u u') h := by
  rw [schedulerAddVcpu, wlp_bind, wlp_getVcpu]
  intro u₁ hu₁
  rw [hu] at hu₁
  cases hu₁
  have hcpu : wlp (homeCpu u) (fun _ h' => h' = h) h := by
    rw [homeCpu, wlp_bind, wlp_get]
    refine wlp_ite (fun _ => ?_) fun _ => ?_
    · rw [wlp_bind, wlp_require, wlp_pure]
      exact fun _ => rfl
    · rw [wlp_pure]
  rw [wlp_bind]
  refine wlp_mono hcpu ?_
  rintro cpu _ rfl
  cases hse : u.schedEntity with
  | some e =>
    simp only [wlp_bind, wlp_getLinks, wlp_putLinks, wlp_pure]
    exact ⟨u, hu, .refl u⟩
  | none =>
    rw [wlp_bind]
    refine wlp_mono (calloc_spec _ _ _ _).wlp ?_
    rintro o _ ⟨mem, rfl, -⟩
    cases o with
    | none =>
      rw [wlp_pure]
      exact ⟨u, hu, .refl u⟩
    | some e =>
      simp only [wlp_bind, wlp_getVm, wlp_putVcpu, wlp_putEntity, wlp_getLinks, wlp_putLinks, wlp_pure]
      exact fun v _ => ⟨_, Function.update_self _ _ _, rfl, rfl, rfl⟩

/-- **A start**: the vCPU has been set up and is running. -/
theorem startVcpu_spec {A : Addr → Prop} (hl : Layout A m.host) (hs : Startable m.host c region u)
    (hon : wp (Vmx.issue (.vmxon (w.enters m.host.setups))) (fun _ => R) m.vmx)
    (hopen : Leads R (.vmclear region) P) (hfirst : ∀ f value, Leads P (.vmwrite f value) Q)
    (hwrite : ∀ f value, Leads Q (.vmwrite f value) Q) (hclear : Leads Q (.vmclear region) Q) :
    wp (startVcpu w c) (fun _ m' => Q m'.vmx ∧ ∃ u', HasVcpu m'.host c u' ∧
      u'.vcpuId = m.host.vmxOnResult ∧ u'.vmxVmcsRegion = some region ∧ u'.running = true ∧
        u'.initialized = true) m := by
  have hsetup : wp (setupVendor w c) (fun r m' => r = .ok ∧ At (m.host.setUp c u) Q m') m := by
    rw [setupVendor, wp_bind, wp_onHost, wp_getHv, Machine.setHost_self]
    refine ⟨hl.initialized, ?_⟩
    rw [hs.intel]
    exact setupVmcs_spec hl.initialized hs hon hopen hfirst hwrite hclear
  rw [startVcpu, wp_bind, wp_onHost, wp_getVcpu, Machine.setHost_self]
  refine ⟨u, hs.vcpu, ?_⟩
  rw [if_neg (by rw [hs.running]; exact Bool.false_ne_true), if_pos (by rw [hs.initialized]; rfl),
    wp_bind]
  refine wp_mono hsetup ?_
  rintro _ m₁ ⟨rfl, hhost, hQ⟩
  have hself : m₁.host.vcpus c = some { u with vcpuId := m.host.vmxOnResult } := by
    rw [hhost]
    exact Function.update_self _ _ _
  have hl₁ : Layout A m₁.host := by
    rw [hhost]
    exact (hl.setVcpu { u with vcpuId := m.host.vmxOnResult } hs.vcpu rfl rfl).same
      ⟨rfl, rfl, rfl, rfl, rfl⟩ rfl rfl rfl rfl fun _ => id
  have hvms : m₁.host.vms = m.host.vms := by
    rw [hhost]
    rfl
  have hl₂ := hl₁.setVcpu { u with vcpuId := m.host.vmxOnResult, initialized := true } hself rfl rfl
  have hl₃ := hl₂.setVcpu
    { u with vcpuId := m.host.vmxOnResult, initialized := true, running := true }
    (Function.update_self _ _ _) rfl rfl
  rw [if_neg (not_not.mpr rfl)]
  simp only [wp_bind, wp_onHost, wp_getVcpu, wp_putVcpu, wp_pure]
  refine ⟨_, hself, _, Function.update_self _ _ _, ?_⟩
  -- the vCPU is queued
  refine wp_mono (wp_and_wlp (schedulerAddVcpu_spec hl₃ (Function.update_self _ _ _) ?_)
    (schedulerAddVcpu_same (Function.update_self _ _ _))) ?_
  · exact fun hnone => hs.vm (by rw [← hvms]; exact hnone)
  rintro _ h₄ ⟨⟨-, ht, u', hu', hrun, hini, -⟩, u'', hu'', hsame⟩
  rw [hu'] at hu''
  cases hu''
  refine ⟨hQ, u', ⟨hu', ?_⟩, hsame.vcpuId, hsame.vmcs.trans hs.vmcs, hrun, hini⟩
  change h₄.vms u'.vm ≠ none
  rw [hsame.vm, ht.vms]
  exact fun hnone => hs.vm (by rw [← hvms]; exact hnone)

/-! ## The protocol -/

variable {n : ℕ}

/-- **A run** of a vCPU that has been set up: what holds at its start holds when the loop is reached. -/
theorem vcpuRun_spec {J : Option Result → Machine → Prop} (hI : Invariant c I)
    (hclear : Keeps I (instr (.vmclear region))) (hm : I m) (hu : m.host.vcpus c = some u)
    (hini : u.initialized = true) (hregion : u.vmxVmcsRegion = some region)
    (hloop : ∀ m', I m' → (∀ u', m'.host.vcpus c = some u' → u'.running = u.running) →
      wp (runLoop w c n) J m') : wp (vcpuRun w c n) J m := by
  have hm₁ := hI.put m u { u with vmentryCount := u.vmentryCount + 1 } hm hu ⟨rfl, rfl, rfl⟩
  rw [vcpuRun, wp_bind, wp_onHost, wp_getVcpu, Machine.setHost_self]
  refine ⟨u, hu, ?_⟩
  rw [if_neg (by rw [hini]; exact Bool.false_ne_true), wp_bind, wp_onHost, wp_putVcpu]
  generalize hg : m.setHost (m.host.setVcpu c (some { u with vmentryCount := u.vmentryCount + 1 })) = m₁
    at hm₁ ⊢
  have hu₁ : m₁.host.vcpus c = some { u with vmentryCount := u.vmentryCount + 1 } := by
    rw [← hg]
    exact Function.update_self _ _ _
  rw [vmxVcpuRun, wp_bind, wp_onHost, wp_getVcpu, Machine.setHost_self]
  refine ⟨_, hu₁, ?_⟩
  rw [if_neg (by rw [hregion]; exact Bool.false_ne_true), wp_bind, vmxVmcsClear, wp_bind, wp_onHost,
    wp_getVcpu, Machine.setHost_self]
  refine ⟨_, hu₁, ?_⟩
  have hcleared := hclear m₁ hm₁
  rw [wp_instr] at hcleared
  rw [hregion, wp_bind, wp_instr]
  refine wp_mono hcleared ?_
  intro _ t ht
  rw [wp_pure]
  refine hloop _ ht fun u' hu' => ?_
  rw [show (m₁.setVmx t).host.vcpus c = m₁.host.vcpus c from rfl, hu₁] at hu'
  cases hu'
  rfl

/-- `vcpu_start`, and then `vcpu_run` with its loop for up to `n` times. -/
def startAndRun (w : VmxWorld) (c : Addr) (n : ℕ) : VmxM (Option Result) := do
  let _ ← startVcpu w c
  vcpuRun w c n

/-- The set-up of a vCPU is refused where no VMCS is current after its VMXON but perhaps its own. -/
theorem startAndRun_faulty {A : Addr → Prop} (hl : Layout A m.host)
    (hs : Startable m.host c region u)
    (hnone : w.enters m.host.setups = true ∨ m.vmx.cpu.current = none ∨
      m.vmx.cpu.current = some region) (n : ℕ) :
    wp (startAndRun w c n) (fun _ m' => ¬ m'.vmx.Faultless) m := by
  have hon : wp (Vmx.issue (.vmxon (w.enters m.host.setups))) (fun _ t =>
      t.cpu.current = none ∨ t.cpu.current = some region) m.vmx := by
    refine Vmx.wp_issue.mpr ⟨fun cpu hstep => ?_, nofun⟩
    cases hstep
    rcases hnone with hent | hcur
    · rw [hent]
      exact .inl rfl
    · split_ifs
      · exact .inl rfl
      · exact hcur
  have hopen : Leads (fun t => t.cpu.current = none ∨ t.cpu.current = some region) (.vmclear region)
      (fun t => t.cpu.current = none) := by
    refine fun t ht => Vmx.wp_issue.mpr ⟨fun cpu hstep => ?_, nofun⟩
    cases hstep
    change (if t.cpu.current = some region then none else t.cpu.current) = none
    split_ifs with hcur
    · rfl
    · exact ht.resolve_right hcur
  have hfirst : ∀ f value, Leads (fun t => t.cpu.current = none) (.vmwrite f value)
      (fun t => ¬ t.Faultless) := fun f value t ht =>
    wp_mono (Vmx.issue_refused (Vmx.Cpu.step_vmwrite_eq_none ht f value)) fun _ _ hf => hf.2
  rw [startAndRun, wp_bind]
  refine wp_mono (startVcpu_spec hl hs hon hopen hfirst (fun _ _ => Vmx.issue_keeps_fault _)
    (Vmx.issue_keeps_fault _)) ?_
  rintro _ m₁ ⟨hfault, u', hu', -, hregion, -, hini⟩
  refine vcpuRun_spec (faulty_invariant c) (faulty_instr _) ⟨hfault, u', hu'⟩ hu'.vcpu hini hregion ?_
  intro m₂ hm₂ _
  refine wp_mono ((faulty_invariant c).runLoop (faulty_runOnce w c) n m₂ hm₂) ?_
  exact fun _ _ hm => hm.faulty

/-- Otherwise the set-up is accepted, and the loop begins with that VMCS. -/
theorem startAndRun_running {A : Addr → Prop} {J : Option Result → Machine → Prop}
    (hl : Layout A m.host) (hs : Startable m.host c region u) (hf : m.vmx.Faultless)
    (henters : w.enters m.host.setups = false) (hne : x ≠ region) (hon : m.vmx.cpu.On x b)
    (hloop : ∀ m', Running c region x m.host.vmxOnResult b m' →
      (∀ u', m'.host.vcpus c = some u' → u'.running = true) → wp (runLoop w c n) J m') :
    wp (startAndRun w c n) J m := by
  have hspares : ∀ i : Vmx.Instr VmcsField, i.Spares x →
      Leads (fun t => t.Faultless ∧ t.cpu.On x b) i (fun t => t.Faultless ∧ t.cpu.On x b) :=
    fun i hi t ht => wp_mono (Vmx.issue_on ht.1 ht.2 hi) fun _ _ h => h.2
  rw [startAndRun, wp_bind]
  refine wp_mono (startVcpu_spec hl hs (hspares (.vmxon (w.enters m.host.setups)) henters m.vmx ⟨hf, hon⟩)
    (hspares (.vmclear region) hne.symm) (fun f value => hspares (.vmwrite f value) trivial)
    (fun f value => hspares (.vmwrite f value) trivial) (hspares (.vmclear region) hne.symm)) ?_
  rintro _ m₁ ⟨⟨hf₁, hon₁⟩, u', hu', hid, hregion, hrun, hini⟩
  refine vcpuRun_spec (running_invariant c region x _ b) (running_instr hne.symm)
    ⟨hf₁, hon₁, u', hu', hid, hregion⟩ hu'.vcpu hini hregion fun m₂ hm₂ hrun₂ => ?_
  exact hloop m₂ hm₂ fun u'' hu'' => (hrun₂ u'' hu'').trans hrun

/-- A refused entry is in the trace from then on. -/
theorem runLoop_refused (hrefused : id = 0 ↔ b = true) (hm : Running c region x id b m)
    (hrun : ∀ u, m.host.vcpus c = some u → u.running = true) (n : ℕ) :
    wp (runLoop w c (n + 1)) (fun _ m' => ¬ m'.vmx.Faultless) m := by
  obtain ⟨u, hu, -⟩ := hm.exist
  rw [runLoop, wp_bind, wp_onHost, wp_getVcpu, Machine.setHost_self]
  refine ⟨u, hu.vcpu, ?_⟩
  rw [if_neg (by rw [hrun u hu.vcpu]; exact Bool.false_ne_true), wp_bind]
  refine wp_mono (runOnce_refused hrefused w hm) ?_
  intro r m₁ hm₁
  refine wp_ite (fun _ => ?_) fun _ => ?_
  · rw [wp_pure]
    exact hm₁.faulty
  · exact wp_mono ((faulty_invariant c).runLoop (faulty_runOnce w c) n m₁ hm₁) fun _ _ hm => hm.faulty

/-- A vCPU with number 0 launches its VMCS again after the first exit. -/
theorem runLoop_relaunched (hm : Running c region x 0 false m)
    (hrun : ∀ u, m.host.vcpus c = some u → u.running = true) :
    wp (runLoop { w with guest := interrupted } c 2) (fun _ m' => ¬ m'.vmx.Faultless) m := by
  obtain ⟨u, hu, -⟩ := hm.exist
  rw [runLoop, wp_bind, wp_onHost, wp_getVcpu, Machine.setHost_self]
  refine ⟨u, hu.vcpu, ?_⟩
  rw [if_neg (by rw [hrun u hu.vcpu]; exact Bool.false_ne_true), wp_bind]
  refine wp_mono (runOnce_interrupted hm hrun) ?_
  rintro _ m₁ ⟨rfl, hm₁, hrun₁⟩
  rw [if_neg (not_not.mpr rfl)]
  exact runLoop_refused (iff_of_true rfl rfl) hm₁ hrun₁ 0

/-- **When the launch protocol is kept.** Starting a vCPU and running it, for any guest and any number
of exits, issues only instructions that are accepted if and only if VMXON leaves the processor as it
is but is not taken for successful, and a VMCS that is not the vCPU's own is current and launched. -/
theorem launch_accepted_iff {A : Addr → Prop} (hl : Layout A m.host)
    (hs : Startable m.host c region u) (hf : m.vmx.Faultless) :
    (∀ guest n, wp (startAndRun { w with guest := guest } c n) (fun _ m' => m'.vmx.Faultless) m) ↔
      w.enters m.host.setups = false ∧ m.host.vmxOnResult ≠ 0 ∧
        ∃ x, x ≠ region ∧ m.vmx.cpu.On x true := by
  constructor
  · intro hall
    have hcontra : ∀ guest n, ¬ wp (startAndRun { w with guest := guest } c n)
        (fun _ m' => ¬ m'.vmx.Faultless) m := by
      intro guest n hfault
      obtain ⟨r, m', hrun, hm'⟩ := hall guest n
      exact wp_run hfault hrun hm'
    have henters : w.enters m.host.setups = false :=
      Bool.eq_false_iff.mpr fun ht => hcontra w.guest 0 (startAndRun_faulty hl hs (.inl ht) 0)
    cases hcur : m.vmx.cpu.current with
    | none => exact absurd (startAndRun_faulty hl hs (.inr (.inl hcur)) 0) (hcontra w.guest 0)
    | some x =>
      have hne : x ≠ region := by
        rintro rfl
        exact hcontra w.guest 0 (startAndRun_faulty hl hs (.inr (.inr hcur)) 0)
      -- the loop must enter the guest by the right instruction, each time
      have hright : ¬ (m.host.vmxOnResult = 0 ↔ m.vmx.cpu.launched x = true) := fun hrefused =>
        hcontra w.guest 1 (startAndRun_running hl hs hf henters hne ⟨hcur, rfl⟩
          fun m' hm' hrun => runLoop_refused hrefused hm' hrun 0)
      have hid : m.host.vmxOnResult ≠ 0 := by
        intro hid
        have hnot : m.vmx.cpu.launched x = false :=
          Bool.eq_false_iff.mpr fun hb => hright (iff_of_true hid hb)
        refine hcontra interrupted 2 (startAndRun_running hl hs hf henters hne ⟨hcur, hnot⟩ ?_)
        intro m' hm' hrun
        rw [hid] at hm'
        exact runLoop_relaunched hm' hrun
      refine ⟨henters, hid, x, hne, hcur, ?_⟩
      by_contra hb
      exact hright (iff_of_false hid hb)
  · rintro ⟨henters, hid, x, hne, hon⟩ guest n
    refine startAndRun_running hl hs hf henters hne hon fun m' hm' _ => ?_
    refine wp_mono ((running_invariant c region x _ true).runLoop (running_runOnce hid _) n m' hm') ?_
    exact fun _ _ hm => hm.faultless

theorem launch_accepted_iff_bare : ∃ h u,
    (runOps HvOp.run [.create { vcpuCount := 1 }]).run (bootHost 1 .intel) = some ((), h) ∧
      h.vcpus 81920 = some u ∧
      ((∀ guest n, wp (startAndRun { bareWorld with guest := guest } 81920 n)
        (fun _ m' => m'.vmx.Faultless) (bareMachine h)) ↔
        bareWorld.enters h.setups = false ∧ h.vmxOnResult ≠ 0 ∧
          ∃ x, x ≠ 163840 ∧ (bareMachine h).vmx.cpu.On x true) := by
  have hres : ((runOps HvOp.run [.create { vcpuCount := 1 }]).run (bootHost 1 .intel)).any (fun p =>
      (p.2.vcpus 81920).any fun u => (p.2.vms u.vm).isSome && u.running = false && u.initialized = false &&
        u.vmxOnRegion.isSome && u.vmxVmcsRegion = some 163840 && p.2.hv.cpuVendor = .intel) = true := by
    decide +kernel
  obtain ⟨⟨⟨⟩, h⟩, hrun, hres⟩ := (Option.any_eq_true _ _).mp hres
  obtain ⟨u, hu, hres⟩ := (Option.any_eq_true _ _).mp hres
  simp only [Bool.and_eq_true, decide_eq_true_eq] at hres
  obtain ⟨⟨⟨⟨⟨hvm, hstopped⟩, hnew⟩, hon⟩, hvmcs⟩, hintel⟩ := hres
  have hi : HvInv h := hvInv_run (boot_bootHost (by decide) .intel) hrun
  have hs : Startable (bareMachine h).host 81920 163840 u :=
    ⟨⟨hu, Option.isSome_iff_ne_none.mp hvm⟩, hstopped, hnew, hon, hvmcs, hintel⟩
  exact ⟨h, u, hrun, hu, launch_accepted_iff hi.good.layout hs nofun⟩

/-- **The first VMWRITE is refused.** VMXON leaves no VMCS current, VMCLEAR makes none current, and
VMPTRLD is not issued. -/
theorem first_vmwrite_refused : ∃ h m' r,
    (runOps HvOp.run [.create { vcpuCount := 1 }]).run (bootHost 1 .intel) = some ((), h) ∧
      (startAndRun bareWorld 81920 1).run (bareMachine h) = some (r, m') ∧ ¬ m'.vmx.Faultless ∧
      (m'.vmx.issued.map Prod.snd).take 3 = [true, true, false] := by
  have hres : ((runOps HvOp.run [.create { vcpuCount := 1 }]).run (bootHost 1 .intel)).any (fun p =>
      ((startAndRun bareWorld 81920 1).run (bareMachine p.2)).any fun q =>
        (q.2.vmx.issued.any fun e => e.2 = false) &&
          (q.2.vmx.issued.map Prod.snd).take 3 = [true, true, false]) = true := by decide +kernel
  obtain ⟨⟨⟨⟩, h⟩, hrun, hres⟩ := (Option.any_eq_true _ _).mp hres
  simp only [Bool.and_eq_true, Option.any_eq_true, List.any_eq_true, decide_eq_true_eq] at hres
  obtain ⟨⟨r, m'⟩, hrun', ⟨e, he, hrefused⟩, htake⟩ := hres
  refine ⟨h, m', r, hrun, hrun', fun hf => ?_, htake⟩
  rw [hf e he] at hrefused
  cases hrefused

end NexusVM
