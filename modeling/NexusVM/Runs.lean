import NexusVM.Registry

/-!
# Runs of the hypervisor

* `LifecycleOp`, `HvOp`: calls on one VM, and all calls that change VMs or runqueues;
* `LifeStep`, `HvStep`: what each call can do, said once;
* `lifecycle_spec`, **`hvOp_spec`**: each call is such a step and keeps `HvInv`;
* **`lifecycle_coherent`**: in every run the flags of the vCPUs of a VM agree with its state.
-/

namespace NexusVM

open Prog

variable {h h' : Host} {a : Addr} {v : Nexusvm}

/-! ## Calls on one VM -/

/-- A lifecycle call. -/
inductive LifecycleOp
  | start
  | stop
  | pause
  | resume
  | reset (cold : Bool)

/-- The call on the VM at `vm`. -/
def LifecycleOp.run (vm : Addr) : LifecycleOp → HostM Result
  | .start => vmStart (some vm)
  | .stop => vmStop (some vm)
  | .pause => vmPause (some vm)
  | .resume => vmResume (some vm)
  | .reset cold => vmReset (some vm) cold

/-- What a lifecycle call does where it does anything. -/
inductive LifeStep (a : Addr) (v : Nexusvm) (h : Host) : LifecycleOp → Host → Prop
  | start {r : Result} {h' : Host} : StartCall a v h r h' → LifeStep a v h .start h'
  | stop {h₁ : Host} : v.state = .running → StopsAll v.vcpus h h₁ →
      LifeStep a v h .stop (h₁.setVm a (some { v with state := .shutdown }))
  | pause : v.state = .running →
      LifeStep a v h .pause ((h.mapVcpus v.vcpus Nexusvcpu.pause).setVm a
        (some { v with state := .paused }))
  | resume : v.state = .paused → LifeStep a v h .resume
      ((h.mapVcpus v.vcpus Nexusvcpu.resume).setVm a
        (some { v with state := .running }))
  | reset {cold : Bool} {h₁ : Host} : StopsRunning v h h₁ → LifeStep a v h (.reset cold)
      (((h₁.mapVcpus v.vcpus Nexusvcpu.reset).setMem (h₁.mem.resetRoot v.eptRoot cold)).setVm a
        (some { v with state := .shutdown }))

/-- **A lifecycle call on a VM returns.** -/
theorem lifecycle_spec (hg : Good h) (hv : h.vms a = some v) (op : LifecycleOp) :
    wp (op.run a) (fun _ h' => Good h' ∧ (h' = h ∨ LifeStep a v h op h')) h := by
  cases op with
  | start =>
    refine wp_mono (vmStart_spec hg hv) ?_
    rintro r h' ⟨hg', rfl | hs⟩
    · exact ⟨hg', .inl rfl⟩
    · exact ⟨hg', .inr (.start hs)⟩
  | stop =>
    refine wp_mono (vmStop_spec hg hv) ?_
    rintro r h' ⟨hg', ⟨-, rfl⟩ | ⟨hrun, h₁, hs, rfl⟩⟩
    · exact ⟨hg', .inl rfl⟩
    · exact ⟨hg', .inr (.stop hrun hs)⟩
  | pause =>
    refine wp_mono (vmPause_spec hg hv) ?_
    rintro r h' ⟨hg', rfl | ⟨hrun, rfl⟩⟩
    · exact ⟨hg', .inl rfl⟩
    · exact ⟨hg', .inr (.pause hrun)⟩
  | resume =>
    refine wp_mono (vmResume_spec hg hv) ?_
    rintro r h' ⟨hg', rfl | ⟨hpaused, rfl⟩⟩
    · exact ⟨hg', .inl rfl⟩
    · exact ⟨hg', .inr (.resume hpaused)⟩
  | reset cold =>
    refine wp_mono (vmReset_spec hg hv cold) ?_
    rintro r h' ⟨hg', h₁, hs, rfl⟩
    exact ⟨hg', .inr (.reset hs)⟩

theorem StopsRunning.touches {h₁ : Host} (hs : StopsRunning v h h₁) : Touches v.vcpus h h₁ := by
  rcases hs with ⟨-, rfl⟩ | ⟨-, hs⟩
  · exact Touches.refl _ _
  · exact hs.touches

/-- A lifecycle call touches the vCPUs of its VM, maybe clears its root, and sets its state. -/
theorem LifeStep.vmStep {op : LifecycleOp} (hv : h.vms a = some v) (hs : LifeStep a v h op h') :
    ∃ s, VmStep a v s h h' := by
  cases hs with
  | start hs =>
    rcases hs.2 with ⟨-, h₁, hloop, rfl⟩ | ⟨-, hloop⟩
    · exact ⟨.running, h₁, h₁.mem, hloop.touches, rfl, rfl⟩
    · refine ⟨v.state, h', h'.mem, hloop.touches, rfl, ?_⟩
      have hv' : h'.vms a = some v := by rw [hloop.touches.vms]; exact hv
      simp only [Host.setVm, Host.setMem, ← hv', Function.update_eq_self]
  | stop _ hs => exact ⟨.shutdown, _, _, hs.touches, rfl, rfl⟩
  | pause =>
    have ht := Touches.mapVcpus (h := h) (f := Nexusvcpu.pause) v.vcpus (fun _ => rfl)
      (fun _ => rfl) fun _ => id
    exact ⟨.paused, _, h.mem, ht, rfl, rfl⟩
  | resume =>
    have ht := Touches.mapVcpus (h := h) (f := Nexusvcpu.resume) v.vcpus (fun _ => rfl)
      (fun _ => rfl) fun _ => id
    exact ⟨.running, _, h.mem, ht, rfl, rfl⟩
  | @reset cold h₁ hs =>
    have ht := hs.touches.trans (Touches.mapVcpus (f := Nexusvcpu.reset) v.vcpus (fun _ => rfl)
      (fun _ => rfl) fun _ => id)
    exact ⟨.shutdown, _, _, ht, h₁.mem.resetRoot_heap _ _, rfl⟩

/-! ## All calls -/

/-- A call that changes VMs or runqueues. -/
inductive HvOp
  | create (config : VmConfig)
  | lifecycle (op : LifecycleOp) (vm : Addr)
  | destroy (vm : Addr)
  | loadBalance (cpu : UInt32)

def HvOp.run : HvOp → HostM Unit
  | .create config => discard (vmCreate (some config))
  | .lifecycle op vm => discard (op.run vm)
  | .destroy vm => discard (vmDestroy (some vm))
  | .loadBalance cpu => schedulerLoadBalance cpu

/-- What a call does where it does anything. -/
inductive HvStep (h : Host) : HvOp → Host → Prop
  | createFailed {config : VmConfig} {m : PhysMem} {hv : Hypervisor} : Allocates h.mem m →
      (hv = h.hv ∨ hv = h.hv.nextId) → HvStep h (.create config) ((h.setHv hv).setMem m)
  | create {config : VmConfig} {vm : Addr} {v : Nexusvm} {h₁ : Host} {name : List UInt8} :
      SameIdentity (newVm config h.hv.nextVmId name) v →
      v.vcpus.length = config.vcpuCount.toNat → v.eptRoot ≠ none →
      v.memoryRegions = List.replicate config.memoryRegionCount.toNat {} → Builds vm h v v.vcpus h₁ →
      HvStep h (.create config) (h₁.linkVm vm v)
  | lifecycle {op : LifecycleOp} {a : Addr} {v : Nexusvm} {h' : Host} : h.vms a = some v →
      LifeStep a v h op h' → HvStep h (.lifecycle op a) h'
  | destroy {a : Addr} {v : Nexusvm} {h' : Host} : h.vms a = some v → Destroys a v h h' →
      HvStep h (.destroy a) h'
  | loadBalance {cpu : UInt32} {tgt : ℕ} : cpu < h.gCpuCount → tgt < h.gCpuCount.toNat →
      h.links.next (.head cpu.toNat) ≠ .head cpu.toNat →
      HvStep h (.loadBalance cpu) (h.setLinks (listAddTail
        (listDel h.links (h.links.next (.head cpu.toNat))) (h.links.next (.head cpu.toNat))
        (.head tgt)))

/-- What every run keeps. -/
structure HvInv (h : Host) : Prop where
  good : Good h
  listed : ∃ xs, Registry h xs
  scheduler : h.gSchedulerInitialized = true
  idle : h.current = fun _ => none
  entities : ∀ e s, h.entities e = some s → s.policy = .cfs ∧ s.vruntime = 0

theorem HvInv.of_touches (hi : HvInv h) {cs : List Addr} {h₁ : Host} (ht : Touches cs h h₁) :
    h₁.gSchedulerInitialized = true ∧ h₁.current = (fun _ => none) ∧
      ∀ e s, h₁.entities e = some s → s.policy = .cfs ∧ s.vruntime = 0 := by
  refine ⟨ht.statics.gSchedulerInitialized.trans hi.scheduler, ht.statics.current.trans hi.idle, ?_⟩
  intro e s hs
  rcases ht.fresh e s hs with hs' | hs'
  · exact hi.entities e s hs'
  · exact hs'

theorem HvInv.vmStep (hi : HvInv h) (hv : h.vms a = some v) {s : VmState} (hg : Good h')
    (hs : VmStep a v s h h') : HvInv h' := by
  obtain ⟨h₁, m, ht, -, rfl⟩ := hs
  obtain ⟨hsched, hidle, hents⟩ := hi.of_touches ht
  obtain ⟨xs, hr⟩ := hi.listed
  exact ⟨hg, ⟨xs, hr.setState ht.hv ht.vms hv⟩, hsched, hidle, hents⟩

/-! ## Load balancing -/

theorem leastLoaded_spec {n cpu tgt : ℕ} {minLoad : UInt32} (hn : tgt < n) (is : List ℕ)
    (his : ∀ i ∈ is, i < n) : wlp (leastLoaded cpu is minLoad tgt)
      (fun r h' => r.2 < n ∧ h' = h) h := by
  induction is generalizing minLoad tgt with
  | nil =>
    rw [leastLoaded, wlp_pure]
    exact ⟨hn, rfl⟩
  | cons i is ih =>
    have his' : ∀ j ∈ is, j < n := fun j hj => his j (List.mem_cons_of_mem _ hj)
    refine wlp_ite (fun _ => ih hn his') fun _ => ?_
    simp only [queueLoad, runqueue, wlp_bind, wlp_fetch, wlp_pure]
    rintro nodes -
    exact wlp_ite (fun _ => ih (his i List.mem_cons_self) his') fun _ => ih hn his'

theorem schedulerLoadBalance_spec (hi : HvInv h) (cpu : UInt32) :
    wlp (schedulerLoadBalance cpu) (fun _ h' => h' = h ∨ HvStep h (.loadBalance cpu) h') h := by
  have hpos := hi.good.layout.cpus_pos
  rw [schedulerLoadBalance, wlp_bind, wlp_get]
  refine wlp_ite (fun _ => ?_) fun hcpu => ?_
  · rw [wlp_pure]
    exact .inl rfl
  rw [wlp_bind]
  refine wlp_mono (leastLoaded_spec hpos _ fun i hi => List.mem_range.mp hi) ?_
  rintro ⟨minLoad, tgt⟩ _ ⟨htgt, rfl⟩
  simp only [queueLoad, runqueue, wlp_bind, wlp_fetch, wlp_pure]
  rintro nodes -
  refine wlp_ite (fun _ => wlp_ite (fun hne => ?_) fun _ => ?_) fun _ => ?_
  · rw [wlp_putLinks]
    refine .inr (.loadBalance (UInt32.not_le.mp hcpu) htgt ?_)
    simpa [listEmpty] using hne
  · rw [wlp_pure]
    exact .inl rfl
  · rw [wlp_pure]
    exact .inl rfl

/-! ## Every call -/

theorem wlp_getVm_bind {α : Type} {f : Nexusvm → HostM α} {Q : α → Host → Prop}
    (hx : ∀ v, h.vms a = some v → wlp (getVm a >>= f) Q h) : wlp (getVm a >>= f) Q h := by
  rw [wlp_bind, wlp_getVm]
  intro v hv
  have := hx v hv
  rw [wlp_bind, wlp_getVm] at this
  exact this v hv

/-- **Every call is a step and keeps the invariant.** -/
theorem hvOp_spec (hi : HvInv h) (op : HvOp) :
    wlp op.run (fun _ h' => HvInv h' ∧ (h' = h ∨ HvStep h op h')) h := by
  obtain ⟨xs, hr⟩ := hi.listed
  cases op with
  | create config =>
    rw [HvOp.run, wlp_discard]
    refine wlp_mono (vmCreate_spec hi.good.layout hr.first_ne config) ?_
    rintro (e | vm) h' hres
    · obtain ⟨m, hv, ha, hhv, rfl⟩ := hres
      refine ⟨⟨hi.good.failedCreate ha hhv, ⟨xs, hr.congr ?_ ?_ fun _ => rfl⟩, hi.scheduler, hi.idle,
        hi.entities⟩, .inr (.createFailed ha hhv)⟩
      · rcases hhv with rfl | rfl <;> rfl
      · rcases hhv with rfl | rfl <;> rfl
    · obtain ⟨v, h₁, name, hid, hlen, hroot, hregs, hb, rfl⟩ := hres
      have hnone : h.vms vm = none := by
        by_contra hne
        obtain ⟨w, hw⟩ := Option.ne_none_iff_exists'.mp hne
        exact hb.vm_ne hi.good.layout hw rfl
      have hcount : v.vcpus.length = v.vcpuCount.toNat := by
        rw [hlen, hid.vcpuCount]
        rfl
      refine ⟨⟨hi.good.create hb hcount, ⟨vm :: xs, hr.create hb hid.prev hnone⟩, ?_, ?_, ?_⟩,
        .inr (.create hid hlen hroot hregs hb)⟩
      · rw [Host.linkVm, hb.shape]
        exact hi.scheduler
      · rw [Host.linkVm, hb.shape]
        exact hi.idle
      · rw [Host.linkVm, hb.shape]
        exact hi.entities
  | lifecycle op a =>
    rw [HvOp.run, wlp_discard]
    have hstep : ∀ v, h.vms a = some v →
        wlp (op.run a) (fun _ h' => HvInv h' ∧ (h' = h ∨ HvStep h (.lifecycle op a) h')) h := by
      intro v hv
      refine wlp_mono (lifecycle_spec hi.good hv op).wlp ?_
      rintro r h' ⟨hg', rfl | hs⟩
      · exact ⟨hi, .inl rfl⟩
      · obtain ⟨s, hs'⟩ := hs.vmStep hv
        exact ⟨hi.vmStep hv hg' hs', .inr (.lifecycle hv hs)⟩
    cases op <;> exact wlp_getVm_bind hstep
  | destroy a =>
    rw [HvOp.run, wlp_discard]
    refine wlp_getVm_bind fun v hv => ?_
    obtain ⟨hprev, hnext⟩ := hr.neighbours hv
    refine wlp_mono (vmDestroy_spec hi.good hv hprev hnext).wlp ?_
    rintro r h' hd
    refine ⟨⟨hi.good.destroy hv hd, ⟨_, hr.destroy hv hd⟩,
      hd.statics.gSchedulerInitialized.trans hi.scheduler, hd.statics.current.trans hi.idle, ?_⟩,
      .inr (.destroy hv hd)⟩
    rw [hd.entities]
    exact hi.entities
  | loadBalance cpu =>
    refine wlp_mono (schedulerLoadBalance_spec hi cpu) ?_
    rintro _ h' (rfl | hs)
    · exact ⟨hi, .inl rfl⟩
    refine ⟨?_, .inr hs⟩
    cases hs with
    | loadBalance hcpu htgt hne =>
      refine ⟨⟨hi.good.layout.same ⟨rfl, rfl, rfl, rfl, rfl⟩ rfl rfl rfl rfl fun _ => id,
        fun b w hw => ?_⟩, ⟨xs, hr.congr rfl rfl fun _ => rfl⟩, hi.scheduler, hi.idle, hi.entities⟩
      have hc := hi.good.coherent b w hw
      exact ⟨hc.running, hc.stopped, hc.paused⟩

theorem Boot.hvInv (hb : Boot h) : HvInv h := by
  have hi := hb.registryInv (n := 0) (by decide)
  refine ⟨hi.good, ⟨[], hi.registry⟩, hb.schedulerInitialized, hb.current, fun e s hs => ?_⟩
  rw [hb.entities] at hs
  cases hs

/-- **Every run keeps the invariant.** -/
theorem hvInv_run (hb : Boot h) {ops : List HvOp} (hrun : (runOps HvOp.run ops).run h = some ((), h')) :
    HvInv h' :=
  wlp_runOps (C := fun _ _ => True) (fun op _ _ hi => wlp_mono (hvOp_spec hi op) fun _ _ hq => hq.1)
    (along_of_forall (fun _ _ _ => trivial) h) hb.hvInv () h' hrun

/-! ## Coherence -/

/-- **Lifecycle coherence.** Let `vm` be fresh from a creation in any state that a run leads to.
Every sequence of lifecycle calls on it returns; then a running VM has only initialized running
vCPUs, and any other has no running vCPU, whatever the outcomes of the vendor setups. -/
theorem lifecycle_coherent {h₀ h₁ h₂ : Host} (hboot : Boot h₀) {pre : List HvOp}
    (hpre : (runOps HvOp.run pre).run h₀ = some ((), h₁)) {config : VmConfig} {vm : Addr}
    (hcreate : (vmCreate (some config)).run h₁ = some (.ok vm, h₂)) (ops : List LifecycleOp) :
    ∃ h₃ v, (runOps (LifecycleOp.run vm) ops).run h₂ = some ((), h₃) ∧ h₃.vms vm = some v ∧
      v.vcpus.length = config.vcpuCount.toNat ∧
      (v.state = .running → ∀ c ∈ v.vcpus, ∃ u, h₃.vcpus c = some u ∧
        u.initialized = true ∧ u.running = true) ∧
      (v.state ≠ .running → ∀ c ∈ v.vcpus, ∃ u, h₃.vcpus c = some u ∧ u.running = false) := by
  have hi₁ := hvInv_run hboot hpre
  obtain ⟨xs, hr⟩ := hi₁.listed
  -- the VM after the creation
  have h₂' : Good h₂ ∧ ∃ v, h₂.vms vm = some v ∧ v.vcpus.length = config.vcpuCount.toNat := by
    have hcall := vmCreate_spec hi₁.good.layout hr.first_ne config _ _ hcreate
    obtain ⟨v, h₁', name, hid, hlen, -, -, hb, rfl⟩ := hcall
    refine ⟨hi₁.good.create hb ?_, _, if_pos rfl, hlen⟩
    rw [hlen, hid.vcpuCount]
    rfl
  have halong : Along (LifecycleOp.run vm) (fun _ _ => True) ops h₂ :=
    along_of_forall (fun _ _ _ => trivial) h₂
  have hrun := wp_runOps
    (I := fun _ h => Good h ∧ ∃ v, h.vms vm = some v ∧ v.vcpus.length = config.vcpuCount.toNat)
    (fun pre op h _ _ hI => by
      obtain ⟨hg, v, hv, hlen⟩ := hI
      refine wp_mono (lifecycle_spec hg hv op) ?_
      rintro r h' ⟨hg', rfl | hs⟩
      · exact ⟨hg', v, hv, hlen⟩
      · obtain ⟨s, h₁, m, ht, -, rfl⟩ := hs.vmStep hv
        exact ⟨hg', { v with state := s }, Function.update_self _ _ _, hlen⟩)
    halong h₂'
  obtain ⟨⟨⟩, h₃, hops, hg₃, v, hv, hlen⟩ := hrun
  have hc := hg₃.coherent vm v hv
  have hex := hg₃.layout.vcpus vm v trivial hv
  refine ⟨h₃, v, hops, hv, hlen, fun hs c hcv => ?_, fun hs c hcv => ?_⟩
  · obtain ⟨u, hu, -⟩ := hex c hcv
    obtain ⟨hrunning, hinit⟩ := hc.running hs c hcv u hu
    exact ⟨u, hu, hinit, hrunning⟩
  · obtain ⟨u, hu, -⟩ := hex c hcv
    exact ⟨u, hu, hc.stopped hs c hcv u hu⟩

theorem lifecycle_coherent_one_vcpu : ∃ h₂ h₃ v,
    (vmCreate (some { vcpuCount := 1 })).run (bootHost 1 .intel) = some (.ok 16384, h₂) ∧
      (runOps (LifecycleOp.run 16384) [.start, .pause]).run h₂ = some ((), h₃) ∧
      h₃.vms 16384 = some v ∧ v.vcpus.length = 1 := by
  have hvm : ((vmCreate (some { vcpuCount := 1 })).run (bootHost 1 .intel)).map
      (fun p => p.1.toOption) = some (some 16384) := by decide +kernel
  obtain ⟨⟨r, h₂⟩, hcreate, hr⟩ := Option.map_eq_some_iff.mp hvm
  obtain rfl : r = .ok 16384 := by
    cases r with
    | error e => cases hr
    | ok vm => cases hr; rfl
  obtain ⟨h₃, v, hrun, hv, hlen, -⟩ := lifecycle_coherent (boot_bootHost (by decide) .intel)
    (runOps_nil HvOp.run (bootHost 1 .intel)) hcreate [.start, .pause]
  exact ⟨h₂, h₃, v, hcreate, hrun, hv, hlen⟩

end NexusVM
