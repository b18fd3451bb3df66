import NexusVM.Incremental
import NexusVM.Reclaiming

/-!
# Runs with checkpoints

* `StoreCall`: the calls of a host that creates, uses and destroys VMs, and writes and reads checkpoints;
* `storeCall_keeps`, **`storeCalls_keep`**: the VM list and the lifecycles stay coherent in every run;
* **`checkpoint_restore_effect`**, **`apply_incremental_effect`**: what the two readers that work on VMs do
  after any run.
-/

namespace NexusVM

open Prog Stdio

variable {h₀ h h' : Host} {a vm c : Addr} {v : Nexusvm} {f : ℕ} {path : String} {xs : List Addr}
  {stale : ℕ → ℕ → UInt8}

/-! ## Calls -/

inductive StoreCall
  | hv (op : HvOp)
  | alloc (vm : Addr) (guestPhys size : UInt64) (regionType : MemoryRegionType)
  | create (vm : Option Addr) (path : Option String) (timestamp : UInt64)
  | createIncremental (vm : Option Addr) (base path : Option String) (timestamp : UInt64)
  | getInfo (path : Option String)
  | restore (stale : ℕ → ℕ → UInt8) (path : Option String)
  | restoreSnapshot (stale staleMemory : ℕ → ℕ → UInt8) (vm : Option Addr) (path : Option String)
  | apply (stale staleMemory : ℕ → ℕ → UInt8) (vm : Option Addr) (base incremental : Option String)

def StoreCall.run : StoreCall → HostM Unit
  | .hv op => op.run
  | .alloc vm guestPhys size regionType => discard (vmAllocMemory (some vm) guestPhys size regionType)
  | .create vm path timestamp => discard (checkpointCreate vm path timestamp)
  | .createIncremental vm base path timestamp => discard (checkpointCreateIncremental vm base path timestamp)
  | .getInfo path => discard (checkpointGetInfo path)
  | .restore stale path => discard (checkpointRestore stale path)
  | .restoreSnapshot stale staleMemory vm path => discard (snapshotRestore stale staleMemory vm path)
  | .apply stale staleMemory vm base incremental =>
    discard (checkpointApplyIncremental stale staleMemory vm base incremental)

/-! ## Small steps -/

theorem HvInv.setDisk (hi : HvInv h) (d : Disk) : HvInv (h.setDisk d) := by
  obtain ⟨xs, hr⟩ := hi.listed
  exact ⟨hi.good.setDisk d, ⟨xs, hr.setDisk d⟩, hi.scheduler, hi.idle, hi.entities⟩

theorem hvInv_onDisk {α : Type} (x : Prog Disk α) : Preserves HvInv (onDisk x) := by
  intro h hi
  rw [wlp_onDisk]
  exact fun _ d _ => hi.setDisk d

theorem HvInv.releaseDevice (hi : HvInv h) (b : Addr) : HvInv (h.release .deviceState b) := by
  obtain ⟨xs, hr⟩ := hi.listed
  have hstays : ∀ x ∈ h.mem.heap.live, x.kind ≠ .deviceState → x ∈ (h.release .deviceState b).mem.heap.live :=
    fun x hx hkind => Heap.mem_release hx fun heq => hkind heq.1
  have hheld : ∀ {k x}, k ≠ BlockKind.deviceState → h.mem.heap.Holds k x →
      (h.release .deviceState b).mem.heap.Holds k x := by
    rintro k x hne ⟨y, hy, rfl, rfl⟩
    exact ⟨y, hstays y hy hne, rfl, rfl⟩
  have hl := hi.good.layout
  refine ⟨⟨{ hl with
    vmHeld := fun a v hv => hheld (by decide) (hl.vmHeld a v hv)
    vcpuHeld := fun c u hu => hheld (by decide) (hl.vcpuHeld c u hu)
    entityHeld := fun e s he => hheld (by decide) (hl.entityHeld e s he)
    root := fun a v r hP hv hroot => hstays _ (hl.root a v r hP hv hroot) (by simp [tablePage]) }, ?_⟩,
    ⟨xs, hr.congr rfl rfl fun _ => rfl⟩, hi.scheduler, hi.idle, hi.entities⟩
  intro a v hv
  have hc := hi.good.coherent a v hv
  exact ⟨hc.running, hc.stopped, hc.paused⟩

theorem checkpointWrite_keeps (f : ℕ) (data : List UInt8) : Preserves HvInv (checkpointWrite f data) :=
  (hvInv_onDisk _).bind fun _ => .ite (.pure _) (.pure _)

theorem checkpointRead_keeps (f size : ℕ) : Preserves HvInv (checkpointRead f size) :=
  (hvInv_onDisk _).bind fun _ => .ite (.pure _) (.pure _)

theorem vcpuSetState_keeps (c : Addr) (state : CpuState) : Preserves HvInv (vcpuSetState (some c) state) := by
  intro h hi
  simp only [vcpuSetState, wlp_bind, wlp_getVcpu, wlp_putVcpu, wlp_pure]
  intro u hu
  obtain ⟨xs, hr⟩ := hi.listed
  exact ⟨hi.good.setCpuState hu state, ⟨xs, hr.congr rfl rfl fun _ => rfl⟩, hi.scheduler, hi.idle, hi.entities⟩

theorem alignedAlloc_keeps (kind : BlockKind) (align size : ℕ) :
    Preserves HvInv (onMem (alignedAlloc kind align size)) := by
  intro h hi
  refine (wp_alignedAlloc_iff.mpr ⟨fun b _ _ => ?_, fun _ => ?_⟩).wlp
  · exact hi.setMem fun x hx => List.mem_cons_of_mem _ hx
  · exact hi.setMem fun _ hx => hx

theorem freeDevice_keeps (b : Addr) : Preserves HvInv (freeBuffer .deviceState (some b)) := by
  intro h hi
  exact (wp_freeBuffer_some.mpr (hi.releaseDevice b)).wlp

theorem writeRam_keeps (p : Addr) (bytes : List UInt8) : Preserves HvInv (writeRam p bytes) :=
  .modify fun _ hi => hi.setMem fun _ => id

theorem readRam_keeps (p n : ℕ) : Preserves HvInv (readRam p n) := Preserves.get.bind fun _ => .pure _

theorem vmGpaToHpa_keeps (vm : Addr) (gpa : UInt64) : Preserves HvInv (vmGpaToHpa (some vm) gpa) := by
  intro h hi hpa h' hrun
  obtain ⟨rfl, -⟩ := vmGpaToHpa_readsOnly vm gpa h h (sameEpt_of_eq rfl rfl vm) hpa h' hrun
  exact hi

theorem vmCreate_keeps (config : VmConfig) : Preserves HvInv (vmCreate (some config)) := by
  intro h hi
  have := hvOp_spec hi (.create config)
  rw [HvOp.run, wlp_discard] at this
  exact wlp_mono this fun _ _ hres => hres.1

theorem vmDestroy_keeps (vm : Addr) : Preserves HvInv (vmDestroy (some vm)) := by
  intro h hi
  have := hvOp_spec hi (.destroy vm)
  rw [HvOp.run, wlp_discard] at this
  exact wlp_mono this fun _ _ hres => hres.1

/-! ## Writing -/

theorem writeVcpus_keeps (f : ℕ) (cs : List Addr) : Preserves HvInv (writeVcpus f cs) := by
  induction cs with
  | nil => exact .pure _
  | cons c cs ih =>
    exact (Preserves.fetch _).bind fun u => (checkpointWrite_keeps f _).bind fun r => .ite (.pure _) ih

theorem writeState_keeps (f : ℕ) (v : Nexusvm) (timestamp : UInt64) :
    Preserves HvInv (writeState f v timestamp) := by
  refine (Preserves.fetch _).bind fun vmName => (checkpointWrite_keeps f _).bind fun r => .ite (.pure _) ?_
  exact (checkpointWrite_keeps f _).bind fun r => .ite (.pure _) (writeVcpus_keeps f _)

theorem writeDevices_keeps (f : ℕ) (v : Nexusvm) : Preserves HvInv (writeDevices f v) := by
  refine Preserves.bind ?_ fun o => ?_
  · refine (alignedAlloc_keeps _ _ _).bind fun o => ?_
    cases o with
    | none => exact .pure _
    | some b => exact (Preserves.require _).bind fun _ => .pure _
  · cases o with
    | error e => exact .pure _
    | ok p =>
      obtain ⟨b, data⟩ := p
      refine (checkpointWrite_keeps f _).bind fun r => Preserves.bind ?_ fun _ => freeDevice_keeps b
      exact .ite (checkpointWrite_keeps f _).discard (.pure _)

theorem checkpointSaveMemory_keeps (vm : Option Addr) (path : String) :
    Preserves HvInv (checkpointSaveMemory vm path) := by
  cases vm with
  | none => exact .pure _
  | some a =>
    refine (hvInv_onDisk _).bind fun o => ?_
    cases o with
    | none => exact .pure _
    | some f =>
      refine (Preserves.fetch _).bind fun v => (Preserves.require _).bind fun _ => Preserves.bind ?_ fun _ =>
        (hvInv_onDisk _).bind fun _ => .pure _
      refine .forEach fun r _ => (checkpointWrite_keeps f _).bind fun _ => .ite ?_ (.pure _)
      refine (vmGpaToHpa_keeps a _).bind fun hpa => .ite ?_ (.pure _)
      exact (readRam_keeps _ _).bind fun data => (checkpointWrite_keeps f _).bind fun _ => .pure _

theorem checkpointCreate_keeps (vm : Option Addr) (path : Option String) (timestamp : UInt64) :
    Preserves HvInv (checkpointCreate vm path timestamp) := by
  cases vm with
  | none => exact .pure _
  | some a =>
    cases path with
    | none => exact .pure _
    | some path =>
      refine (hvInv_onDisk _).bind fun o => ?_
      cases o with
      | none => exact .pure _
      | some f =>
        refine (Preserves.fetch _).bind fun v => (writeState_keeps f v timestamp).bind fun r => .ite ?_ ?_
        · exact (hvInv_onDisk _).bind fun _ => .pure _
        · refine (writeDevices_keeps f v).bind fun _ => (checkpointSaveMemory_keeps _ path).bind fun r => ?_
          exact (hvInv_onDisk _).bind fun _ => .pure _

theorem checkpointGetInfo_keeps (path : Option String) : Preserves HvInv (checkpointGetInfo path) := by
  cases path with
  | none => exact .pure _
  | some path =>
    refine (hvInv_onDisk _).bind fun o => ?_
    cases o with
    | none => exact .pure _
    | some f => exact (checkpointRead_keeps f _).bind fun p => (hvInv_onDisk _).bind fun _ => .pure _

theorem checkpointCreateIncremental_keeps (vm : Option Addr) (base path : Option String) (timestamp : UInt64) :
    Preserves HvInv (checkpointCreateIncremental vm base path timestamp) := by
  cases vm with
  | none => exact .pure _
  | some a =>
    cases path with
    | none => exact .pure _
    | some path =>
      refine (checkpointGetInfo_keeps base).bind fun p => .ite (checkpointCreate_keeps _ _ _) ?_
      refine (hvInv_onDisk _).bind fun o => ?_
      cases o with
      | none => exact .pure _
      | some f =>
        refine (Preserves.fetch _).bind fun v => (checkpointWrite_keeps f _).bind fun _ => Preserves.bind ?_ fun _ =>
          (hvInv_onDisk _).bind fun _ => .pure _
        exact .forEach fun c _ => (Preserves.fetch _).bind fun u => (checkpointWrite_keeps f _).discard

/-! ## Reading -/

theorem skipDevices_keeps (f : ℕ) (stale : ℕ → UInt8) : Preserves HvInv (skipDevices f stale) :=
  (hvInv_onDisk _).bind fun _ => hvInv_onDisk _

theorem checkpointRestoreMemory_keeps (stale : ℕ → ℕ → UInt8) (vm : Option Addr) (path : Option String) :
    Preserves HvInv (checkpointRestoreMemory stale vm path) := by
  cases vm with
  | none => exact .pure _
  | some a =>
    cases path with
    | none => exact .pure _
    | some path =>
      refine (hvInv_onDisk _).bind fun o => ?_
      cases o with
      | none => exact .pure _
      | some f =>
        refine (hvInv_onDisk _).bind fun _ => (hvInv_onDisk _).bind fun _ => (Preserves.fetch _).bind fun v => ?_
        refine (hvInv_onDisk _).bind fun _ => (skipDevices_keeps f _).bind fun _ => Preserves.bind ?_ fun _ =>
          (hvInv_onDisk _).bind fun _ => .pure _
        refine .forEach fun i _ => (hvInv_onDisk _).bind fun data => .ite ?_ (.pure _)
        refine (vmGpaToHpa_keeps a _).bind fun hpa => .ite ?_ (.pure _)
        exact (hvInv_onDisk _).bind fun bytes => (Preserves.fetch _).bind fun w => Preserves.get.bind fun h =>
          (Preserves.require _).bind fun _ => writeRam_keeps _ _

theorem restoreVcpus_keeps (f : ℕ) (stale : ℕ → ℕ → UInt8) (i : ℕ) (cs : List Addr) :
    Preserves HvInv (restoreVcpus f stale i cs) := by
  induction cs generalizing i with
  | nil => exact .pure _
  | cons c cs ih =>
    exact (checkpointRead_keeps f _).bind fun p => (vcpuSetState_keeps c _).bind fun _ => ih (i + 1)

theorem snapshotRestore_keeps (stale staleMemory : ℕ → ℕ → UInt8) (vm : Option Addr) (path : Option String) :
    Preserves HvInv (snapshotRestore stale staleMemory vm path) := by
  cases vm with
  | none => exact .pure _
  | some a =>
    cases path with
    | none => exact .pure _
    | some path =>
      refine (hvInv_onDisk _).bind fun o => ?_
      cases o with
      | none => exact .pure _
      | some f =>
        refine (hvInv_onDisk _).bind fun _ => (hvInv_onDisk _).bind fun _ => (Preserves.fetch _).bind fun v => ?_
        refine (restoreVcpus_keeps f stale 1 _).bind fun _ => (skipDevices_keeps f _).bind fun _ => ?_
        exact (hvInv_onDisk _).bind fun _ => checkpointRestoreMemory_keeps _ _ _

theorem readConfig_keeps (f : ℕ) : Preserves HvInv (readConfig f) := by
  refine (checkpointRead_keeps f _).bind fun p => .ite (.pure _) ((Preserves.fetch _).bind fun order => ?_)
  exact .ite (.pure _) ((checkpointRead_keeps f _).bind fun q => .ite (.pure _) (.pure _))

theorem readVcpus_keeps (vm : Addr) (f : ℕ) (cs : List Addr) : Preserves HvInv (readVcpus vm f cs) := by
  induction cs with
  | nil => exact .pure _
  | cons c cs ih =>
    refine (checkpointRead_keeps f _).bind fun p => .ite ?_ ((vcpuSetState_keeps c _).bind fun _ => ih)
    exact (vmDestroy_keeps vm).discard.bind fun _ => .pure _

theorem readDevices_keeps (f : ℕ) : Preserves HvInv (readDevices f) := by
  refine (checkpointRead_keeps f _).bind fun p => .ite ((alignedAlloc_keeps _ _ _).bind fun o => ?_) (.pure _)
  cases o with
  | none => exact .pure _
  | some b =>
    refine (checkpointRead_keeps f _).bind fun q => Preserves.bind ?_ fun _ => freeDevice_keeps b
    exact .ite (.require _) (.pure _)

theorem checkpointRestore_keeps (stale : ℕ → ℕ → UInt8) (path : Option String) :
    Preserves HvInv (checkpointRestore stale path) := by
  cases path with
  | none => exact .pure _
  | some path =>
    refine (hvInv_onDisk _).bind fun o => ?_
    cases o with
    | none => exact .pure _
    | some f =>
      refine (readConfig_keeps f).bind fun r => ?_
      cases r with
      | error e => exact (hvInv_onDisk _).bind fun _ => .pure _
      | ok config =>
        refine (vmCreate_keeps config).bind fun r => ?_
        cases r with
        | error e => exact (hvInv_onDisk _).bind fun _ => .pure _
        | ok vm =>
          refine (Preserves.fetch _).bind fun v => (readVcpus_keeps vm f _).bind fun r => .ite ?_ ?_
          · exact (hvInv_onDisk _).bind fun _ => .pure _
          · refine (readDevices_keeps f).bind fun _ => (hvInv_onDisk _).bind fun _ => ?_
            exact (checkpointRestoreMemory_keeps _ _ _).bind fun _ => .pure _

theorem applyVcpu_keeps (vm : Addr) (f : ℕ) (stale : ℕ → ℕ → UInt8) (i : ℕ) :
    Preserves HvInv (applyVcpu vm f stale i) := by
  refine (checkpointRead_keeps f _).bind fun p => (Preserves.fetch _).bind fun v => .ite ?_ (.pure _)
  exact (Preserves.fetch _).bind fun c => (vcpuSetState_keeps c _).discard

theorem checkpointApplyIncremental_keeps (stale staleMemory : ℕ → ℕ → UInt8) (vm : Option Addr)
    (base incremental : Option String) :
    Preserves HvInv (checkpointApplyIncremental stale staleMemory vm base incremental) := by
  cases vm with
  | none => exact .pure _
  | some a =>
    cases base with
    | none => exact .pure _
    | some base =>
      cases incremental with
      | none => exact .pure _
      | some incremental =>
        refine (checkpointRestore_keeps _ _).bind fun r => ?_
        cases r with
        | error e => exact .pure _
        | ok temp =>
          refine (hvInv_onDisk _).bind fun o => ?_
          cases o with
          | none => exact (vmDestroy_keeps temp).discard.bind fun _ => .pure _
          | some f =>
            refine (hvInv_onDisk _).bind fun _ => (Preserves.fetch _).bind fun t => Preserves.bind ?_ fun _ => ?_
            · exact .forEach fun i _ => applyVcpu_keeps a f stale i
            · exact (hvInv_onDisk _).bind fun _ => (vmDestroy_keeps temp).discard.bind fun _ => .pure _

/-! ## Runs -/

theorem vmAllocMemory_unrooted (hi : HvInv h) (hroot : ∀ v, h.vms a = some v → v.eptRoot = none)
    (guestPhys size : UInt64) (regionType : MemoryRegionType) :
    wlp (vmAllocMemory (some a) guestPhys size regionType) (fun _ h' => HvInv h') h := by
  rw [vmAllocMemory]
  refine wlp_ite (fun _ => (wlp_pure _).mpr hi) fun _ => ?_
  rw [wlp_bind, wlp_onMem]
  refine wlp_mono (eptAllocPages_spec (size / PAGE_SIZE + 1) h.mem).wlp fun o m ho => ?_
  cases o with
  | none =>
    obtain ⟨-, rfl⟩ := ho
    rw [wlp_pure]
    exact hi.setMem fun _ => id
  | some b =>
    obtain ⟨-, -, rfl⟩ := ho
    simp only [wlp_bind, wlp_getVm, wlp_require, wlp_putVm]
    intro v hv _
    rw [Host.setMem_vms] at hv
    generalize { v.memoryRegions[v.memoryRegionCount.toNat]?.getD {} with
      guestPhys := guestPhys
      hostPhys := UInt64.ofNat b
      size := size
      type := regionType
      flags := MEM_REGION_READABLE ||| MEM_REGION_WRITABLE } = region
    change wlp _ _ ((h.setMem _).setVm a (some (v.addRegion region)))
    simp only [vmEptMap, wlp_bind, wlp_getVm, Host.setVm_self]
    rintro _ ⟨⟩
    have hnone : (v.addRegion region).eptRoot = none := hroot v hv
    rw [if_pos (by rw [hnone]; rfl), wlp_pure, if_pos (by decide), wlp_bind, wlp_onMem, eptFreePages, freeBlock,
      wlp_modify, wlp_pure]
    refine hi.addRegion hv fun x hx => ?_
    have hlive := release_grant_live h.mem.heap ⟨.pages, b, ((size / PAGE_SIZE + 1) * PAGE_SIZE).toNat⟩
    exact hlive.symm ▸ hx

theorem vmAllocMemory_keeps (a : Addr) (guestPhys size : UInt64) (regionType : MemoryRegionType) :
    Preserves HvInv (vmAllocMemory (some a) guestPhys size regionType) := by
  intro h hi
  by_cases hroot : ∀ v, h.vms a = some v → v.eptRoot = none
  · exact vmAllocMemory_unrooted hi hroot guestPhys size regionType
  · push Not at hroot
    obtain ⟨v, hv, hroot⟩ := hroot
    refine wlp_mono (vmAllocMemory_effect hv hroot guestPhys size regionType) fun _ h' he => ?_
    cases he with
    | invalid => exact hi
    | noMemory => exact hi.setMem fun _ => id
    | @ok b region m hne hkind hkeep hf =>
      refine hi.addRegion hv ?_
      exact hkeep _ (keepsLive_requests _) (keepsLive_writes _) fun c hc => List.mem_cons_of_mem _ hc

/-- **A call keeps what every run keeps.** -/
theorem storeCall_keeps (call : StoreCall) : Preserves HvInv call.run := by
  cases call with
  | hv op => exact fun h hi => wlp_mono (hvOp_spec hi op) fun _ _ hres => hres.1
  | alloc vm guestPhys size regionType => exact (vmAllocMemory_keeps vm guestPhys size regionType).discard
  | create vm path timestamp => exact (checkpointCreate_keeps vm path timestamp).discard
  | createIncremental vm base path timestamp => exact (checkpointCreateIncremental_keeps vm base path timestamp).discard
  | getInfo path => exact (checkpointGetInfo_keeps path).discard
  | restore stale path => exact (checkpointRestore_keeps stale path).discard
  | restoreSnapshot stale staleMemory vm path => exact (snapshotRestore_keeps stale staleMemory vm path).discard
  | apply stale staleMemory vm base incremental =>
    exact (checkpointApplyIncremental_keeps stale staleMemory vm base incremental).discard

theorem hvInv_storeCalls (hb : Boot h₀) {calls : List StoreCall}
    (hrun : (runOps StoreCall.run calls).run h₀ = some ((), h)) : HvInv h :=
  wlp_runOps (C := fun _ _ => True) (fun call s _ hi => storeCall_keeps call s hi)
    (along_of_forall (fun _ _ _ => trivial) h₀) hb.hvInv () h hrun

/-- **The VM list and the lifecycles stay coherent in every run with checkpoints** whose calls return, whatever
the files are and however the disk answers: the list is doubly linked and has exactly the VMs that are there, each
of them has all its vCPUs, no vCPU belongs to two, and what their flags say fits the state of the VM. -/
theorem storeCalls_keep (hb : Boot h₀) {calls : List StoreCall}
    (hrun : (runOps StoreCall.run calls).run h₀ = some ((), h)) :
    (∃ xs, Registry h xs ∧ DoublyLinked h none xs h.hv.vms) ∧
      (∀ a v, h.vms a = some v → HasVcpus h v ∧ v.vcpus.Nodup ∧ Coherent h v) ∧
      ∀ a b v w, h.vms a = some v → h.vms b = some w → ∀ c ∈ v.vcpus, c ∈ w.vcpus → a = b := by
  have hi := hvInv_storeCalls hb hrun
  have hl := hi.good.layout
  obtain ⟨xs, hr⟩ := hi.listed
  refine ⟨⟨xs, hr, hr.doublyLinked⟩, fun a v hv => ?_, fun a b v w hv hw c hc hc' => ?_⟩
  · exact ⟨hl.hasVcpus trivial hv, hl.nodup a v trivial hv, hi.good.coherent a v hv⟩
  · obtain ⟨u, hu, hua⟩ := hl.vcpus a v trivial hv c hc
    obtain ⟨u', hu', hub⟩ := hl.vcpus b w trivial hw c hc'
    obtain rfl := Option.some.inj (hu.symm.trans hu')
    exact hua.symm.trans hub

/-- A host with a VM of two vCPUs, whose memory is saved and which gets a restored VM beside it. -/
def storeSession : List StoreCall :=
  [.hv (.create { vcpuCount := 2, memoryRegionCount := 1 }), .alloc 16384 0 4096 .ram,
    .create (some 16384) (some "full.ckpt") 0, .restore (fun _ _ => 0) (some "vm.ckpt"),
    .createIncremental (some 16384) (some "vm.ckpt") (some "step.ckpt") 1,
    .apply (fun _ _ => 0) (fun _ _ => 0) (some 16384) (some "vm.ckpt") (some "step.ckpt")]

theorem storeCalls_keep_session : ∃ h, (runOps StoreCall.run storeSession).run truncatedHost = some ((), h) ∧
    ∃ xs, Registry h xs ∧ DoublyLinked h none xs h.hv.vms := by
  have hres : ((runOps StoreCall.run storeSession).run truncatedHost).isSome = true := by decide +kernel
  obtain ⟨⟨⟨⟩, h⟩, hrun⟩ := Option.isSome_iff_exists.mp hres
  exact ⟨h, hrun, (storeCalls_keep ((boot_bootHost (by decide) .intel).setDisk _) hrun).1⟩

/-! ## The readers -/

/-- **An incremental checkpoint changes registers and nothing else.** Whatever the two files, and after any
run, a call that returns leaves the VMs and the queues as they were, and with an error the vCPUs too;
otherwise the first vCPUs, as many as the VM and the configuration of the base both have, get the states of
the file. -/
theorem apply_incremental_effect (hb : Boot h₀) {calls : List StoreCall}
    (hrun : (runOps StoreCall.run calls).run h₀ = some ((), h)) (hidle : h.disk.Idle) (hv : h.vms a = some v)
    {staleMemory : ℕ → ℕ → UInt8} {base incremental : String} {r : Result}
    (hcall : (checkpointApplyIncremental stale staleMemory (some a) (some base) (some incremental)).run h =
      some (r, h')) :
    h'.disk.files = h.disk.files ∧ SameVmList h h' ∧ (r ≠ .ok → SameObjects h h') ∧
      (r = .ok → ∃ baseFile file config, h.disk.files base = some baseFile ∧
        h.disk.files incremental = some file ∧ HasConfig baseFile config ∧ vcpusEnd config ≤ baseFile.length ∧
        SameObjects (h.applied v.vcpus (incrementalState stale file) config.vcpuCount.toNat) h') := by
  have hi := hvInv_storeCalls hb hrun
  obtain ⟨xs, hr⟩ := hi.listed
  obtain ⟨hfiles, hr', heffect⟩ :=
    checkpointApplyIncremental_effect hi.good hr hidle hv stale staleMemory base incremental _ _ hcall
  exact ⟨hfiles, ⟨by rw [hr'.count, hr.count], xs, hr, hr'⟩, heffect⟩

theorem vmCreate_disk (hi : HvInv h) (config : VmConfig) :
    wlp (vmCreate (some config)) (fun _ h' => h'.disk = h.disk) h := by
  obtain ⟨xs, hr⟩ := hi.listed
  refine wlp_mono (vmCreate_spec hi.good.layout hr.first_ne config) ?_
  rintro (e | vm) h' hres
  · obtain ⟨m, hv, -, -, rfl⟩ := hres
    rfl
  · obtain ⟨v, h₁, name, -, -, -, -, hb, rfl⟩ := hres
    rw [Host.linkVm, hb.shape]

theorem disk_of_create (hb : Boot h₀) {config : VmConfig}
    (hrun : (runOps StoreCall.run [.hv (.create config)]).run h₀ = some ((), h)) : h.disk = h₀.disk := by
  suffices hcreate : wlp (runOps StoreCall.run [.hv (.create config)]) (fun _ h' => h'.disk = h₀.disk) h₀ from
    hcreate _ _ hrun
  rw [runOps, wlp_bind, StoreCall.run, HvOp.run, wlp_discard]
  exact wlp_mono (vmCreate_disk hb.hvInv config) fun _ _ heq => (wlp_pure _).mpr heq

/-- A host with two files: `truncatedFile`, and the state of one vCPU behind an empty header. -/
def twoFileHost : Host :=
  (bootHost 1 .intel).setDisk { (bootHost 1 .intel).disk with files := fun path => some (
    if path = "step.ckpt" then List.replicate sizeofCheckpointHeader 0 ++
      cpuStateCodec.encode { gprs := { rip := 0x1000 } } else truncatedFile) }

theorem apply_incremental_effect_two_files : ∃ h v h',
    (runOps StoreCall.run [.hv (.create { vcpuCount := 2 })]).run twoFileHost = some ((), h) ∧
      h.vms 16384 = some v ∧ (checkpointApplyIncremental (fun _ _ => 0) (fun _ _ => 0) (some 16384)
        (some "vm.ckpt") (some "step.ckpt")).run h = some (.ok, h') ∧ SameVmList h h' := by
  have hboot : Boot twoFileHost := (boot_bootHost (by decide) .intel).setDisk _
  have hres : ((runOps StoreCall.run [.hv (.create { vcpuCount := 2 })]).run twoFileHost).any
      (fun p => (p.2.vms 16384).isSome && ((checkpointApplyIncremental (fun _ _ => 0) (fun _ _ => 0) (some 16384)
        (some "vm.ckpt") (some "step.ckpt")).run p.2).any fun q => q.1 = .ok) = true := by decide +kernel
  obtain ⟨⟨⟨⟩, h⟩, hrun, hres⟩ := (Option.any_eq_true _ _).mp hres
  simp only [Bool.and_eq_true, Option.any_eq_true, decide_eq_true_eq] at hres
  obtain ⟨hsome, ⟨r, h'⟩, hcall, rfl⟩ := hres
  obtain ⟨v, hv⟩ := Option.isSome_iff_exists.mp hsome
  have hidle : h.disk.Idle := by
    rw [disk_of_create hboot hrun]
    rintro s st ⟨⟩
  exact ⟨h, v, h', hrun, hv, hcall, (apply_incremental_effect hboot hrun hidle hv hcall).2.1⟩

end NexusVM
