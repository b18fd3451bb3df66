import NexusVM.VmMemory

/-!
# Conditions on the memory

Conditions that requests keep are kept by every call that asks for memory only; those that frees keep
as well are kept by all calls on VMs.

* `RequestsKeep`, `FreesKeep`, `WritesKeep`: what may happen to the memory without breaking a condition;
* `vmStart_keep`, `vmStop_keep`, `vmPause_keep`, `vmResume_keep`, `vmReset_keep`: calls that ask for
  memory at most;
* `eptMap_keep`, `mapPages_keep`: calls that write page tables;
* `vmCreate_keep`, `vmDestroy_keep`: calls that give memory back.
-/

namespace NexusVM

open Prog

/-- Requests keep the condition, whether they are served or refused. -/
structure RequestsKeep (I : PhysMem → Prop) : Prop where
  grant : ∀ m align b, m.heap.Fits align b → I m → I { m with heap := m.heap.grant b }
  refuse : ∀ m, I m → I { m with heap := m.heap.refuse }

/-- Frees keep the condition. -/
def FreesKeep (I : PhysMem → Prop) : Prop :=
  ∀ m kind a, I m → I { m with heap := m.heap.release kind a }

/-- The condition is about the heap only. -/
def WritesKeep (I : PhysMem → Prop) : Prop := ∀ m m', m'.heap = m.heap → I m → I m'

/-- The memory of the host satisfies the condition. -/
def OnMem (I : PhysMem → Prop) (h : Host) : Prop := I h.mem

variable {I : PhysMem → Prop}

theorem onMem_keep {α : Type} {x : MemM α} (hx : Preserves I x) : Preserves (OnMem I) (onMem x) := by
  intro h hI
  rw [wlp_onMem]
  exact hx h.mem hI

/-! ## Requests and frees -/

theorem alignedAlloc_keep (hk : RequestsKeep I) (kind : BlockKind) (align size : ℕ) :
    Preserves I (alignedAlloc kind align size) := by
  intro m hI
  rw [alignedAlloc, onHeap, wlp_zoom]
  exact (Heap.wp_alloc (fun a _ hf => hk.grant m align ⟨kind, a, size⟩ hf hI) fun _ =>
    hk.refuse m hI).wlp

theorem calloc_keep (hk : RequestsKeep I) (kind : BlockKind) (count size : ℕ) :
    Preserves (OnMem I) (calloc kind count size) :=
  onMem_keep (alignedAlloc_keep hk kind 16 (count * size))

theorem freeBlock_keep (hf : FreesKeep I) (kind : BlockKind) (a : Addr) :
    Preserves I (freeBlock kind a) :=
  .modify fun m hI => hf m kind a hI

theorem freeBuffer_keep (hf : FreesKeep I) (kind : BlockKind) (p : Option Addr) :
    Preserves (OnMem I) (freeBuffer kind p) := by
  cases p with
  | none => exact .pure _
  | some a => exact onMem_keep (freeBlock_keep hf kind a)

theorem eptFreeRoot_keep (hf : FreesKeep I) (root : Option Addr) :
    Preserves (OnMem I) (onMem (eptFreeRoot root)) := by
  cases root with
  | none => exact onMem_keep (.pure _)
  | some a => exact onMem_keep (freeBlock_keep hf .pages a)

/-! ## Records -/

theorem getVm_keep (a : Addr) : Preserves (OnMem I) (getVm a) := .fetch _

theorem putVm_keep (a : Addr) (v : Nexusvm) : Preserves (OnMem I) (putVm a v) := .modify fun _ hI => hI

theorem getVcpu_keep (c : Addr) : Preserves (OnMem I) (getVcpu c) := .fetch _

theorem putVcpu_keep (c : Addr) (u : Nexusvcpu) : Preserves (OnMem I) (putVcpu c u) :=
  .modify fun _ hI => hI

theorem putEntity_keep (e : Addr) (s : SchedEntity) : Preserves (OnMem I) (putEntity e s) :=
  .modify fun _ hI => hI

theorem getHv_keep : Preserves (OnMem I) getHv := .fetch _

theorem putHv_keep (hv : Hypervisor) : Preserves (OnMem I) (putHv hv) := .modify fun _ hI => hI

theorem getLinks_keep : Preserves (OnMem I) getLinks := Preserves.get.bind fun _ => .pure _

theorem putLinks_keep (l : DList.Links Node) : Preserves (OnMem I) (putLinks l) :=
  .modify fun _ hI => hI

theorem freeVm_keep (hf : FreesKeep I) (a : Addr) : Preserves (OnMem I) (freeVm a) :=
  (onMem_keep (freeBlock_keep hf .vm a)).bind fun _ => .modify fun _ hI => hI

theorem freeVcpu_keep (hf : FreesKeep I) (c : Addr) : Preserves (OnMem I) (freeVcpu c) :=
  (onMem_keep (freeBlock_keep hf .vcpu c)).bind fun _ => .modify fun _ hI => hI

theorem homeCpu_keep (u : Nexusvcpu) : Preserves (OnMem I) (homeCpu u) :=
  Preserves.get.bind fun _ => .ite ((Preserves.require _).bind fun _ => .pure _) (.pure _)

/-! ## Starting and stopping -/

theorem schedulerRemoveVcpu_keep (c : Addr) :
    Preserves (OnMem I) (schedulerRemoveVcpu (some c)) := by
  refine (getVcpu_keep c).bind fun u => ?_
  cases u.schedEntity with
  | none => exact .pure _
  | some e =>
    refine (homeCpu_keep u).bind fun _ => ?_
    exact getLinks_keep.bind fun _ => (putLinks_keep _).bind fun _ => .pure _

theorem vcpuStop_keep (c : Addr) : Preserves (OnMem I) (vcpuStop (some c)) :=
  (getVcpu_keep c).bind fun _ => (putVcpu_keep c _).bind fun _ =>
    (schedulerRemoveVcpu_keep c).bind fun _ => .pure _

theorem stopVcpus_keep (cs : List Addr) :
    Preserves (OnMem I) (forEach (fun c => discard (vcpuStop (some c))) cs) :=
  .forEach fun c _ => (vcpuStop_keep c).discard

theorem setupOutcome_keep : Preserves (OnMem I) setupOutcome := by
  intro h hI
  simp only [setupOutcome, wlp_bind, wlp_get, wlp_set, wlp_pure]
  exact hI

theorem vcpuVendorSetup_keep (c : Addr) : Preserves (OnMem I) (vcpuVendorSetup c) := by
  refine getHv_keep.bind fun hv => ?_
  cases hv.cpuVendor with
  | unknown => exact .pure _
  | intel =>
    refine (getVcpu_keep c).bind fun u => .ite (.pure _) ?_
    exact Preserves.get.bind fun _ => (putVcpu_keep c _).bind fun _ => setupOutcome_keep
  | amd => exact (getVcpu_keep c).bind fun u => .ite (.pure _) setupOutcome_keep

section Starting

variable (hk : RequestsKeep I)

include hk

theorem schedulerAddVcpu_keep (c : Addr) : Preserves (OnMem I) (schedulerAddVcpu (some c)) := by
  refine (getVcpu_keep c).bind fun u => (homeCpu_keep u).bind fun cpu => ?_
  cases u.schedEntity with
  | some e => exact getLinks_keep.bind fun _ => (putLinks_keep _).bind fun _ => .pure _
  | none =>
    refine (calloc_keep hk _ _ _).bind fun o => ?_
    cases o with
    | none => exact .pure _
    | some e =>
      refine (getVm_keep _).bind fun v => (putVcpu_keep c _).bind fun _ => ?_
      refine (putEntity_keep e _).bind fun _ => ?_
      exact getLinks_keep.bind fun _ => (putLinks_keep _).bind fun _ => .pure _

theorem vcpuStart_keep (c : Addr) : Preserves (OnMem I) (vcpuStart (some c)) := by
  have hrest : Preserves (OnMem I) (do
      putVcpu c { ← getVcpu c with running := true }
      let _ ← schedulerAddVcpu (some c)
      return Result.ok) :=
    (getVcpu_keep c).bind fun _ => (putVcpu_keep c _).bind fun _ =>
      (schedulerAddVcpu_keep hk c).bind fun _ => .pure _
  refine (getVcpu_keep c).bind fun u => .ite (.pure _) (.ite ?_ hrest)
  refine (vcpuVendorSetup_keep c).bind fun r => .ite (.pure _) ?_
  exact (getVcpu_keep c).bind fun _ => (putVcpu_keep c _).bind fun _ => hrest

theorem startVcpus_keep (started cs : List Addr) : Preserves (OnMem I) (startVcpus started cs) := by
  induction cs generalizing started with
  | nil => exact .pure _
  | cons c cs ih =>
    refine (vcpuStart_keep hk c).bind fun r => .ite ?_ (ih _)
    exact (stopVcpus_keep started).bind fun _ => .pure _

/-- **`vm_start`.** -/
theorem vmStart_keep (a : Addr) : Preserves (OnMem I) (vmStart (some a)) := by
  refine (getVm_keep a).bind fun v => .ite (.pure _) (.ite (.pure _) ?_)
  refine (startVcpus_keep hk [] v.vcpus).bind fun r => .ite (.pure _) ?_
  exact (getVm_keep a).bind fun _ => (putVm_keep a _).bind fun _ => .pure _

end Starting

theorem vmStop_keep (a : Addr) : Preserves (OnMem I) (vmStop (some a)) := by
  refine (getVm_keep a).bind fun v => .ite (.pure _) ?_
  exact (stopVcpus_keep _).bind fun _ => (getVm_keep a).bind fun _ => (putVm_keep a _).bind fun _ =>
    .pure _

theorem vmPause_keep (a : Addr) : Preserves (OnMem I) (vmPause (some a)) := by
  refine (getVm_keep a).bind fun v => .ite (.pure _) ?_
  refine (Preserves.forEach fun c _ => (getVcpu_keep c).bind fun u => .ite (putVcpu_keep c _) (.pure _)).bind
    fun _ => ?_
  exact (getVm_keep a).bind fun _ => (putVm_keep a _).bind fun _ => .pure _

theorem vmResume_keep (a : Addr) : Preserves (OnMem I) (vmResume (some a)) := by
  refine (getVm_keep a).bind fun v => .ite (.pure _) ?_
  refine (Preserves.forEach fun c _ => (getVcpu_keep c).bind fun u => .ite (putVcpu_keep c _) (.pure _)).bind
    fun _ => ?_
  exact (getVm_keep a).bind fun _ => (putVm_keep a _).bind fun _ => .pure _

/-! ## Page tables -/

theorem eptClearRoot_keep (hw : WritesKeep I) (root : Option Addr) :
    Preserves (OnMem I) (onMem (eptClearRoot root)) := by
  cases root with
  | none => exact onMem_keep (.pure _)
  | some r =>
    refine onMem_keep fun m hI => ?_
    simp only [eptClearRoot, wlp_bind, wlp_get, wlp_require, wlp_set]
    exact fun _ => hw m _ rfl hI

theorem vmReset_keep (hw : WritesKeep I) (a : Addr) (cold : Bool) :
    Preserves (OnMem I) (vmReset (some a) cold) := by
  refine (getVm_keep a).bind fun v => ?_
  refine (Preserves.ite (vmStop_keep a).discard (.pure _)).bind fun _ => ?_
  refine (Preserves.forEach fun c _ => (getVcpu_keep c).bind fun u => putVcpu_keep c _).bind fun _ => ?_
  refine (Preserves.ite (eptClearRoot_keep hw v.eptRoot) (.pure _)).bind fun _ => ?_
  exact (getVm_keep a).bind fun _ => (putVm_keep a _).bind fun _ => .pure _

theorem readEntry_keep (table : Addr) (idx : Fin 512) : Preserves I (readEntry table idx) :=
  Preserves.get.bind fun _ => (Preserves.require _).bind fun _ => .pure _

section Tables

variable (hk : RequestsKeep I) (hw : WritesKeep I)

include hw

theorem writeEntry_keep (table : Addr) (idx : Fin 512) (e : EptEntry) :
    Preserves I (writeEntry table idx e) := by
  intro m hI
  simp only [writeEntry, wlp_bind, wlp_get, wlp_require, wlp_set]
  exact fun _ => hw m _ rfl hI

include hk

theorem eptAllocPages_keep (count : UInt64) : Preserves I (eptAllocPages count) := by
  refine (alignedAlloc_keep hk _ _ _).bind fun o => ?_
  cases o with
  | none => exact .pure _
  | some a =>
    refine Preserves.bind (.modify fun m hI => ?_) fun _ => .pure _
    exact hw m _ rfl hI

omit hk hw in
theorem entryAddress_keep (e : EptEntry) : Preserves I (entryAddress e) := Preserves.get.bind fun _ => .pure _

theorem eptNext_keep (missing : EptEntry → Bool) (table : Addr) (idx : Fin 512) :
    Preserves I (eptNext missing eptAllocTable table idx) := by
  have htable : Preserves I (eptAllocTable table idx) := by
    refine (eptAllocPages_keep hk hw 1).bind fun o => ?_
    cases o with
    | none => exact .pure _
    | some a => exact (readEntry_keep _ _).bind fun _ => (writeEntry_keep hw _ _ _).bind fun _ => .pure _
  have hnext : Preserves I (do
      let e ← readEntry table idx
      let next ← entryAddress e
      pure next.toNat) :=
    (readEntry_keep _ _).bind fun _ => (entryAddress_keep _).bind fun _ => .pure _
  refine (readEntry_keep table idx).bind fun e => ?_
  exact Preserves.ite (htable.bind fun _ => hnext) hnext

/-- **`ept_map`.** -/
theorem eptMap_keep (root : Option Addr) (guestPhys : UInt64) (pte : EptEntry) :
    Preserves I (eptMap root guestPhys pte) := by
  cases root with
  | none => exact .pure _
  | some pml4 =>
    refine Preserves.bind ?_ fun pt => (writeEntry_keep hw _ _ _).bind fun _ => .pure _
    exact (eptNext_keep hk hw _ _ _).bind fun _ => (eptNext_keep hk hw _ _ _).bind fun _ =>
      eptNext_keep hk hw _ _ _

theorem mapPages_keep (root : Option Addr) (guestPhys hostPhys : UInt64) (write execute : Bool)
    (n : ℕ) (i : UInt64) : Preserves I (mapPages root guestPhys hostPhys write execute n i) := by
  induction n generalizing i with
  | zero => exact .pure _
  | succ n ih => exact (eptMap_keep hk hw _ _ _).bind fun r => .ite (.pure _) (ih _)

end Tables

/-! ## Creation and destruction -/

section Freeing

variable (hf : FreesKeep I)

include hf

theorem freeVcpuBuffers_keep (c : Addr) : Preserves (OnMem I) (freeVcpuBuffers c) :=
  (getVcpu_keep c).bind fun _ => (freeBuffer_keep hf _ _).bind fun _ =>
    (freeBuffer_keep hf _ _).bind fun _ => (freeBuffer_keep hf _ _).bind fun _ => freeVcpu_keep hf c

theorem vcpuDestroy_keep (c : Addr) : Preserves (OnMem I) (vcpuDestroy (some c)) := by
  refine (getVcpu_keep c).bind fun u => (Preserves.ite (vcpuStop_keep c).discard (.pure _)).bind fun _ => ?_
  refine Preserves.bind ?_ fun _ => (freeVcpuBuffers_keep hf c).bind fun _ => .pure _
  refine getHv_keep.bind fun hv => ?_
  cases hv.cpuVendor with
  | intel =>
    exact (getVcpu_keep c).bind fun _ => (freeBuffer_keep hf _ _).bind fun _ =>
      (freeBuffer_keep hf _ _).bind fun _ => putVcpu_keep c _
  | amd =>
    exact (getVcpu_keep c).bind fun _ => (freeBuffer_keep hf _ _).bind fun _ => putVcpu_keep c _
  | unknown => exact .pure _

theorem destroyVcpus_keep (cs : List Addr) :
    Preserves (OnMem I) (forEach (fun c => discard (vcpuDestroy (some c))) cs) :=
  .forEach fun c _ => (vcpuDestroy_keep hf c).discard

omit hf in
theorem vmUnlink_keep (a : Addr) : Preserves (OnMem I) (vmUnlink a) := by
  refine (getVm_keep a).bind fun v => ?_
  cases v.prev with
  | none =>
    refine getHv_keep.bind fun _ => (putHv_keep _).bind fun _ => ?_
    cases v.next with
    | none => exact getHv_keep.bind fun _ => putHv_keep _
    | some n => exact (getVm_keep n).bind fun _ => (putVm_keep n _).bind fun _ =>
        getHv_keep.bind fun _ => putHv_keep _
  | some p =>
    refine (getVm_keep p).bind fun _ => (putVm_keep p _).bind fun _ => ?_
    cases v.next with
    | none => exact getHv_keep.bind fun _ => putHv_keep _
    | some n => exact (getVm_keep n).bind fun _ => (putVm_keep n _).bind fun _ =>
        getHv_keep.bind fun _ => putHv_keep _

/-- **`vm_destroy`.** -/
theorem vmDestroy_keep (a : Addr) : Preserves (OnMem I) (vmDestroy (some a)) := by
  refine (getVm_keep a).bind fun v => (Preserves.ite (vmStop_keep a).discard (.pure _)).bind fun _ => ?_
  refine (destroyVcpus_keep hf v.vcpus).bind fun _ => Preserves.bind ?_ fun _ =>
    (vmUnlink_keep a).bind fun _ => (freeBuffer_keep hf _ _).bind fun _ =>
      (freeBuffer_keep hf _ _).bind fun _ => (freeVm_keep hf a).bind fun _ => .pure _
  exact (freeBuffer_keep hf _ _).bind fun _ => (eptFreeRoot_keep hf _).bind fun _ =>
    (freeBuffer_keep hf _ _).bind fun _ => freeBuffer_keep hf _ _

theorem vmAbandon_keep (a : Addr) : Preserves (OnMem I) (vmAbandon a) :=
  (getVm_keep a).bind fun _ => (freeBuffer_keep hf _ _).bind fun _ => (freeBuffer_keep hf _ _).bind fun _ =>
    (eptFreeRoot_keep hf _).bind fun _ => (freeBuffer_keep hf _ _).bind fun _ => freeVm_keep hf a

variable (hk : RequestsKeep I)

include hk

theorem vcpuVendorInit_keep (c : Addr) : Preserves (OnMem I) (vcpuVendorInit c) := by
  refine getHv_keep.bind fun hv => ?_
  cases hv.cpuVendor with
  | intel =>
    refine getHv_keep.bind fun _ => (onMem_keep (alignedAlloc_keep hk _ _ _)).bind fun o => ?_
    cases o with
    | none => exact .pure _
    | some region =>
      refine (getVcpu_keep c).bind fun _ => (putVcpu_keep c _).bind fun _ =>
        (onMem_keep (alignedAlloc_keep hk _ _ _)).bind fun o => ?_
      cases o with
      | none => exact (freeBuffer_keep hf _ _).bind fun _ => .pure _
      | some vmcs => exact (getVcpu_keep c).bind fun _ => (putVcpu_keep c _).bind fun _ => .pure _
  | amd =>
    refine (onMem_keep (alignedAlloc_keep hk _ _ _)).bind fun o => ?_
    cases o with
    | none => exact .pure _
    | some vmcb => exact (getVcpu_keep c).bind fun _ => (putVcpu_keep c _).bind fun _ => .pure _
  | unknown => exact .pure _

theorem vcpuCreate_keep (vm : Addr) (i : UInt32) : Preserves (OnMem I) (vcpuCreate vm i) := by
  refine (calloc_keep hk _ _ _).bind fun o => ?_
  cases o with
  | none => exact .pure _
  | some c =>
    refine getHv_keep.bind fun hv => (Preserves.require _).bind fun _ => (putVcpu_keep c _).bind fun _ =>
      (calloc_keep hk _ _ _).bind fun o => ?_
    cases o with
    | none => exact (freeVcpu_keep hf c).bind fun _ => .pure _
    | some msrBitmap =>
      refine (calloc_keep hk _ _ _).bind fun _ => (calloc_keep hk _ _ _).bind fun _ =>
        (getVcpu_keep c).bind fun _ => (putVcpu_keep c _).bind fun _ => .ite ?_ ?_
      · exact (freeVcpuBuffers_keep hf c).bind fun _ => .pure _
      · refine (vcpuVendorInit_keep hf hk c).bind fun r => .ite ?_ (.pure _)
        exact (freeVcpuBuffers_keep hf c).bind fun _ => .pure _

theorem createVcpus_keep (vm : Addr) (n : ℕ) (i : UInt32) : Preserves (OnMem I) (createVcpus vm n i) := by
  induction n generalizing i with
  | zero => exact .pure _
  | succ n ih =>
    refine (vcpuCreate_keep hf hk vm i).bind fun r => ?_
    cases r with
    | ok c => exact (getVm_keep vm).bind fun _ => (putVm_keep vm _).bind fun _ => ih _
    | error e => exact (getVm_keep vm).bind fun v => (destroyVcpus_keep hf v.vcpus).bind fun _ => .pure _

variable (hw : WritesKeep I)

include hw

/-- **`vm_create`.** -/
theorem vmCreate_keep (config : VmConfig) : Preserves (OnMem I) (vmCreate (some config)) := by
  have hregions : ∀ vm, Preserves (OnMem I) (vmAllocRegions vm config) := by
    intro vm
    refine .ite ((calloc_keep hk _ _ _).bind fun o => ?_) (.pure _)
    cases o with
    | none => exact .pure _
    | some regions => exact (getVm_keep vm).bind fun _ => (putVm_keep vm _).bind fun _ => .pure _
  have hroot : Preserves I eptAllocRoot := by
    refine (eptAllocPages_keep hk hw 1).bind fun o => ?_
    cases o with
    | none => exact .pure _
    | some root =>
      refine Preserves.bind (.modify fun m hI => ?_) fun _ => .pure _
      exact hw m _ rfl hI
  have hbuild : ∀ vm, Preserves (OnMem I) (vmBuild vm config) := by
    intro vm
    refine (hregions vm).bind fun r => .ite (.pure _) ((onMem_keep hroot).bind fun o => ?_)
    cases o with
    | none => exact .pure _
    | some root =>
      refine (getVm_keep vm).bind fun _ => (putVm_keep vm _).bind fun _ => (calloc_keep hk _ _ _).bind fun o => ?_
      cases o with
      | none => exact .pure _
      | some eptp =>
        refine (getVm_keep vm).bind fun _ => (putVm_keep vm _).bind fun _ =>
          (calloc_keep hk _ _ _).bind fun o => ?_
        cases o with
        | none => exact .pure _
        | some vcpus =>
          exact (getVm_keep vm).bind fun _ => (putVm_keep vm _).bind fun _ => createVcpus_keep hf hk vm _ _
  have hlink : ∀ vm, Preserves (OnMem I) (vmLink vm) := by
    intro vm
    refine getHv_keep.bind fun hv => (getVm_keep vm).bind fun _ => (putVm_keep vm _).bind fun _ => ?_
    cases hv.vms with
    | none => exact (putHv_keep _).bind fun _ => (getVm_keep vm).bind fun _ => putVm_keep vm _
    | some first => exact (getVm_keep first).bind fun _ => (putVm_keep first _).bind fun _ =>
        (putHv_keep _).bind fun _ => (getVm_keep vm).bind fun _ => putVm_keep vm _
  refine Preserves.get.bind fun h => .ite (.pure _) ((calloc_keep hk _ _ _).bind fun o => ?_)
  cases o with
  | none => exact .pure _
  | some vm =>
    refine getHv_keep.bind fun hv => (putHv_keep _).bind fun _ => (Preserves.fetch _).bind fun name =>
      (putVm_keep vm _).bind fun _ => (hbuild vm).bind fun r => .ite ?_ ?_
    · exact (vmAbandon_keep hf vm).bind fun _ => .pure _
    · exact (hlink vm).bind fun _ => .pure _

end Freeing

/-! ## Load balancing -/

theorem schedulerLoadBalance_keep (cpu : UInt32) : Preserves (OnMem I) (schedulerLoadBalance cpu) := by
  have hload : ∀ i, Preserves (OnMem I) (queueLoad i) := fun i =>
    (Preserves.fetch _).bind fun _ => .pure _
  have hleast : ∀ is l t, Preserves (OnMem I) (leastLoaded cpu.toNat is l t) := by
    intro is
    induction is with
    | nil => exact fun _ _ => .pure _
    | cons i is ih => exact fun l t => .ite (ih l t) ((hload i).bind fun _ => .ite (ih _ _) (ih _ _))
  refine Preserves.get.bind fun h => .ite (.pure _) ((hleast _ _ _).bind fun p => ?_)
  exact (hload _).bind fun _ => .ite (.ite (putLinks_keep _) (.pure _)) (.pure _)

end NexusVM
