import NexusVM.Ledger
import NexusVM.Requests
import NexusVM.Runs

/-!
# The failure paths of `vm_create`

* `vmCreateUnwinding`: the function with every failure path as it stands in the source;
* `vmCreateUnwinding_of_vmCreate`: it does what `vmCreate` does, which gives up a VM in one place;
* `Housed`, `housed_run`: every record is in a live block of its own, as in every state of a run;
* `vmCreate_owes`: a creation owes the blocks of the new VM, or nothing;
* `CreatedOrUnwound`, **`vm_create_all_or_nothing_iff`**: when a failure leaves nothing behind.
-/

namespace NexusVM

open Prog

/-- `vm_create`, with the frees of each failure path. -/
def vmCreateUnwinding (config : Option VmConfig) : HostM (Except Result Addr) := do
  let h ← get
  match config with
  | none => return .error .errInvalidParam
  | some config =>
  if !h.gInitialized then return .error .errInvalidParam
  match ← calloc .vm 1 sizeofNexusvm with
  | none => return .error .errNoMemory
  | some vm =>
  let hv ← getHv
  putHv { hv with nextVmId := hv.nextVmId + 1 }
  let name ← Prog.fetch fun _ => strncpy (List.replicate 64 0) config.name.toList 63
  putVm vm (newVm config hv.nextVmId name)
  let result ← vmAllocRegions vm config
  if result ≠ .ok then
    freeVm vm
    return .error result
  match ← onMem eptAllocRoot with
  | none =>
    let v ← getVm vm
    freeBuffer .regions v.regionTable
    freeVm vm
    return .error .errNoMemory
  | some root =>
  putVm vm { ← getVm vm with eptRoot := some root }
  match ← calloc .eptp 1 sizeofEptp with
  | none =>
    let v ← getVm vm
    onMem (eptFreeRoot v.eptRoot)
    freeBuffer .regions v.regionTable
    freeVm vm
    return .error .errNoMemory
  | some eptp =>
  putVm vm { ← getVm vm with eptPointer := some eptp, eptp := makeEptp root }
  match ← calloc .vcpus config.vcpuCount.toNat sizeofPointer with
  | none =>
    let v ← getVm vm
    freeBuffer .eptp v.eptPointer
    onMem (eptFreeRoot v.eptRoot)
    freeBuffer .regions v.regionTable
    freeVm vm
    return .error .errNoMemory
  | some vcpus =>
  putVm vm { ← getVm vm with vcpuTable := some vcpus }
  -- the loop gives back the vCPUs made so far when one cannot be created
  let result ← createVcpus vm config.vcpuCount.toNat 0
  if result ≠ .ok then
    let v ← getVm vm
    freeBuffer .vcpus v.vcpuTable
    freeBuffer .eptp v.eptPointer
    onMem (eptFreeRoot v.eptRoot)
    freeBuffer .regions v.regionTable
    freeVm vm
    return .error result
  vmLink vm
  return .ok vm

variable {h : Host} {vm : Addr}

theorem wp_eptFreeRoot_none {Q : Unit → Host → Prop} : wp (onMem (eptFreeRoot none)) Q h ↔ Q () h := by
  rw [eptFreeRoot, eptFreePages, wp_onMem, wp_pure]
  rfl

theorem setVm_setMem_self (h : Host) (a : Addr) (w : Option Nexusvm) (m : PhysMem) :
    ((h.setVm a w).setMem m).vms a = w :=
  Function.update_self _ _ _

theorem wp_vmAbandon_iff {v : Nexusvm} {vcpus eptp root regions : Option Addr} (hv : h.vms vm = some v)
    (hvcpus : v.vcpuTable = vcpus) (heptp : v.eptPointer = eptp) (hroot : v.eptRoot = root)
    (hregions : v.regionTable = regions) {Q : Unit → Host → Prop} :
    wp (vmAbandon vm) Q h ↔ wp (freeBuffer .vcpus vcpus) (fun _ h =>
      wp (freeBuffer .eptp eptp) (fun _ h => wp (onMem (eptFreeRoot root)) (fun _ h =>
        wp (freeBuffer .regions regions) (fun _ h => wp (freeVm vm) Q h) h) h) h) h := by
  subst hvcpus heptp hroot hregions
  simp only [vmAbandon, wp_bind, wp_getVm, hv, Option.some.injEq, exists_eq_left']

theorem vmAllocRegions_record {v : Nexusvm} {config : VmConfig} (hv : h.vms vm = some v) :
    wp (vmAllocRegions vm config) (fun r h' => ∃ w, h'.vms vm = some w ∧ w.eptRoot = v.eptRoot ∧
      w.eptPointer = v.eptPointer ∧ w.vcpuTable = v.vcpuTable ∧
      (r ≠ .ok → w.regionTable = v.regionTable)) h := by
  refine wp_ite (fun _ => ?_) fun _ => ?_
  · rw [wp_bind, calloc]
    refine wp_mono (alignedAlloc_spec _ _ _ h) ?_
    rintro (_ | regions) _ ⟨m, rfl, -⟩
    · rw [wp_pure]
      exact ⟨v, hv, rfl, rfl, rfl, fun _ => rfl⟩
    · simp only [wp_bind, wp_getVm, wp_putVm, wp_pure]
      exact ⟨v, hv, _, Host.setVm_self _ _ _, rfl, rfl, rfl, fun hne => absurd rfl hne⟩
  · rw [wp_pure]
    exact ⟨v, hv, rfl, rfl, rfl, fun _ => rfl⟩

/-- **The failure paths** do what giving the VM up in one place does. -/
theorem vmCreateUnwinding_of_vmCreate {config : VmConfig} {Q : Except Result Addr → Host → Prop}
    (hw : wp (vmCreate (some config)) Q h) : wp (vmCreateUnwinding (some config)) Q h := by
  rw [vmCreate, wp_bind, wp_get] at hw
  rw [vmCreateUnwinding, wp_bind, wp_get]
  dsimp only at hw ⊢
  by_cases hinit : (!h.gInitialized) = true
  · rw [if_pos hinit] at hw ⊢
    exact hw
  rw [if_neg hinit, wp_bind] at hw ⊢
  refine wp_mono hw ?_
  rintro (_ | vm) h₁ hw
  · exact hw
  simp only [wp_bind, wp_getHv, wp_putHv, wp_fetch, wp_putVm] at hw ⊢
  obtain ⟨hi, name, hname, hw⟩ := hw
  refine ⟨hi, name, hname, ?_⟩
  rw [vmBuild, wp_bind] at hw
  refine wp_mono (wp_and hw (vmAllocRegions_record (Host.setVm_self _ _ _))) ?_
  rintro r h₂ ⟨hw, v, hv, hroot, heptp, htable, hregions⟩
  by_cases hr : r ≠ .ok
  · rw [if_pos hr, wp_pure, if_pos hr, wp_bind,
      wp_vmAbandon_iff hv htable heptp hroot (hregions hr)] at hw
    rw [if_pos hr, wp_bind]
    simpa only [newVm, wp_freeBuffer_none, wp_eptFreeRoot_none] using hw
  rw [if_neg hr, wp_bind, wp_onMem] at hw
  rw [if_neg hr, wp_bind, wp_onMem]
  refine wp_mono hw ?_
  rintro (_ | root) m₂ hw
  · dsimp only at hw ⊢
    rw [wp_pure, if_pos (by simp), wp_bind,
      wp_vmAbandon_iff (h := h₂.setMem m₂) hv htable heptp hroot rfl] at hw
    simp only [wp_bind, wp_getVm]
    refine ⟨v, hv, ?_⟩
    simpa only [newVm, wp_freeBuffer_none, wp_eptFreeRoot_none, wp_pure] using hw
  simp only [wp_bind, wp_getVm, wp_putVm] at hw ⊢
  obtain ⟨v', hv', hw⟩ := hw
  obtain rfl : v' = v := Option.some.inj (hv'.symm.trans hv)
  refine ⟨v', hv, ?_⟩
  rw [calloc, wp_onMem] at hw ⊢
  refine wp_mono hw ?_
  rintro (_ | eptp) m₃ hw
  · dsimp only at hw ⊢
    rw [wp_pure, if_pos (by simp), wp_bind,
      wp_vmAbandon_iff (v := { v' with eptRoot := some root }) (setVm_setMem_self _ _ _ _) htable
        heptp rfl rfl] at hw
    simp only [wp_bind, wp_getVm]
    refine ⟨_, setVm_setMem_self _ _ _ _, ?_⟩
    simpa only [newVm, wp_freeBuffer_none, wp_pure] using hw
  simp only [wp_bind, wp_getVm, wp_putVm] at hw ⊢
  obtain ⟨v₂, hv₂, hw⟩ := hw
  obtain rfl := Option.some.inj (hv₂.symm.trans (setVm_setMem_self _ _ _ _))
  refine ⟨_, hv₂, ?_⟩
  rw [calloc, wp_onMem] at hw ⊢
  refine wp_mono hw ?_
  rintro (_ | vcpus) m₄ hw
  · dsimp only at hw ⊢
    rw [wp_pure, if_pos (by simp), wp_bind,
      wp_vmAbandon_iff
        (v := { v' with eptRoot := some root, eptPointer := some eptp, eptp := makeEptp root })
        (setVm_setMem_self _ _ _ _) htable rfl rfl rfl] at hw
    simp only [wp_bind, wp_getVm]
    refine ⟨_, setVm_setMem_self _ _ _ _, ?_⟩
    simpa only [newVm, wp_freeBuffer_none, wp_pure] using hw
  simp only [wp_bind, wp_getVm, wp_putVm] at hw ⊢
  obtain ⟨v₃, hv₃, hw⟩ := hw
  refine ⟨v₃, hv₃, wp_mono hw ?_⟩
  intro r' h₃ hw
  by_cases hr' : r' ≠ .ok
  · rw [if_pos hr', wp_bind] at hw
    rw [if_pos hr']
    simp only [wp_bind, wp_getVm]
    simpa only [vmAbandon, wp_bind, wp_getVm] using hw
  · rw [if_neg hr'] at hw ⊢
    exact hw

/-! ## Sound heaps -/

/-- Every object is in a live block of its own, and the VM list starts with a VM. -/
structure Housed (h : Host) : Prop where
  initialized : h.gInitialized = true
  online : h.hv.onlineCpuCount ≠ 0
  vms : ∀ a v, h.vms a = some v → h.mem.heap.Holds .vm a
  vcpus : ∀ c u, h.vcpus c = some u → h.mem.heap.Holds .vcpu c
  first : ∀ f, h.hv.vms = some f → h.vms f ≠ none
  sound : h.mem.heap.Sound

theorem Housed.fresh_vm (hh : Housed h) : ∀ a, Fresh h.mem a → h.vms a = none := by
  intro a ha
  by_contra hne
  obtain ⟨v, hv⟩ := Option.ne_none_iff_exists'.mp hne
  obtain ⟨b, hb, -, hbase⟩ := hh.vms a v hv
  exact ha b hb hbase

theorem Housed.fresh_vcpu (hh : Housed h) : ∀ c, Fresh h.mem c → h.vcpus c = none := by
  intro c hc
  by_contra hne
  obtain ⟨u, hu⟩ := Option.ne_none_iff_exists'.mp hne
  obtain ⟨b, hb, -, hbase⟩ := hh.vcpus c u hu
  exact hc b hb hbase

/-- Live blocks do not overlap. -/
def SoundMem (m : PhysMem) : Prop := m.heap.Sound

theorem soundMem_requests : RequestsKeep SoundMem := ⟨fun _ _ _ hf hs => hs.grant hf, fun _ hs => hs⟩

theorem soundMem_frees : FreesKeep SoundMem := fun _ kind a hs => hs.release kind a

theorem soundMem_writes : WritesKeep SoundMem := fun m m' heq hs => by
  rw [SoundMem, heq]
  exact hs

theorem lifecycleOp_keep {I : PhysMem → Prop} (hk : RequestsKeep I) (hw : WritesKeep I)
    (op : LifecycleOp) (a : Addr) : Preserves (OnMem I) (op.run a) := by
  cases op with
  | start => exact vmStart_keep hk a
  | stop => exact vmStop_keep a
  | pause => exact vmPause_keep a
  | resume => exact vmResume_keep a
  | reset cold => exact vmReset_keep hw a cold

theorem hvOp_keep {I : PhysMem → Prop} (hk : RequestsKeep I) (hf : FreesKeep I) (hw : WritesKeep I)
    (op : HvOp) : Preserves (OnMem I) op.run := by
  cases op with
  | create config => exact (vmCreate_keep hf hk hw config).discard
  | lifecycle op a => exact (lifecycleOp_keep hk hw op a).discard
  | destroy a => exact (vmDestroy_keep hf a).discard
  | loadBalance cpu => exact schedulerLoadBalance_keep cpu

theorem HvInv.housed (hi : HvInv h) (hs : h.mem.heap.Sound) : Housed h := by
  obtain ⟨xs, hr⟩ := hi.listed
  refine ⟨hi.good.layout.initialized, ?_, hi.good.layout.vmHeld, hi.good.layout.vcpuHeld, hr.first_ne, hs⟩
  rw [hi.good.layout.online]
  exact hi.good.layout.cpus

/-- **In every run** the objects are housed. -/
theorem housed_run {h₀ : Host} (hb : Boot h₀) {ops : List HvOp}
    (hrun : (runOps HvOp.run ops).run h₀ = some ((), h)) : Housed h := by
  have hsound : OnMem SoundMem h := by
    refine wlp_runOps (C := fun _ _ => True) (I := OnMem SoundMem) (fun op s _ hs => ?_)
      (along_of_forall (fun _ _ _ => trivial) h₀) hb.sound () h hrun
    exact hvOp_keep soundMem_requests soundMem_frees soundMem_writes op s hs
  exact (hvInv_run hb hrun).housed hsound

/-! ## The blocks of a creation -/

/-- The name ends in time, or the first request is refused. -/
def CanFinish (config : VmConfig) (h : Host) : Prop :=
  0 ∈ config.name.toList.take 63 ∨ ¬ h.mem.heap.Serves .vm 16 sizeofNexusvm 1

theorem strncpy_name (config : VmConfig) :
    (strncpy (List.replicate 64 0) config.name.toList 63).isSome ↔ 0 ∈ config.name.toList.take 63 := by
  refine strncpy_isSome ?_ ?_ ?_
  · simp
  · simp
  · simp

theorem canFinish_of_vmCreate (hinit : h.gInitialized = true) {config : VmConfig}
    {r : Except Result Addr} {h' : Host} (hrun : (vmCreate (some config)).run h = some (r, h')) :
    CanFinish config h := by
  by_contra hnot
  rw [CanFinish, not_or, not_not] at hnot
  obtain ⟨hname, vm, hanswer, hf, -⟩ := hnot
  have hnone : strncpy (List.replicate 64 0) config.name.toList 63 = none := by
    rw [← Option.not_isSome_iff_eq_none, strncpy_name]
    exact hname
  have hw : wlp (vmCreate (some config)) (fun _ _ => False) h := by
    rw [vmCreate, wlp_bind, wlp_get]
    dsimp only
    rw [if_neg (by simp [hinit]), wlp_bind, calloc, wlp_onMem, alignedAlloc, onHeap, wlp_zoom]
    refine (Heap.wp_alloc (fun vm' _ _ => ?_) fun hc => absurd ⟨vm, hanswer, hf, trivial⟩ hc).wlp
    simp only [wlp_bind, wlp_getHv, wlp_putHv, wlp_fetch, hnone]
    rintro - _ ⟨⟩
  exact hw r h' hrun

/-- **`vm_create`** owes the blocks of the new VM, or nothing if it failed. -/
theorem vmCreate_owes (hh : Housed h) {config : VmConfig} (hcan : CanFinish config h) :
    wp (vmCreate (some config)) (fun r h' =>
      (r = .error .errNoMemory ∧ h.mem.heap.Owes h'.mem.heap 0) ∨ ∃ a v, r = .ok a ∧
        h'.vms a = some v ∧ h.mem.heap.Owes h'.mem.heap (h'.vcpusKeys v.vcpus + vmKeys a v)) h := by
  have halloc : wp (calloc .vm 1 sizeofNexusvm) (fun o h' =>
      (o = none ∧ ∃ m, h' = h.setMem m ∧ h.mem.heap.Owes m.heap 0) ∨
      ∃ vm m, o = some vm ∧ h' = h.setMem m ∧ Fresh h.mem vm ∧ m.heap.Holds .vm vm ∧ Allocates h.mem m ∧
        h.mem.heap.Owes m.heap (named .vm (some vm) + 0) ∧
        (strncpy (List.replicate 64 0) config.name.toList 63).isSome) h := by
    rw [calloc, wp_onMem, alignedAlloc, onHeap, wp_zoom]
    refine Heap.wp_alloc (fun vm ha hf => ?_) fun _ => .inl ⟨rfl, _, rfl, (Heap.Owes.refl _).refuse⟩
    refine .inr ⟨vm, _, rfl, rfl, Fresh.of_fits hf, Heap.holds_grant_self _ _, ?_,
      (Heap.Owes.refl _).grant _, ?_⟩
    · exact Allocates.grant hf
    · rw [strncpy_name]
      exact hcan.resolve_right (not_not.mpr ⟨vm, ha, hf, trivial⟩)
  rw [vmCreate, wp_bind, wp_get]
  dsimp only
  rw [if_neg (by simp [hh.initialized]), wp_bind]
  refine wp_mono halloc ?_
  rintro _ _ (⟨rfl, m, rfl, ho⟩ | ⟨vm, m, rfl, rfl, hfresh, hheld, ha, ho, hname⟩)
  · dsimp only
    rw [wp_pure]
    exact .inl ⟨rfl, ho⟩
  obtain ⟨name, hname⟩ := Option.isSome_iff_exists.mp hname
  simp only [wp_bind, wp_getHv, wp_putHv, wp_fetch, wp_putVm]
  refine ⟨hh.initialized, name, hname, ?_⟩
  have hb := builds_newVm ha hfresh hheld config h.hv.nextVmId name
  have ho' : h.mem.heap.Owes m.heap (vmKeys vm (newVm config h.hv.nextVmId name) + 0) := by
    refine ho.congr ?_
    simp [vmKeys, vmBlocks, newVm]
  refine wp_mono (wp_and (vmBuild_spec hh.initialized hh.online hh.fresh_vcpu rfl rfl hb)
    (vmBuild_owes hh.initialized hh.online hh.fresh_vcpu hb rfl rfl rfl rfl rfl rfl ho')) ?_
  rintro r h₁ ⟨⟨v, -, hres⟩, w, hw, ⟨rfl, how⟩ | ⟨rfl, how⟩⟩
  · rw [if_neg (by simp), wp_bind]
    obtain ⟨-, -, -, -, hb₁⟩ := hres.resolve_right fun hc => hc.1 rfl
    obtain rfl : v = w := Option.some.inj (hb₁.getVm.symm.trans hw)
    refine wp_mono (vmLink_spec ?_ hb₁.getVm (hb₁.first hh.first hh.fresh_vm)) ?_
    · rw [hb₁.shape]
      exact hh.initialized
    rintro _ _ rfl
    rw [wp_pure]
    refine .inr ⟨vm, _, rfl, if_pos rfl, how.congr ?_⟩
    rw [add_zero]
    rfl
  · rw [if_pos (by simp), wp_bind]
    refine wp_mono (vmAbandon_owes hw how) ?_
    intro _ h' ho''
    rw [wp_pure]
    exact .inl ⟨rfl, ho''⟩

/-! ## All or nothing -/

/-- Nothing but the next id has changed, and every block that was taken has been given back once. -/
structure Unwound (h h' : Host) : Prop where
  hv : h'.hv = h.hv ∨ h'.hv = h.hv.nextId
  vms : h'.vms = h.vms
  vcpus : h'.vcpus = h.vcpus
  entities : h'.entities = h.entities
  links : h'.links = h.links
  live : ∀ b, b ∈ h'.mem.heap.live ↔ b ∈ h.mem.heap.live
  badFrees : h'.mem.heap.badFrees = h.mem.heap.badFrees
  tables : ∀ b ∈ h.mem.heap.live, ∀ t, b.base ≤ t → t < b.base + b.size →
    h'.mem.tables t = h.mem.tables t

/-- The new VM is first in the list, with all its vCPUs. -/
structure Created (config : VmConfig) (a : Addr) (h h' : Host) : Prop where
  fresh : h.vms a = none
  first : h'.hv.vms = some a
  count : h'.hv.vmCount = h.hv.vmCount + 1
  record : ∃ v, h'.vms a = some v ∧ v.state = .initialized ∧ v.vcpus.length = config.vcpuCount.toNat

def CreatedOrUnwound (config : VmConfig) (h : Host) (r : Except Result Addr) (h' : Host) : Prop :=
  (∃ a, r = .ok a ∧ Created config a h h') ∨ (r = .error .errNoMemory ∧ Unwound h h')

theorem vmCreate_allOrNothing (hh : Housed h) {config : VmConfig} (hcan : CanFinish config h) :
    wp (vmCreate (some config)) (CreatedOrUnwound config h) h := by
  obtain ⟨r, h', hrun, howes⟩ := vmCreate_owes hh hcan
  have heffect := vmCreate_effect hh.initialized hh.online hh.fresh_vcpu hh.fresh_vm hh.first config r h'
    hrun
  refine ⟨r, h', hrun, ?_⟩
  cases r with
  | error e =>
    obtain ⟨m, hv, ha, hhv, rfl⟩ := heffect
    rcases howes with ⟨he, ho⟩ | ⟨_, _, hc, -⟩
    swap
    · cases hc
    refine .inr ⟨he, hhv, rfl, rfl, rfl, rfl, ?_, ho.badFrees, ha.tables⟩
    exact (ho.live_iff hh.sound (ha.sound hh.sound) ha.live).mp rfl
  | ok a =>
    obtain ⟨v, h₁, name, -, hlen, -, -, hb, rfl⟩ := heffect
    refine .inl ⟨a, rfl, hh.fresh_vm a hb.fresh, rfl, ?_, _, if_pos rfl, rfl, hlen⟩
    change h₁.hv.vmCount + 1 = _
    rw [hb.shape]
    rfl

/-- **When a creation is all or nothing.** `vm_create` returns, with a VM or with nothing left behind of
all it had done up to the request that was refused, just if the name ends within 63 bytes or the first
request is refused: `strncpy` does not come back from a longer name. -/
theorem vm_create_all_or_nothing_iff (hh : Housed h) (config : VmConfig) :
    (∃ r h', (vmCreateUnwinding (some config)).run h = some (r, h') ∧ CreatedOrUnwound config h r h') ↔
      0 ∈ config.name.toList.take 63 ∨ ¬ h.mem.heap.Serves .vm 16 sizeofNexusvm 1 := by
  constructor
  · rintro ⟨r, h', hrun, -⟩
    by_contra hnot
    rw [not_or, not_not] at hnot
    obtain ⟨hname, vm, hanswer, hf, -⟩ := hnot
    have hnone : strncpy (List.replicate 64 0) config.name.toList 63 = none := by
      rw [← Option.not_isSome_iff_eq_none, strncpy_name]
      exact hname
    have hw : wlp (vmCreateUnwinding (some config)) (fun _ _ => False) h := by
      rw [vmCreateUnwinding, wlp_bind, wlp_get]
      dsimp only
      rw [if_neg (by simp [hh.initialized]), wlp_bind, calloc, wlp_onMem, alignedAlloc, onHeap, wlp_zoom]
      refine (Heap.wp_alloc (fun vm' _ _ => ?_) fun hc => absurd ⟨vm, hanswer, hf, trivial⟩ hc).wlp
      simp only [wlp_bind, wlp_getHv, wlp_putHv, wlp_fetch, hnone]
      rintro - _ ⟨⟩
    exact hw r h' hrun
  · exact fun hcan => vmCreateUnwinding_of_vmCreate (vmCreate_allOrNothing hh hcan)

/-- A booted host whose allocator serves one request. -/
def oneBlockHost : Host :=
  (bootHost 1 .intel).setMem { bumpMem with
    heap := { bumpMem.heap with answer := fun n => if n = 0 then some 4096 else none } }

theorem boot_oneBlockHost : Boot oneBlockHost :=
  ⟨rfl, rfl, by decide, rfl, rfl, rfl, rfl, rfl, rfl, rfl, rfl, fun _ _ => ⟨rfl, rfl⟩, List.Pairwise.nil⟩

theorem housed_oneBlockHost : Housed oneBlockHost := by
  have hnone : (runOps HvOp.run []).run oneBlockHost = some ((), oneBlockHost) := rfl
  exact housed_run boot_oneBlockHost hnone

theorem vm_create_all_or_nothing_iff_refused :
    Housed oneBlockHost ∧ oneBlockHost.mem.heap.Serves .vm 16 sizeofNexusvm 1 ∧
    ¬ oneBlockHost.mem.heap.Serves .vm 16 sizeofNexusvm 2 ∧
    ((∃ r h', (vmCreateUnwinding (some { vcpuCount := 2 })).run oneBlockHost = some (r, h') ∧
        CreatedOrUnwound { vcpuCount := 2 } oneBlockHost r h') ↔
      0 ∈ (VmConfig.name { vcpuCount := 2 }).toList.take 63 ∨
        ¬ oneBlockHost.mem.heap.Serves .vm 16 sizeofNexusvm 1) :=
  ⟨housed_oneBlockHost, by decide +kernel, by decide +kernel,
    vm_create_all_or_nothing_iff housed_oneBlockHost _⟩

/-- A name that fills its field up to the terminating zero. -/
def fullName : Vector UInt8 64 := (Vector.replicate 64 120).set 63 0

/-- **A long name.** The allocator would refuse the second request of the creation, but the copy of a
name of 63 characters does not return. -/
theorem long_name_never_created :
    Housed oneBlockHost ∧ ¬ oneBlockHost.mem.heap.Serves .vm 16 sizeofNexusvm 2 ∧
    fullName.toList = List.replicate 63 120 ++ [0] ∧
    (vmCreateUnwinding (some { name := fullName, vcpuCount := 1 })).run oneBlockHost = none ∧
    ¬ ∃ r h', (vmCreateUnwinding (some { name := fullName, vcpuCount := 1 })).run oneBlockHost =
        some (r, h') ∧
      CreatedOrUnwound { name := fullName, vcpuCount := 1 } oneBlockHost r h' := by
  have hnone : (vmCreateUnwinding (some { name := fullName, vcpuCount := 1 })).run oneBlockHost =
      none := rfl
  refine ⟨housed_oneBlockHost, by decide +kernel, by decide +kernel, hnone, ?_⟩
  rintro ⟨r, h', hrun, -⟩
  rw [hnone] at hrun
  cases hrun
end NexusVM
