import NexusVM.Unwinding
import NexusVM.Effects
import NexusVM.Regions

/-!
# What a destruction gives back

* `vmAllocMemory_effect`: an allocation for a VM keeps the block it is served;
* `LifeEffect.keys`: no call on a VM changes what its vCPUs hold;
* `vmDestroy_owes`: `vm_destroy` gives back the blocks that the records of the VM name;
* `Holding`, `GuestOp.holding`: what the VM has taken besides;
* **`destroy_returns_iff`**: a destruction returns everything just if no call took anything.
-/

namespace NexusVM

open Prog

variable {g : Heap BlockKind} {ks : Multiset (BlockKind × Addr)} {h h' h₀ h₁ : Host} {a c : Addr}
  {v : Nexusvm} {u : Nexusvcpu} {r : Result}

/-! ## Allocations -/

/-- `ept_map` does not look at the results of its requests. -/
theorem mapPages_ok (root : Addr) (guestPhys hostPhys : UInt64) (write execute : Bool) (n : ℕ)
    (i : UInt64) (m : PhysMem) :
    wlp (mapPages (some root) guestPhys hostPhys write execute n i) (fun r _ => r = .ok) m := by
  induction n generalizing i m with
  | zero => exact (wlp_pure _).mpr rfl
  | succ n ih =>
    rw [mapPages, wlp_bind]
    have hmap : wlp (eptMap (some root) (guestPhys + (i <<< PAGE_SHIFT))
        (makePte (hostPhys + (i <<< PAGE_SHIFT)) write execute)) (fun r _ => r = .ok) m := by
      simp only [eptMap, wlp_bind, wlp_pure]
      exact fun _ _ _ _ _ _ => trivial
    refine wlp_mono hmap ?_
    rintro _ m' rfl
    rw [if_neg (by simp)]
    exact ih _ _

/-- What `vm_alloc_memory` does for a VM that has page tables. -/
inductive AllocEffect (a : Addr) (v : Nexusvm) (h : Host) (size : UInt64) : Host → Prop
  | invalid : size = 0 → AllocEffect a v h size h
  | noMemory : size ≠ 0 → AllocEffect a v h size h.refuse
  | ok {b : Block BlockKind} {region : MemoryRegion} {m : PhysMem} : size ≠ 0 → b.kind = .pages →
      (∀ I, RequestsKeep I → WritesKeep I → I { h.mem with heap := h.mem.heap.grant b } → I m) →
      h.mem.heap.Fits 4096 b →
      AllocEffect a v h size ((h.setMem m).setVm a (some (v.addRegion region)))

theorem vmAllocMemory_effect (hv : h.vms a = some v) (hroot : v.eptRoot ≠ none)
    (guestPhys size : UInt64) (regionType : MemoryRegionType) :
    wlp (vmAllocMemory (some a) guestPhys size regionType) (fun _ h' => AllocEffect a v h size h') h := by
  obtain ⟨root, hroot⟩ := Option.ne_none_iff_exists'.mp hroot
  rw [vmAllocMemory]
  refine wlp_ite (fun hzero => (wlp_pure _).mpr (.invalid hzero)) fun hne => ?_
  rw [wlp_bind, wlp_onMem]
  refine wlp_mono (eptAllocPages_spec (size / PAGE_SIZE + 1) h.mem).wlp fun o m ho => ?_
  cases o with
  | none =>
    obtain ⟨-, rfl⟩ := ho
    rw [wlp_pure]
    exact .noMemory hne
  | some b =>
    obtain ⟨-, hf, rfl⟩ := ho
    simp only [wlp_bind, wlp_getVm, wlp_require, wlp_putVm]
    intro w hw _
    rw [Host.setMem_vms, hv] at hw
    cases hw
    -- the region that is recorded
    generalize { v.memoryRegions[v.memoryRegionCount.toNat]?.getD {} with
      guestPhys := guestPhys
      hostPhys := UInt64.ofNat b
      size := size
      type := regionType
      flags := MEM_REGION_READABLE ||| MEM_REGION_WRITABLE } = region
    change wlp _ _ ((h.setMem _).setVm a (some (v.addRegion region)))
    simp only [vmEptMap, wlp_bind, wlp_getVm, Host.setVm_self]
    rintro _ ⟨⟩
    have hroot' : (v.addRegion region).eptRoot = some root := hroot
    simp only [hroot', Option.isNone_some, Bool.false_eq_true, if_false, wlp_onMem]
    intro result m' hrun
    obtain rfl := mapPages_ok root _ _ _ _ _ _ _ result m' hrun
    rw [if_neg (by simp), wlp_pure]
    refine .ok hne rfl (fun I hk hw hI => ?_) hf
    have hnew : I (h.mem.newPages b ((size / PAGE_SIZE + 1) * PAGE_SIZE).toNat) :=
      hw { h.mem with heap := h.mem.heap.grant ⟨.pages, b, _⟩ } _ rfl hI
    exact mapPages_keep hk hw _ _ _ _ _ _ _ _ hnew .ok m' hrun

/-! ## The blocks of the vCPUs -/

/-- The vCPUs hold the same blocks. -/
def KeepsKeys (h h' : Host) : Prop := ∀ c u, h.vcpus c = some u → ∃ u', h'.vcpus c = some u' ∧
  ∀ vendor, vcpuKeys vendor c u' = vcpuKeys vendor c u

theorem KeepsKeys.refl (h : Host) : KeepsKeys h h := fun _ u hu => ⟨u, hu, fun _ => rfl⟩

theorem KeepsKeys.trans (hk : KeepsKeys h₀ h) (hk' : KeepsKeys h h') : KeepsKeys h₀ h' := by
  intro c u hu
  obtain ⟨u₁, hu₁, hkeys⟩ := hk c u hu
  obtain ⟨u₂, hu₂, hkeys'⟩ := hk' c u₁ hu₁
  exact ⟨u₂, hu₂, fun vendor => (hkeys' vendor).trans (hkeys vendor)⟩

theorem keepsKeys_update {u' : Nexusvcpu} (hu : h.vcpus c = some u)
    (hvcpus : h'.vcpus = Function.update h.vcpus c (some u'))
    (hkeys : ∀ vendor, vcpuKeys vendor c u' = vcpuKeys vendor c u) : KeepsKeys h h' := by
  intro d w hw
  rw [hvcpus]
  by_cases hdc : d = c
  · subst hdc
    obtain rfl := Option.some.inj (hu.symm.trans hw)
    exact ⟨u', Function.update_self _ _ _, hkeys⟩
  · exact ⟨w, (Function.update_of_ne hdc _ _).trans hw, fun _ => rfl⟩

theorem keepsKeys_mapVcpus {f : Nexusvcpu → Nexusvcpu} (cs : List Addr)
    (hf : ∀ vendor c u, vcpuKeys vendor c (f u) = vcpuKeys vendor c u) :
    KeepsKeys h (h.mapVcpus cs f) := by
  intro c u hu
  by_cases hc : c ∈ cs
  · refine ⟨f u, ?_, fun vendor => hf vendor c u⟩
    rw [Host.mapVcpus_vcpus_of_mem hc, hu]
    rfl
  · refine ⟨u, ?_, fun _ => rfl⟩
    rw [Host.mapVcpus_vcpus_of_notMem hc, hu]

theorem VcpuStarts.keys (hs : VcpuStarts c u h r h') (hu : h.vcpus c = some u) : KeepsKeys h h' := by
  have hsetup : ∀ vendor, vcpuKeys vendor c (h.setupVcpu u) = vcpuKeys vendor c u := by
    intro vendor
    obtain ⟨id, hid⟩ := setupVcpu_eq h u
    rw [hid]
    rfl
  obtain ⟨u', hvcpus, rfl | rfl | ⟨o, rfl⟩⟩ := hs.vcpus hu
  · exact keepsKeys_update hu hvcpus fun _ => rfl
  · exact keepsKeys_update hu hvcpus hsetup
  · refine keepsKeys_update hu hvcpus fun vendor => ?_
    change vcpuKeys vendor c (if u.initialized then u else h.setupVcpu u) = _
    split_ifs
    · rfl
    · exact hsetup vendor

theorem StartsSeq.keys {cs : List Addr} (hs : StartsSeq h₀ cs h) : KeepsKeys h₀ h := by
  induction hs with
  | nil => exact KeepsKeys.refl h₀
  | snoc _ hu hstart ih => exact ih.trans (hstart.keys hu)

theorem keepsKeys_stopVcpus (h : Host) (cs : List Addr) : KeepsKeys h (h.stopVcpus cs) :=
  keepsKeys_mapVcpus cs fun _ _ _ => rfl

/-- **No call on a VM** changes what the vCPUs hold. -/
theorem LifeEffect.keys {op : LifecycleOp} (he : LifeEffect a v h op r h') : KeepsKeys h h' := by
  cases he with
  | idle => exact KeepsKeys.refl h
  | started _ hs => exact hs.keys
  | rolledBack _ hback =>
    obtain ⟨-, hs, hu, hstart, -⟩ := hback
    exact (hs.keys.trans (hstart.keys hu)).trans (keepsKeys_stopVcpus _ _)
  | stopped => exact keepsKeys_stopVcpus h _
  | paused => exact keepsKeys_mapVcpus _ fun _ _ _ => rfl
  | resumed => exact keepsKeys_mapVcpus _ fun _ _ _ => rfl
  | @reset cold h₁ hh₁ =>
    have hstop : KeepsKeys h h₁ := by
      rw [hh₁]
      split_ifs
      · exact keepsKeys_stopVcpus h _
      · exact KeepsKeys.refl h
    exact hstop.trans (keepsKeys_mapVcpus v.vcpus fun _ _ _ => rfl)

theorem KeepsKeys.vcpusKeys (hk : KeepsKeys h h') (hvendor : h'.hv.cpuVendor = h.hv.cpuVendor)
    {cs : List Addr} (hcs : ∀ c ∈ cs, h.vcpus c ≠ none) : h'.vcpusKeys cs = h.vcpusKeys cs := by
  refine congrArg List.sum (List.map_congr_left fun c hc => ?_)
  obtain ⟨u, hu⟩ := Option.ne_none_iff_exists'.mp (hcs c hc)
  obtain ⟨u', hu', hkeys⟩ := hk c u hu
  rw [Host.vcpuKeys_some hu, Host.vcpuKeys_some hu', hvendor, hkeys]

/-! ## Destruction -/

theorem vmFreeParts_owes (ho : g.Owes h.mem.heap (pointers [(.vcpus, v.vcpuTable), (.pages, v.eptRoot),
    (.eptp, v.eptPointer), (.regions, v.regionTable)] + ks)) :
    wp (vmFreeParts v) (fun _ h' => ∃ m, h' = h.setMem m ∧ g.Owes m.heap ks) h := by
  simp only [pointers_cons, pointers_nil, add_zero, add_assoc] at ho
  simp only [vmFreeParts, wp_bind]
  refine wp_mono (freeBuffer_owes ho) ?_
  rintro _ _ ⟨m₁, rfl, ho₁⟩
  refine wp_mono (eptFreeRoot_owes ho₁) ?_
  rintro _ _ ⟨m₂, rfl, ho₂⟩
  refine wp_mono (freeBuffer_owes ho₂) ?_
  rintro _ _ ⟨m₃, rfl, ho₃⟩
  exact freeBuffer_owes ho₃

/-- **`vm_destroy`** gives back the blocks that the records of the VM name. -/
theorem vmDestroy_owes (hi : HvInv h) (hv : h.vms a = some v) (hvmx : v.nestedVmx = none)
    (hsvm : v.nestedSvm = none)
    (ho : g.Owes h.mem.heap (h.vcpusKeys v.vcpus + (vmKeys a v + ks))) :
    wp (vmDestroy (some a)) (fun r h' => r = .ok ∧ g.Owes h'.mem.heap ks) h := by
  have hl := hi.good.layout
  obtain ⟨xs, hr⟩ := hi.listed
  obtain ⟨hprev, hnext⟩ := hr.neighbours hv
  rw [vmDestroy, wp_bind, wp_getVm]
  refine ⟨v, hv, ?_⟩
  rw [wp_bind]
  refine wp_mono (wp_and_wlp (stopRunning_spec hi.good hv) (stopRunning_effect hi.good hv)) ?_
  rintro _ h₂ ⟨⟨h₁, s, -, ht, hl₁, hrun, rfl⟩, s', heq⟩
  -- stopping changes neither the memory nor what the vCPUs hold
  have hmem : h₁.mem = h.mem := by
    refine (congrArg Host.mem heq).trans ?_
    split_ifs <;> rfl
  have hkeys : KeepsKeys h (h₁.setVm a (some { v with state := s })) := by
    rw [heq]
    split_ifs
    · exact keepsKeys_stopVcpus h _
    · exact KeepsKeys.refl h
  have hkeep : (h₁.setVm a (some { v with state := s })).vcpusKeys v.vcpus = h.vcpusKeys v.vcpus :=
    hkeys.vcpusKeys (congrArg Hypervisor.cpuVendor ht.hv) (hi.good.vcpus_ne hv)
  have hstopped : ∀ c ∈ v.vcpus, ∃ u, h₁.vcpus c = some u ∧ u.running = false := by
    intro c hc
    obtain ⟨u, hu, -⟩ := hl.vcpus a v trivial hv c hc
    obtain ⟨u', hu', -⟩ := ht.owns c u hu
    exact ⟨u', hu', hrun c hc u' hu'⟩
  have hget : ∀ b, b ≠ a → h.vms b ≠ none →
      (h₁.setVm a (some { v with state := s })).vms b ≠ none := by
    intro b hb hne
    rw [Host.setVm_vms, Function.update_of_ne hb, ht.vms]
    exact hne
  rw [← hkeep, ← hmem] at ho
  have hnd := hl.nodup a v trivial hv
  rw [wp_bind]
  refine wp_mono (wp_and (destroyVcpus_spec (h := h₁.setVm a _) hl₁.initialized hnd hstopped)
    (destroyVcpus_owes (h := h₁.setVm a _) hl₁.initialized hnd hstopped ho)) ?_
  rintro _ _ ⟨⟨m₂, l, rfl, -, -⟩, ho₂⟩
  have ho₂' : g.Owes m₂.heap (pointers [(.vcpus, v.vcpuTable), (.pages, v.eptRoot),
      (.eptp, v.eptPointer), (.regions, v.regionTable)] + (named .vm (some a) + ks)) := by
    refine Heap.Owes.congr ho₂ ?_
    simp only [vmKeys, vmBlocks, pointers_cons, pointers_nil, add_zero, add_assoc]
  rw [wp_bind]
  refine wp_mono (vmFreeParts_owes ho₂') ?_
  rintro _ _ ⟨m₃, rfl, ho₃⟩
  rw [wp_bind]
  refine wp_mono (vmUnlink_spec (a := a) (v := { v with state := s }) hl₁.initialized
    (Host.setVm_self _ _ _) (fun p hp => ?_) fun n hn => ?_) ?_
  · obtain ⟨hpa, hpv, hpn⟩ := hprev p hp
    exact ⟨hget p hpa hpv, hpn⟩
  · obtain ⟨hna, hnv⟩ := hnext n hn
    exact hget n hna hnv
  rintro _ _ rfl
  rw [hvmx, hsvm, wp_bind, wp_freeBuffer_none, wp_bind, wp_freeBuffer_none, wp_bind, wp_freeVm, wp_pure]
  exact ⟨rfl, ho₃.release⟩

/-! ## What a VM holds -/

/-- Since the heap was `g`, the blocks of the VM at `a` were taken, and the blocks `ks`. -/
structure Holding (g : Heap BlockKind) (a : Addr) (ks : Multiset (BlockKind × Addr)) (h : Host) :
    Prop where
  hv : HvInv h
  sound : h.mem.heap.Sound
  live : ∀ b ∈ g.live, b ∈ h.mem.heap.live
  owes : ∃ v, h.vms a = some v ∧ v.nestedVmx = none ∧ v.nestedSvm = none ∧ v.eptRoot ≠ none ∧
    g.Owes h.mem.heap (h.vcpusKeys v.vcpus + (vmKeys a v + ks))

/-- The heap owes `ks` and at least `ls` besides. -/
structure OwesMore (g : Heap BlockKind) (ks ls : Multiset (BlockKind × Addr)) (m : PhysMem) : Prop where
  sound : m.heap.Sound
  live : ∀ b ∈ g.live, b ∈ m.heap.live
  owes : ∃ ls', ls ≤ ls' ∧ g.Owes m.heap (ks + ls')

theorem OwesMore.grant {ls : Multiset (BlockKind × Addr)} {m : PhysMem} (hm : OwesMore g ks ls m)
    {align : ℕ} {b : Block BlockKind} (hf : m.heap.Fits align b) :
    OwesMore g ks (ls + {(b.kind, b.base)}) { m with heap := m.heap.grant b } := by
  obtain ⟨hs, hlive, ls', hle, ho⟩ := hm
  refine ⟨hs.grant hf, fun c hc => List.mem_cons_of_mem _ (hlive c hc), ls' + {(b.kind, b.base)},
    by gcongr, (ho.grant b).congr ?_⟩
  rw [add_comm ls', add_left_comm]

theorem owesMore_requests (g : Heap BlockKind) (ks ls : Multiset (BlockKind × Addr)) :
    RequestsKeep (OwesMore g ks ls) where
  grant m align b hf hm := by
    obtain ⟨hs, hlive, ls', hle, ho⟩ := hm.grant hf
    exact ⟨hs, hlive, ls', (Multiset.le_add_right _ _).trans hle, ho⟩
  refuse m hm := by
    obtain ⟨hs, hlive, ls', hle, ho⟩ := hm
    exact ⟨hs, hlive, ls', hle, ho.refuse⟩

theorem owesMore_writes (g : Heap BlockKind) (ks ls : Multiset (BlockKind × Addr)) :
    WritesKeep (OwesMore g ks ls) := fun m m' heq hm => by
  obtain ⟨hs, hlive, ls', hle, ho⟩ := hm
  exact ⟨by rw [heq]; exact hs, by rw [heq]; exact hlive, ls', hle, by rw [heq]; exact ho⟩

/-- The blocks are live. -/
def KeepsLive (l : List (Block BlockKind)) (m : PhysMem) : Prop := ∀ b ∈ l, b ∈ m.heap.live

theorem keepsLive_requests (l : List (Block BlockKind)) : RequestsKeep (KeepsLive l) :=
  ⟨fun _ _ _ _ hl b hb => List.mem_cons_of_mem _ (hl b hb), fun _ hl => hl⟩

theorem keepsLive_writes (l : List (Block BlockKind)) : WritesKeep (KeepsLive l) :=
  fun m m' heq hl => by
    rw [KeepsLive, heq]
    exact hl

theorem OwesMore.holding {ls : Multiset (BlockKind × Addr)} {w : Nexusvm}
    (hm : OwesMore g (h.vcpusKeys v.vcpus + vmKeys a v) ls h'.mem) (hi : HvInv h')
    (hw : h'.vms a = some w) (hvcpus : h'.vcpusKeys w.vcpus = h.vcpusKeys v.vcpus)
    (hkeys : vmKeys a w = vmKeys a v) (hvmx : w.nestedVmx = none) (hsvm : w.nestedSvm = none)
    (hroot : w.eptRoot ≠ none) : ∃ ls', ls ≤ ls' ∧ Holding g a ls' h' := by
  obtain ⟨hs, hlive, ls', hle, ho⟩ := hm
  refine ⟨ls', hle, hi, hs, hlive, w, hw, hvmx, hsvm, hroot, ho.congr ?_⟩
  rw [hvcpus, hkeys, add_assoc]

theorem LifeEffect.holding {op : LifecycleOp} {ls : Multiset (BlockKind × Addr)}
    (he : LifeEffect a v h op r h') (hg : Good h) (hi : HvInv h') (hv : h.vms a = some v)
    (hvmx : v.nestedVmx = none) (hsvm : v.nestedSvm = none) (hroot : v.eptRoot ≠ none)
    (hm : OwesMore g (h.vcpusKeys v.vcpus + vmKeys a v) ls h'.mem) :
    ∃ ls', ls ≤ ls' ∧ Holding g a ls' h' := by
  obtain ⟨s, hvms⟩ := he.vms hv
  have hw : h'.vms a = some { v with state := s } := by
    rw [hvms, Function.update_self]
  have hvcpus : h'.vcpusKeys v.vcpus = h.vcpusKeys v.vcpus :=
    he.keys.vcpusKeys (congrArg Hypervisor.cpuVendor he.hv) (hg.vcpus_ne hv)
  exact hm.holding hi hw hvcpus rfl hvmx hsvm hroot

/-- **Nothing is given back** by a call on the VM. -/
theorem Holding.guestOp (hd : Holding g a ks h) (op : GuestOp) :
    wlp (op.run a) (fun _ h' => ∃ ks', ks ≤ ks' ∧ Holding g a ks' h') h := by
  obtain ⟨hi, hs, hlive, v, hv, hvmx, hsvm, hroot, ho⟩ := hd
  have hm : OwesMore g (h.vcpusKeys v.vcpus + vmKeys a v) ks h.mem :=
    ⟨hs, hlive, ks, le_refl _, ho.congr (add_assoc _ _ _)⟩
  cases op with
  | alloc guestPhys size regionType =>
    rw [GuestOp.run, wlp_discard]
    refine wlp_mono (vmAllocMemory_effect hv hroot guestPhys size regionType) fun _ h' he => ?_
    cases he with
    | invalid => exact ⟨ks, le_refl _, hi, hs, hlive, v, hv, hvmx, hsvm, hroot, ho⟩
    | noMemory =>
      exact OwesMore.holding ((owesMore_requests g _ _).refuse _ hm)
        (hi.setMem fun _ => id) hv rfl rfl hvmx hsvm hroot
    | @ok b region m hne hkind hkeep hf =>
      have hm' : OwesMore g _ _ m := hkeep _ (owesMore_requests g _ _) (owesMore_writes g _ _)
        ((owesMore_requests g _ _).grant _ _ _ hf hm)
      have hlive' : KeepsLive h.mem.heap.live m :=
        hkeep _ (keepsLive_requests _) (keepsLive_writes _) fun c hc => List.mem_cons_of_mem _ hc
      exact hm'.holding (hi.addRegion hv hlive') (Host.setVm_self _ _ _) rfl rfl hvmx hsvm hroot
  | lifecycle op =>
    rw [GuestOp.run, wlp_discard]
    have hkeep : wlp (op.run a) (fun _ h' => OwesMore g (h.vcpusKeys v.vcpus + vmKeys a v) ks h'.mem) h :=
      lifecycleOp_keep (owesMore_requests g _ _) (owesMore_writes g _ _) op a h hm
    have hinv : wlp (op.run a) (fun _ h' => HvInv h') h := by
      have := hvOp_spec hi (.lifecycle op a)
      rw [HvOp.run, wlp_discard] at this
      exact wlp_mono this fun _ _ hq => hq.1
    refine wlp_mono (wlp_and (lifecycle_effect hi.good hv op) (wlp_and hkeep hinv)) ?_
    rintro r h' ⟨he, hm', hi'⟩
    exact he.holding hi.good hi' hv hvmx hsvm hroot hm'

/-! ## What is taken -/

/-- The call takes no block that a destruction does not find: no memory is asked for, and no vCPU is
started, the set-up of the first one having failed. -/
def GuestOp.TakesNothing (vm : Addr) : GuestOp → Host → Prop
  | .alloc _ size _, _ => size = 0
  | .lifecycle .start, h => ∀ v ∈ h.vms vm, LifecycleOp.start.Acts v → ∀ c ∈ v.vcpus.head?,
    ∀ u ∈ h.vcpus c, h.setupResult u ≠ .ok
  | .lifecycle _, _ => True

/-- No request of the call is refused. -/
def GuestOp.Served (vm : Addr) (op : GuestOp) (h : Host) : Prop :=
  wlp (op.run vm) (fun _ h' => h'.mem.heap.refused = h.mem.heap.refused) h

/-- The vCPU was never started. -/
structure Nexusvcpu.Untouched (u : Nexusvcpu) : Prop where
  schedEntity : u.schedEntity = none
  initialized : u.initialized = false
  running : u.running = false

instance GuestOp.decidableServed (vm : Addr) (op : GuestOp) (h : Host) : Decidable (op.Served vm h) := by
  unfold GuestOp.Served
  infer_instance

/-- No vCPU of the VM was ever started. -/
def Untouched (a : Addr) (h : Host) : Prop := ∀ v, h.vms a = some v → ∀ c ∈ v.vcpus, ∀ u,
  h.vcpus c = some u → u.Untouched

theorem Adds.requests {I : PhysMem → Prop} (hk : RequestsKeep I) (ha : Adds c u h r h') (hI : I h.mem) :
    I h'.mem := by
  cases ha with
  | again => exact hI
  | noMemory => exact hk.refuse _ hI
  | fresh _ hf => exact hk.grant _ _ _ hf hI

theorem VcpuStarts.requests {I : PhysMem → Prop} (hk : RequestsKeep I) (hs : VcpuStarts c u h r h')
    (hI : I h.mem) : I h'.mem := by
  cases hs with
  | running | failed => exact hI
  | added _ _ ha =>
    refine ha.requests hk ?_
    unfold Host.beforeAdd
    split_ifs <;> exact hI

theorem StartsSeq.requests {I : PhysMem → Prop} (hk : RequestsKeep I) {cs : List Addr}
    (hs : StartsSeq h₀ cs h) (hI : I h₀.mem) : I h.mem := by
  induction hs with
  | nil => exact hI
  | snoc _ _ hstart ih => exact hstart.requests hk ih

theorem VcpuStarts.first (hs : VcpuStarts c u h r h') (hu : u.Untouched) :
    (h.setupResult u ≠ .ok ∧ r = h.setupResult u ∧ h' = h.afterSetup c u) ∨
      (h.setupResult u = .ok ∧ r = .ok ∧ (h'.mem.heap = h.mem.heap.refuse ∨ ∃ e,
        h.mem.heap.Fits 16 ⟨.entity, e, 1 * sizeofSchedEntity⟩ ∧
          h'.mem.heap = h.mem.heap.grant ⟨.entity, e, 1 * sizeofSchedEntity⟩)) := by
  obtain ⟨hent, hinit, hrun⟩ := hu
  have hmem : (h.beforeAdd c u).mem = h.mem := by
    unfold Host.beforeAdd
    split_ifs <;> rfl
  have hent' : (h.startedVcpu u).schedEntity = none := by
    obtain ⟨id, hid⟩ := setupVcpu_eq h u
    simp [Host.startedVcpu, hinit, hid, hent]
  cases hs with
  | running hc => exact absurd (hc.symm.trans hrun) (by simp)
  | failed _ _ hne => exact .inl ⟨hne, rfl, rfl⟩
  | added _ hok ha =>
    have hok' : h.setupResult u = .ok := hok.resolve_left (by simp [hinit])
    refine .inr ⟨hok', rfl, ?_⟩
    cases ha with
    | again he => simp [hent'] at he
    | noMemory =>
      left
      change (h.beforeAdd c u).mem.heap.refuse = _
      rw [hmem]
    | @fresh e _ _ hf =>
      right
      rw [hmem] at hf
      refine ⟨e, hf, ?_⟩
      change (h.beforeAdd c u).mem.heap.grant _ = _
      rw [hmem]

theorem stopVcpus_nil (h : Host) : h.stopVcpus [] = h := by
  simp [Host.stopVcpus, Host.mapVcpus, unlinkAll, Host.setLinks]

theorem RollsBack.first {cs : List Addr} (hb : RollsBack h (c :: cs) r h') (hu : h.vcpus c = some u)
    (hun : u.Untouched) (hne : h.setupResult u ≠ .ok) : h' = h.afterSetup c u := by
  obtain ⟨heq, hs, hw, hstart, hr⟩ := hb
  rename_i started _ _ _ _ _
  cases started with
  | nil =>
    rw [List.nil_append, List.cons.injEq] at heq
    obtain ⟨rfl, rfl⟩ := heq
    obtain rfl := hs.eq_of_nil
    obtain rfl := Option.some.inj (hu.symm.trans hw)
    rw [stopVcpus_nil]
    rcases hstart.first hun with ⟨-, -, rfl⟩ | ⟨hok, -⟩
    · rfl
    · exact absurd hok hne
  | cons d ds =>
    rw [List.cons_append, List.cons.injEq] at heq
    obtain ⟨rfl, rfl⟩ := heq
    obtain ⟨x, h₁, hx, hfirst, -⟩ := hs.cons_inv
    obtain rfl := Option.some.inj (hu.symm.trans hx)
    rcases hfirst.first hun with ⟨-, hok, -⟩ | ⟨hok, -⟩
    · exact absurd hok.symm hne
    · exact absurd hok hne

theorem untouched_mapVcpus {f : Nexusvcpu → Nexusvcpu} (hf : ∀ u, u.Untouched → (f u).Untouched)
    {cs : List Addr} (ds : List Addr) (hcs : ∀ c ∈ cs, ∀ u, h.vcpus c = some u → u.Untouched) :
    ∀ c ∈ cs, ∀ u, (h.mapVcpus ds f).vcpus c = some u → u.Untouched := by
  intro c hc u hu
  by_cases hd : c ∈ ds
  · rw [Host.mapVcpus_vcpus_of_mem hd, Option.map_eq_some_iff] at hu
    obtain ⟨w, hw, rfl⟩ := hu
    exact hf w (hcs c hc w hw)
  · rw [Host.mapVcpus_vcpus_of_notMem hd] at hu
    exact hcs c hc u hu

theorem LifeEffect.takesNothing {op : LifecycleOp} (he : LifeEffect a v h op r h') (hg : Good h)
    (hv : h.vms a = some v) (hu : Untouched a h) (hq : (GuestOp.lifecycle op).TakesNothing a h) :
    h'.mem.heap = h.mem.heap ∧ ∀ c ∈ v.vcpus, ∀ u, h'.vcpus c = some u → u.Untouched := by
  have hcs := hu v hv
  have hpause : ∀ u : Nexusvcpu, u.Untouched → u.pause.Untouched := fun u hu =>
    ⟨hu.schedEntity, hu.initialized, rfl⟩
  cases he with
  | idle => exact ⟨rfl, hcs⟩
  | @started h₁ hacts hs =>
    cases hvcpus : v.vcpus with
    | nil =>
      rw [hvcpus] at hs
      obtain rfl := hs.eq_of_nil
      exact ⟨rfl, fun c hc => absurd hc List.not_mem_nil⟩
    | cons c cs =>
      rw [hvcpus] at hs
      obtain ⟨u, h₁, hu, hstart, -⟩ := hs.cons_inv
      have hne := hq v hv hacts c (by rw [hvcpus]; rfl) u hu
      rcases hstart.first (hcs c (by simp [hvcpus]) u hu) with ⟨-, hok, -⟩ | ⟨hok, -⟩
      · exact absurd hok.symm hne
      · exact absurd hok hne
  | @rolledBack _ h₁ hacts hb =>
    cases hvcpus : v.vcpus with
    | nil =>
      rw [hvcpus] at hb
      obtain ⟨heq, -⟩ := hb
      simp at heq
    | cons c cs =>
      rw [hvcpus] at hb
      obtain ⟨u, hu⟩ := Option.ne_none_iff_exists'.mp (hg.vcpus_ne hv c (by simp [hvcpus]))
      have hun := hcs c (by simp [hvcpus]) u hu
      obtain rfl := hb.first hu hun (hq v hv hacts c (by rw [hvcpus]; rfl) u hu)
      refine ⟨rfl, fun d hd w hw => ?_⟩
      rw [← hvcpus] at hd
      change Function.update h.vcpus c _ d = _ at hw
      by_cases hdc : d = c
      · subst hdc
        rw [Function.update_self, Option.some.injEq] at hw
        subst hw
        obtain ⟨id, hid⟩ := setupVcpu_eq h u
        rw [hid]
        exact ⟨hun.schedEntity, hun.initialized, hun.running⟩
      · rw [Function.update_of_ne hdc] at hw
        exact hcs d hd w hw
  | stopped => exact ⟨rfl, untouched_mapVcpus hpause _ hcs⟩
  | paused => exact ⟨rfl, untouched_mapVcpus hpause _ hcs⟩
  | resumed =>
    have hresume : ∀ u : Nexusvcpu, u.Untouched → u.resume.Untouched := fun u hu =>
      ⟨hu.schedEntity, hu.initialized, by rw [Nexusvcpu.resume, hu.running, hu.initialized, Bool.or_self]⟩
    exact ⟨rfl, untouched_mapVcpus hresume _ hcs⟩
  | @reset cold h₁ hh₁ =>
    have hcs₁ : ∀ c ∈ v.vcpus, ∀ u, h₁.vcpus c = some u → u.Untouched := by
      rw [hh₁]
      split_ifs
      · exact untouched_mapVcpus hpause _ hcs
      · exact hcs
    have hreset : ∀ u : Nexusvcpu, u.Untouched → u.reset.Untouched := fun u hu =>
      ⟨hu.schedEntity, hu.initialized, hu.running⟩
    exact ⟨h.mem.resetRoot_heap _ _, untouched_mapVcpus (h := h₁) hreset _ hcs₁⟩

/-- **A call that takes nothing.** -/
theorem Holding.takesNothing (hd : Holding g a ks h) (hu : Untouched a h) {op : GuestOp}
    (hq : op.TakesNothing a h) :
    wlp (op.run a) (fun _ h' => Holding g a ks h' ∧ Untouched a h') h := by
  obtain ⟨hi, hs, hlive, v, hv, hvmx, hsvm, hroot, ho⟩ := hd
  cases op with
  | alloc guestPhys size regionType =>
    rw [GuestOp.run, wlp_discard]
    refine wlp_mono (vmAllocMemory_effect hv hroot guestPhys size regionType) fun _ h' he => ?_
    cases he with
    | invalid => exact ⟨⟨hi, hs, hlive, v, hv, hvmx, hsvm, hroot, ho⟩, hu⟩
    | noMemory hne => exact absurd hq hne
    | ok hne => exact absurd hq hne
  | lifecycle op =>
    rw [GuestOp.run, wlp_discard]
    have hinv : wlp (op.run a) (fun _ h' => HvInv h') h := by
      have := hvOp_spec hi (.lifecycle op a)
      rw [HvOp.run, wlp_discard] at this
      exact wlp_mono this fun _ _ hq => hq.1
    refine wlp_mono (wlp_and (lifecycle_effect hi.good hv op) hinv) ?_
    rintro r h' ⟨he, hi'⟩
    obtain ⟨hheap, hun⟩ := he.takesNothing hi.good hv hu hq
    obtain ⟨s, hvms⟩ := he.vms hv
    have hw : h'.vms a = some { v with state := s } := by
      rw [hvms, Function.update_self]
    have hkeys : h'.vcpusKeys v.vcpus = h.vcpusKeys v.vcpus :=
      he.keys.vcpusKeys (congrArg Hypervisor.cpuVendor he.hv) (hi.good.vcpus_ne hv)
    refine ⟨⟨hi', by rw [hheap]; exact hs, by rw [hheap]; exact hlive, _, hw, hvmx, hsvm, hroot, ?_⟩,
      fun w hw' => ?_⟩
    · rw [hheap]
      exact ho.congr (congrArg (· + _) hkeys)
    · rw [hw, Option.some.injEq] at hw'
      subst hw'
      exact hun

theorem LifeEffect.first_start (he : LifeEffect a v h .start r h') (hacts : LifecycleOp.start.Acts v)
    {cs : List Addr} (hvcpus : v.vcpus = c :: cs) (hu : h.vcpus c = some u) (hun : u.Untouched)
    (hok : h.setupResult u = .ok) : ∃ h₁, VcpuStarts c u h .ok h₁ ∧
      ∀ I, RequestsKeep I → I h₁.mem → I h'.mem := by
  cases he with
  | idle hc => exact absurd hacts hc
  | @started h₂ _ hs =>
    rw [hvcpus] at hs
    obtain ⟨w, h₁, hw, hstart, hs⟩ := hs.cons_inv
    obtain rfl := Option.some.inj (hu.symm.trans hw)
    refine ⟨h₁, hstart, fun I hk hI => ?_⟩
    change I h₂.mem
    exact hs.requests hk hI
  | rolledBack _ hb =>
    rw [hvcpus] at hb
    obtain ⟨heq, hs, hw, hstart, hr⟩ := hb
    rename_i started _ _ _ _ h₂
    cases started with
    | nil =>
      rw [List.nil_append, List.cons.injEq] at heq
      obtain ⟨rfl, rfl⟩ := heq
      obtain rfl := hs.eq_of_nil
      obtain rfl := Option.some.inj (hu.symm.trans hw)
      rcases hstart.first hun with ⟨hne, -⟩ | ⟨-, hc, -⟩
      · exact absurd hok hne
      · exact absurd hc hr
    | cons d ds =>
      rw [List.cons_append, List.cons.injEq] at heq
      obtain ⟨rfl, rfl⟩ := heq
      obtain ⟨x, h₁, hx, hfirst, hs⟩ := hs.cons_inv
      obtain rfl := Option.some.inj (hu.symm.trans hx)
      refine ⟨h₁, hfirst, fun I hk hI => ?_⟩
      change I h₂.mem
      exact hstart.requests hk (hs.requests hk hI)

/-- **A call that takes something**: the block is not among those of the VM. -/
theorem Holding.takes (hd : Holding g a ks h) (hu : Untouched a h) {op : GuestOp}
    (hq : ¬ op.TakesNothing a h) (hserved : op.Served a h) :
    wlp (op.run a) (fun _ h' => ∃ b ks', ks + {b} ≤ ks' ∧ Holding g a ks' h') h := by
  obtain ⟨hi, hs, hlive, v, hv, hvmx, hsvm, hroot, ho⟩ := hd
  have hm : OwesMore g (h.vcpusKeys v.vcpus + vmKeys a v) ks h.mem :=
    ⟨hs, hlive, ks, le_refl _, ho.congr (add_assoc _ _ _)⟩
  cases op with
  | alloc guestPhys size regionType =>
    rw [GuestOp.Served, GuestOp.run, wlp_discard] at hserved
    rw [GuestOp.run, wlp_discard]
    refine wlp_mono (wlp_and hserved (vmAllocMemory_effect hv hroot guestPhys size regionType)) ?_
    rintro _ h' ⟨heq, he⟩
    cases he with
    | invalid hzero => exact absurd hzero hq
    | noMemory => exact absurd heq (Nat.succ_ne_self _)
    | @ok b region m hne hkind hkeep hf =>
      have hm' := hkeep _ (owesMore_requests g _ _) (owesMore_writes g _ _) (hm.grant hf)
      have hlive' : KeepsLive h.mem.heap.live m :=
        hkeep _ (keepsLive_requests _) (keepsLive_writes _) fun c hc => List.mem_cons_of_mem _ hc
      exact ⟨_, hm'.holding (hi.addRegion hv hlive') (Host.setVm_self _ _ _) rfl rfl hvmx hsvm hroot⟩
  | lifecycle op =>
    cases op with
    | stop | pause | resume | reset => exact absurd trivial hq
    | start =>
      rw [GuestOp.Served, GuestOp.run, wlp_discard] at hserved
      rw [GuestOp.run, wlp_discard]
      simp only [GuestOp.TakesNothing, not_forall, not_not] at hq
      obtain ⟨w, hw, hacts, c, hc, u, hu', hok⟩ := hq
      obtain rfl := Option.some.inj (hv.symm.trans hw)
      obtain ⟨cs, hvcpus⟩ : ∃ cs, v.vcpus = c :: cs := List.head?_eq_some_iff.mp hc
      have hun := hu v hv c (by simp [hvcpus]) u hu'
      have hinv : wlp (vmStart (some a)) (fun _ h' => HvInv h') h := by
        have := hvOp_spec hi (.lifecycle .start a)
        rw [HvOp.run, wlp_discard] at this
        exact wlp_mono this fun _ _ hq => hq.1
      refine wlp_mono (wlp_and hserved (wlp_and (lifecycle_effect hi.good hv .start) hinv)) ?_
      rintro r h' ⟨heq, he, hi'⟩
      obtain ⟨h₁, hstart, hrest⟩ := he.first_start hacts hvcpus hu' hun hok
      rcases hstart.first hun with ⟨hne, -⟩ | ⟨-, -, hheap | ⟨e, hf, hheap⟩⟩
      · exact absurd hok hne
      · -- the request was refused
        have hle := hrest (fun m => h.mem.heap.refused + 1 ≤ m.heap.refused)
          ⟨fun _ _ _ _ hle => hle, fun _ hle => hle.trans (Nat.le_succ _)⟩ (by rw [hheap]; rfl)
        rw [heq] at hle
        exact absurd hle (Nat.not_succ_le_self _)
      · have hm₁ := owesMore_writes g _ _ { h.mem with heap := h.mem.heap.grant _ } h₁.mem hheap
          (hm.grant hf)
        exact ⟨_, he.holding hi.good hi' hv hvmx hsvm hroot (hrest _ (owesMore_requests g _ _) hm₁)⟩

/-! ## From creation to destruction -/

/-- **A new VM** holds its blocks, and was never started. -/
theorem vmCreate_holding (hi : HvInv h) (hs : h.mem.heap.Sound) {config : VmConfig}
    (hcreate : (vmCreate (some config)).run h = some (.ok a, h₁)) :
    Holding h.mem.heap a 0 h₁ ∧ Untouched a h₁ := by
  have hh := hi.housed hs
  have hi₁ : HvInv h₁ := by
    have hop := hvOp_spec hi (.create config)
    rw [HvOp.run, wlp_discard] at hop
    exact (hop _ h₁ hcreate).1
  obtain ⟨v, h₂, name, hid, -, hroot, -, hb, rfl⟩ := vmCreate_effect hh.initialized hh.online
    hh.fresh_vcpu hh.fresh_vm hh.first config (.ok a) h₁ hcreate
  have hself : (h₂.linkVm a v).vms a = some { v with next := h₂.hv.vms, state := .initialized } :=
    if_pos rfl
  obtain ⟨r, h', hrun, howes⟩ := vmCreate_owes hh (canFinish_of_vmCreate hh.initialized hcreate)
  rw [hcreate, Option.some.injEq, Prod.mk.injEq] at hrun
  obtain ⟨rfl, rfl⟩ := hrun
  obtain ⟨hc, -⟩ | ⟨b, w, hb', hw, ho⟩ := howes
  · cases hc
  cases hb'
  obtain rfl := Option.some.inj (hself.symm.trans hw)
  refine ⟨⟨hi₁, hb.alloc.sound hs, hb.alloc.live, _, hself, hid.nestedVmx, hid.nestedSvm, hroot, ?_⟩, ?_⟩
  · rw [add_zero]
    exact ho
  · intro w hw c hc u hu
    obtain rfl := Option.some.inj (hself.symm.trans hw)
    obtain ⟨u', hu', hnew, -⟩ := hb.new c hc
    obtain rfl := Option.some.inj (hu'.symm.trans hu)
    exact ⟨hnew.schedEntity, hnew.initialized, hnew.running⟩

theorem Holding.mono_run (hd : Holding g a ks h) (ops : List GuestOp) :
    wlp (runOps (GuestOp.run a) ops) (fun _ h' => ∃ ks', ks ≤ ks' ∧ Holding g a ks' h') h := by
  refine wlp_runOps (C := fun _ _ => True) (I := fun h => ∃ ks', ks ≤ ks' ∧ Holding g a ks' h)
    (fun op s _ hI => ?_) (along_of_forall (fun _ _ _ => trivial) h) ⟨ks, le_refl ks, hd⟩
  obtain ⟨ks₁, hle, hd₁⟩ := hI
  refine wlp_mono (hd₁.guestOp op) ?_
  rintro _ s' ⟨ks₂, hle', hd₂⟩
  exact ⟨ks₂, hle.trans hle', hd₂⟩

/-- **A run of calls** takes something unless each of them takes nothing. -/
theorem Holding.run (hd : Holding g a 0 h) (hu : Untouched a h) {ops : List GuestOp}
    (hserved : Along (GuestOp.run a) (GuestOp.Served a) ops h)
    (hrun : (runOps (GuestOp.run a) ops).run h = some ((), h')) :
    ∃ ks, Holding g a ks h' ∧ (ks = 0 ↔ Along (GuestOp.run a) (GuestOp.TakesNothing a) ops h) := by
  induction ops generalizing h with
  | nil =>
    rw [runOps_nil, Option.some.injEq, Prod.mk.injEq] at hrun
    obtain ⟨-, rfl⟩ := hrun
    exact ⟨0, hd, iff_of_true rfl trivial⟩
  | cons op ops ih =>
    obtain ⟨⟨⟩, h₁, hstep, hrest⟩ := (runOps_cons _ _ _ _).mp hrun
    by_cases hq : op.TakesNothing a h
    · obtain ⟨hd₁, hu₁⟩ := hd.takesNothing hu hq _ _ hstep
      obtain ⟨ks, hd', hiff⟩ := ih hd₁ hu₁ (hserved.2 _ _ hstep) hrest
      refine ⟨ks, hd', hiff.trans ⟨fun hC => ⟨hq, fun x s hs => ?_⟩, fun hC => hC.2 _ _ hstep⟩⟩
      rw [hstep, Option.some.injEq, Prod.mk.injEq] at hs
      exact hs.2 ▸ hC
    · obtain ⟨b, ks₁, hle, hd₁⟩ := hd.takes hu hq hserved.1 _ _ hstep
      obtain ⟨ks, hle', hd'⟩ := hd₁.mono_run ops _ _ hrest
      refine ⟨ks, hd', iff_of_false ?_ fun hC => hq hC.1⟩
      rintro rfl
      have hmem := Multiset.mem_of_le (hle.trans hle') (Multiset.mem_add.mpr (.inr (Multiset.mem_singleton_self b)))
      exact absurd hmem (Multiset.notMem_zero b)

/-- **The destruction** leaves live what was live and what the VM took besides. -/
theorem Holding.destroy (hd : Holding g a ks h) (hg : g.Sound) :
    wp (vmDestroy (some a)) (fun r h' => r = .ok ∧ h'.mem.heap.badFrees = g.badFrees ∧
      (ks = 0 ↔ ∀ b, b ∈ h'.mem.heap.live ↔ b ∈ g.live)) h := by
  obtain ⟨hi, hs, hlive, v, hv, hvmx, hsvm, -, ho⟩ := hd
  have hsub : FreesKeep fun m => ∀ b ∈ m.heap.live, b ∈ h.mem.heap.live := fun m kind x hm b hb =>
    hm b ((m.heap.release_sublist kind x).mem hb)
  refine wp_mono (wp_and_wlp (wp_and_wlp (vmDestroy_owes hi hv hvmx hsvm ho)
    (vmDestroy_keep soundMem_frees a h hs)) (vmDestroy_keep hsub a h fun _ => id)) ?_
  rintro r h' ⟨⟨⟨hr, ho'⟩, hs'⟩, hsub'⟩
  exact ⟨hr, ho'.badFrees, ho'.live_iff hg hs' (ho'.live_of_sublive hs hsub' hlive)⟩

/-- **When a destruction returns what its VM took.** A VM is created, given memory, started, stopped,
paused, resumed and reset, in any order and with every request served, and then destroyed. No block is
freed twice; the same blocks are live as before just if no call asked for memory and no start got past the
set-up of the first vCPU: the memory of the guest, the page tables below the root and the scheduling
entities are never freed. -/
theorem destroy_returns_iff (hi : HvInv h) (hs : h.mem.heap.Sound) {config : VmConfig}
    (hcreate : (vmCreate (some config)).run h = some (.ok a, h₁)) {ops : List GuestOp} {h₂ : Host}
    (hserved : Along (GuestOp.run a) (GuestOp.Served a) ops h₁)
    (hrun : (runOps (GuestOp.run a) ops).run h₁ = some ((), h₂)) :
    ∃ h₃, (vmDestroy (some a)).run h₂ = some (.ok, h₃) ∧
      (((∀ b, b ∈ h₃.mem.heap.live ↔ b ∈ h.mem.heap.live) ∧
        h₃.mem.heap.badFrees = h.mem.heap.badFrees) ↔
        Along (GuestOp.run a) (GuestOp.TakesNothing a) ops h₁) := by
  obtain ⟨hd, hu⟩ := vmCreate_holding hi hs hcreate
  obtain ⟨ks, hd₂, hiff⟩ := hd.run hu hserved hrun
  obtain ⟨r, h₃, hdestroy, rfl, hbad, hlive⟩ := hd₂.destroy hs
  refine ⟨h₃, hdestroy, ⟨fun hc => hiff.mp (hlive.mpr hc.1), fun hC => ⟨hlive.mp (hiff.mpr hC), hbad⟩⟩⟩

/-- A VM with one vCPU and room for a region, on which all requests of the calls are served. -/
theorem served_run (ops : List GuestOp) (n : ℕ)
    (hres : ((vmCreate (some { vcpuCount := 1, memoryRegionCount := 1 })).run (bootHost 1 .intel)).any
      (fun p => p.1 = .ok 16384 ∧ Along (GuestOp.run 16384) (GuestOp.Served 16384) ops p.2 ∧
        ((runOps (GuestOp.run 16384) ops).run p.2).any fun q =>
          ((vmDestroy (some 16384)).run q.2).any fun t => t.1 = .ok ∧ t.2.mem.heap.live.length = n) = true) :
    ∃ h₁ h₂ h₃, (vmCreate (some { vcpuCount := 1, memoryRegionCount := 1 })).run (bootHost 1 .intel) =
        some (.ok 16384, h₁) ∧
      Along (GuestOp.run 16384) (GuestOp.Served 16384) ops h₁ ∧
      (runOps (GuestOp.run 16384) ops).run h₁ = some ((), h₂) ∧
      (vmDestroy (some 16384)).run h₂ = some (.ok, h₃) ∧ h₃.mem.heap.live.length = n := by
  obtain ⟨⟨r, h₁⟩, hcreate, hres⟩ := (Option.any_eq_true _ _).mp hres
  obtain ⟨rfl, hserved, hres⟩ := of_decide_eq_true hres
  obtain ⟨⟨⟨⟩, h₂⟩, hrun, hres⟩ := (Option.any_eq_true _ _).mp hres
  obtain ⟨⟨r, h₃⟩, hdestroy, hres⟩ := (Option.any_eq_true _ _).mp hres
  obtain ⟨rfl, hlen⟩ := of_decide_eq_true hres
  exact ⟨h₁, h₂, h₃, hcreate, hserved, hrun, hdestroy, hlen⟩

theorem destroy_returns_iff_reset : ∃ h₁ h₂ h₃,
    (vmCreate (some { vcpuCount := 1, memoryRegionCount := 1 })).run (bootHost 1 .intel) =
      some (.ok 16384, h₁) ∧
    (runOps (GuestOp.run 16384) [.alloc 0 0 .ram, .lifecycle (.reset true), .lifecycle .stop]).run h₁ =
      some ((), h₂) ∧
    (vmDestroy (some 16384)).run h₂ = some (.ok, h₃) ∧
    (((∀ b, b ∈ h₃.mem.heap.live ↔ b ∈ (bootHost 1 .intel).mem.heap.live) ∧
      h₃.mem.heap.badFrees = (bootHost 1 .intel).mem.heap.badFrees) ↔
      Along (GuestOp.run 16384) (GuestOp.TakesNothing 16384)
        [.alloc 0 0 .ram, .lifecycle (.reset true), .lifecycle .stop] h₁) := by
  obtain ⟨h₁, h₂, -, hcreate, hserved, hrun, -⟩ :=
    served_run [.alloc 0 0 .ram, .lifecycle (.reset true), .lifecycle .stop] 0 (by decide +kernel)
  have hb := boot_bootHost (n := 1) (by decide) .intel
  obtain ⟨h₃, hdestroy, hiff⟩ := destroy_returns_iff hb.hvInv hb.sound hcreate hserved hrun
  exact ⟨h₁, h₂, h₃, hcreate, hrun, hdestroy, hiff⟩

/-- **A destruction leaves five blocks live**: the guest's page, the three tables that map it, and the
entity of the vCPU. -/
theorem destroy_leaves_blocks : ∃ h₁ h₂ h₃,
    (vmCreate (some { vcpuCount := 1, memoryRegionCount := 1 })).run (bootHost 1 .intel) =
      some (.ok 16384, h₁) ∧
    Along (GuestOp.run 16384) (GuestOp.Served 16384) [.alloc 0 4096 .ram, .lifecycle .start] h₁ ∧
    (runOps (GuestOp.run 16384) [.alloc 0 4096 .ram, .lifecycle .start]).run h₁ = some ((), h₂) ∧
    (vmDestroy (some 16384)).run h₂ = some (.ok, h₃) ∧ h₃.mem.heap.live.length = 5 ∧
    ¬ ∀ b, b ∈ h₃.mem.heap.live ↔ b ∈ (bootHost 1 .intel).mem.heap.live := by
  obtain ⟨h₁, h₂, h₃, hcreate, hserved, hrun, hdestroy, hlen⟩ :=
    served_run [.alloc 0 4096 .ram, .lifecycle .start] 5 (by decide +kernel)
  refine ⟨h₁, h₂, h₃, hcreate, hserved, hrun, hdestroy, hlen, fun hsame => ?_⟩
  have hnil : h₃.mem.heap.live = [] := List.eq_nil_iff_forall_not_mem.mpr fun b hb =>
    absurd ((hsame b).mp hb) List.not_mem_nil
  rw [hnil] at hlen
  cases hlen

end NexusVM
