import NexusVM.Mapping

/-!
# Isolation of guest memory

* `Host.translate`, `Isolated`: the translation of the addresses of a VM, and that VMs reach their own
  blocks only;
* `OwnMemory`, `Separated`: the invariant over all trees, blocks and tables;
* `vmAllocMemory_spec`, **`memoryOp_spec`**: a call that gets the memory it asks for keeps it;
* **`memory_isolated`**: so does every run in which no size wraps.
-/

namespace NexusVM

open Prog

variable {h h' : Host} {a : Addr} {v w : Nexusvm} {m m' : PhysMem} {lbl lbl' : Labels}

/-! ## What isolation is -/

/-- The host address that a guest address of the VM at `a` is translated to. -/
def Host.translate (h : Host) (a : Addr) (gpa : UInt64) : Option UInt64 :=
  (((vmGpaToHpa (some a) gpa).run h).map Prod.fst).filter fun hpa => hpa ≠ INVALID_PHYS_ADDR

/-- Every address of a VM is translated into a live block allocated for it or not at all, and no
host page is reached from two VMs. -/
structure Isolated (h : Host) : Prop where
  returns : ∀ a v gpa, h.vms a = some v → ∃ hpa, (vmGpaToHpa (some a) gpa).run h = some (hpa, h)
  inside : ∀ a v gpa hpa, h.vms a = some v → h.translate a gpa = some hpa →
    ∃ b ∈ v.blocks, b ∈ h.mem.heap.live ∧ b.base ≤ hpa.toNat ∧ hpa.toNat < b.base + b.size
  apart : ∀ a b gpa gpa' hpa hpa', a ≠ b → h.translate a gpa = some hpa →
    h.translate b gpa' = some hpa' → hpa.toNat / 4096 ≠ hpa'.toNat / 4096

/-! ## The invariant -/

/-- The tree of a VM leads into its own blocks only, and these are no tables. -/
structure OwnMemory (m : PhysMem) (lbl : Labels) (v : Nexusvm) : Prop where
  root : ∃ r, v.eptRoot = some r ∧ lbl r = some (r, []) ∧ m.Confined r v.blocks
  room : v.memoryRegions.length < 2 ^ 32
  live : ∀ b ∈ v.blocks, b ∈ m.heap.live ∧ lbl b.base = none

/-- All tables, of 512 entries each, form trees, each VM has its own memory, and no block is allocated
for two VMs. -/
structure Separated (lbl : Labels) (h : Host) : Prop where
  trees : EptTrees h.mem lbl
  slots : h.mem.abi.slots = 512
  own : ∀ a v, h.vms a = some v → OwnMemory h.mem lbl v
  apart : ∀ a b v w, a ≠ b → h.vms a = some v → h.vms b = some w → ∀ x ∈ v.blocks, x ∉ w.blocks

/-- The record of a VM has changed, but not its memory. -/
structure SameMemory (v w : Nexusvm) : Prop where
  eptRoot : w.eptRoot = v.eptRoot
  memoryRegions : w.memoryRegions = v.memoryRegions
  memoryRegionCount : w.memoryRegionCount = v.memoryRegionCount

theorem SameMemory.refl (v : Nexusvm) : SameMemory v v := ⟨rfl, rfl, rfl⟩

theorem SameMemory.blocks (s : SameMemory v w) : w.blocks = v.blocks := by
  rw [Nexusvm.blocks, Nexusvm.blocks, s.memoryRegions, s.memoryRegionCount]

theorem OwnMemory.mono (ho : OwnMemory m lbl v) (hs : SameMemory v w) (habi : m'.abi = m.abi)
    (hroot : ∀ r, v.eptRoot = some r → lbl r = some (r, []) → lbl' r = some (r, []) ∧
      ∀ is j e, is.length = 3 → m'.look r is j = some e → m.look r is j = some e)
    (hlive : ∀ b ∈ v.blocks, b ∈ m.heap.live → lbl b.base = none →
      b ∈ m'.heap.live ∧ lbl' b.base = none) : OwnMemory m' lbl' w := by
  obtain ⟨r, hr, hl, hc⟩ := ho.root
  obtain ⟨hl', hlook⟩ := hroot r hr hl
  refine ⟨⟨r, hs.eptRoot.trans hr, hl', ?_⟩, ?_, fun b hb => ?_⟩
  · rw [hs.blocks]
    exact hc.mono habi (fun is j e hd he => .inl (hlook is j e hd he)) fun _ hb => hb
  · rw [hs.memoryRegions]
    exact ho.room
  · rw [hs.blocks] at hb
    obtain ⟨hbl, hbn⟩ := ho.live b hb
    exact hlive b hb hbl hbn

theorem Separated.apart_of_old (hs : Separated lbl h)
    (hold : ∀ b w, h'.vms b = some w → w.blocks = [] ∨
      ∃ v, h.vms b = some v ∧ w.blocks = v.blocks) :
    ∀ a b v w, a ≠ b → h'.vms a = some v → h'.vms b = some w → ∀ x ∈ v.blocks, x ∉ w.blocks := by
  intro a b v w hne hv hw x hx hxw
  rcases hold a v hv with hv' | ⟨v', hv', hvb⟩
  · rw [hv'] at hx
    exact List.not_mem_nil hx
  rcases hold b w hw with hw' | ⟨w', hw', hwb⟩
  · rw [hw'] at hxw
    exact List.not_mem_nil hxw
  rw [hvb] at hx
  rw [hwb] at hxw
  exact hs.apart a b v' w' hne hv' hw' x hx hxw

/-! ## Translations -/

/-- A translation returns, and gives the page that the tree holds. -/
theorem vmGpaToHpa_spec (ht : EptTrees h.mem lbl) (hslots : h.mem.abi.slots = 512)
    (hv : h.vms a = some v) {r : ℕ} (hroot : v.eptRoot = some r) (hr : lbl r = some (r, []))
    (gpa : UInt64) :
    (vmGpaToHpa (some a) gpa).run h =
      some (match h.mem.look r (eptPath gpa) (eptPtIndex gpa) with
        | some e => h.mem.abi.address e ||| (gpa &&& (PAGE_SIZE - 1))
        | none => INVALID_PHYS_ADDR, h) := by
  suffices hwp : wp (vmGpaToHpa (some a) gpa) (fun r' h' => h' = h ∧
      r' = match h.mem.look r (eptPath gpa) (eptPtIndex gpa) with
        | some e => h.mem.abi.address e ||| (gpa &&& (PAGE_SIZE - 1))
        | none => INVALID_PHYS_ADDR) h by
    obtain ⟨r', h', hrun, rfl, rfl⟩ := hwp
    exact hrun
  rw [vmGpaToHpa, wp_bind, wp_getVm]
  refine ⟨v, hv, ?_⟩
  rw [hroot]
  simp only [Option.isNone_some, Bool.false_eq_true, if_false]
  rw [wp_bind, wp_onMem]
  refine wp_of_run (eptLookup_run ht hr (EptAbi.reaches_of_slots hslots gpa)) ?_
  cases hlook : h.mem.look r (eptPath gpa) (eptPtIndex gpa) with
  | none =>
    rw [lookupResult, wp_pure]
    exact ⟨rfl, rfl⟩
  | some e =>
    have hp : e.present = true := Radix.present_of_look hlook
    simp only [lookupResult, hp, Bool.not_true, Bool.false_eq_true, if_false]
    rw [wp_bind, wp_onMem, wp_entryAddress, wp_pure]
    exact ⟨rfl, rfl⟩

theorem Separated.translate (hs : Separated lbl h) (hv : h.vms a = some v) {gpa hpa : UInt64}
    (ht : h.translate a gpa = some hpa) :
    ∃ b ∈ v.blocks, b.base ≤ hpa.toNat / 4096 * 4096 ∧
      hpa.toNat / 4096 * 4096 + 4096 ≤ b.base + b.size := by
  obtain ⟨r, hroot, hr, hc⟩ := (hs.own a v hv).root
  rw [Host.translate, vmGpaToHpa_spec hs.trees hs.slots hv hroot hr gpa, Option.map_some,
    Option.filter_eq_some_iff] at ht
  obtain ⟨heq, hvalid⟩ := ht
  cases hlook : h.mem.look r (eptPath gpa) (eptPtIndex gpa) with
  | none =>
    rw [hlook] at heq
    cases heq
    simp at hvalid
  | some e =>
    rw [hlook] at heq
    cases heq
    obtain ⟨b, hb, hcov⟩ := hc _ _ e (eptPath_length gpa) hlook
    have hpage := h.mem.abi.address_dvd e
    refine ⟨b, hb, ?_⟩
    rw [page_or_offset]
    unfold Covers at hcov
    omega

/-- **The invariant isolates the VMs.** -/
theorem Separated.isolated (hs : Separated lbl h) : Isolated h := by
  have hvm : ∀ a gpa hpa, h.translate a gpa = some hpa → ∃ v, h.vms a = some v := by
    intro a gpa hpa ht
    rw [Host.translate, Option.filter_eq_some_iff, Option.map_eq_some_iff] at ht
    obtain ⟨⟨⟨r, h'⟩, hrun, -⟩, -⟩ := ht
    have hwlp : wlp (vmGpaToHpa (some a) gpa) (fun _ _ => ∃ v, h.vms a = some v) h := by
      rw [vmGpaToHpa, wlp_bind, wlp_getVm]
      exact fun v hv _ _ _ => ⟨v, hv⟩
    exact hwlp r h' hrun
  refine ⟨fun a v gpa hv => ?_, fun a v gpa hpa hv ht => ?_,
    fun a b gpa gpa' hpa hpa' hne ht ht' => ?_⟩
  · obtain ⟨r, hroot, hr, -⟩ := (hs.own a v hv).root
    exact ⟨_, vmGpaToHpa_spec hs.trees hs.slots hv hroot hr gpa⟩
  · obtain ⟨b, hb, hlo, hhi⟩ := hs.translate hv ht
    exact ⟨b, hb, ((hs.own a v hv).live b hb).1, by omega, by omega⟩
  · obtain ⟨v, hv⟩ := hvm a gpa hpa ht
    obtain ⟨w, hw⟩ := hvm b gpa' hpa' ht'
    obtain ⟨x, hx, hlo, hhi⟩ := hs.translate hv ht
    obtain ⟨y, hy, hlo', hhi'⟩ := hs.translate hw ht'
    have hxy : x ≠ y := by
      rintro rfl
      exact hs.apart a b v w hne hv hw x hx hy
    have hapart := (hs.trees.sound.apart ((hs.own a v hv).live x hx).1
      ((hs.own b w hw).live y hy).1 hxy).2
    intro hpage
    omega

/-! ## Calls -/

/-- A call that gives memory to VMs or takes it away. -/
inductive MemoryOp
  | create (config : VmConfig)
  | alloc (vm : Addr) (guestPhys size : UInt64) (regionType : MemoryRegionType)
  | reset (vm : Addr) (cold : Bool)
  | destroy (vm : Addr)

def MemoryOp.run : MemoryOp → HostM Unit
  | .create config => discard (vmCreate (some config))
  | .alloc vm guestPhys size regionType =>
    discard (vmAllocMemory (some vm) guestPhys size regionType)
  | .reset vm cold => discard (vmReset (some vm) cold)
  | .destroy vm => discard (vmDestroy (some vm))

/-- The size of an allocation does not wrap. -/
def MemoryOp.Whole : MemoryOp → Prop
  | .alloc _ _ size _ => size ≠ WRAPPING_SIZE
  | _ => True

instance (op : MemoryOp) : Decidable op.Whole := by
  cases op <;> unfold MemoryOp.Whole <;> infer_instance

/-- No request of the call is refused. -/
def MemoryOp.Served (op : MemoryOp) (h : Host) : Prop :=
  wlp op.run (fun _ h' => h'.mem.heap.refused = h.mem.heap.refused) h

instance (op : MemoryOp) (h : Host) : Decidable (op.Served h) := by
  unfold MemoryOp.Served; infer_instance

/-- What every run keeps. -/
structure MemoryInv (h : Host) : Prop where
  hv : HvInv h
  separated : ∃ lbl, Separated lbl h

/-! ### `vm_alloc_memory` -/

/-- The record of a VM with one more region. -/
def Nexusvm.addRegion (v : Nexusvm) (r : MemoryRegion) : Nexusvm :=
  { v with
    memoryRegions := v.memoryRegions.set v.memoryRegionCount.toNat r
    memoryRegionCount := v.memoryRegionCount + 1 }

theorem Nexusvm.regions_addRegion {r : MemoryRegion}
    (hroom : v.memoryRegionCount.toNat < v.memoryRegions.length)
    (hlen : v.memoryRegions.length < 2 ^ 32) : (v.addRegion r).regions = v.regions ++ [r] := by
  have hcount : (v.memoryRegionCount + 1).toNat = v.memoryRegionCount.toNat + 1 := by
    rw [UInt32.toNat_add, show (1 : UInt32).toNat = 1 from rfl]
    omega
  rw [Nexusvm.regions, Nexusvm.addRegion, hcount, List.take_succ_eq_append_getElem (by simpa using hroom),
    List.take_set_of_le (le_refl _), List.getElem_set_self]
  rfl

theorem Nexusvm.blocks_addRegion {r : MemoryRegion}
    (hroom : v.memoryRegionCount.toNat < v.memoryRegions.length)
    (hlen : v.memoryRegions.length < 2 ^ 32) : (v.addRegion r).blocks = v.blocks ++ [r.block] := by
  change (v.addRegion r).regions.map MemoryRegion.block = v.regions.map MemoryRegion.block ++ [r.block]
  rw [Nexusvm.regions_addRegion hroom hlen, List.map_append]
  rfl

/-- What `vm_alloc_memory` does where it gets the memory: a new block `r.block` is recorded, and
mapped into the tree of the VM. -/
structure AllocatesFor (a : Addr) (v : Nexusvm) (r : MemoryRegion) (h h' : Host)
    (lbl lbl' : Labels) : Prop where
  fits : h.mem.heap.Fits 4096 r.block
  room : v.memoryRegionCount.toNat < v.memoryRegions.length
  maps : ∀ root, v.eptRoot = some root →
    MapsInto root r.block (h.mem.newPages r.block.base r.block.size) h'.mem lbl lbl'
  shape : h' = (h.setMem h'.mem).setVm a (some (v.addRegion r))

/-- The region of a new block at `b` has been recorded, and the memory is as `X` says. -/
structure Records (a : Addr) (v : Nexusvm) (guestPhys size : UInt64) (X : ℕ → PhysMem → Prop)
    (r : MemoryRegion) (b : ℕ) (h h' : Host) : Prop where
  guest : r.guestPhys = guestPhys
  host : r.hostPhys.toNat = b
  bytes : r.size = size
  fits : h.mem.heap.Fits 4096 ⟨.pages, b, (allocSize size).toNat⟩
  room : v.memoryRegionCount.toNat < v.memoryRegions.length
  maps : X b h'.mem
  shape : h' = (h.setMem h'.mem).setVm a (some (v.addRegion r))

theorem Records.block {guestPhys size : UInt64} {X : ℕ → PhysMem → Prop} {r : MemoryRegion} {b : ℕ}
    (hr : Records a v guestPhys size X r b h h') : r.block = ⟨.pages, b, (allocSize size).toNat⟩ := by
  rw [MemoryRegion.block, hr.host, hr.bytes]

/-- **`vm_alloc_memory`** does what its loop does, on a new block. -/
theorem vmAllocMemory_records (hlimit : h.mem.heap.limit < 2 ^ 64) (hv : h.vms a = some v) {root : ℕ}
    (hroot : v.eptRoot = some root) {guestPhys size : UInt64} {X : ℕ → PhysMem → Prop}
    (hmap : ∀ b, h.mem.heap.Fits 4096 ⟨.pages, b, (allocSize size).toNat⟩ →
      (UInt64.ofNat b).toNat = b →
      wlp (mapPages (some root) guestPhys (UInt64.ofNat b) true false (pageCount size).toNat 0)
        (fun r m' => m'.heap.refused = h.mem.heap.refused → r = .ok ∧ X b m')
        (h.mem.newPages b (allocSize size).toNat)) (regionType : MemoryRegionType) :
    wlp (vmAllocMemory (some a) guestPhys size regionType) (fun _ h' =>
      h'.mem.heap.refused = h.mem.heap.refused →
        h' = h ∨ ∃ r b, Records a v guestPhys size X r b h h') h := by
  rw [vmAllocMemory]
  refine wlp_ite (fun _ => (wlp_pure _).mpr fun _ => .inl rfl) fun _ => ?_
  rw [wlp_bind, wlp_onMem]
  refine wlp_mono (eptAllocPages_spec (size / PAGE_SIZE + 1) h.mem).wlp fun o m ho => ?_
  cases o with
  | none =>
    obtain ⟨-, rfl⟩ := ho
    rw [wlp_pure]
    exact fun heq => absurd heq (Nat.succ_ne_self _)
  | some b =>
    obtain ⟨-, hf, rfl⟩ := ho
    have hend : b + (allocSize size).toNat ≤ h.mem.heap.limit := hf.2.2.1
    have hlt : b < 2 ^ 64 :=
      ((Nat.le_add_right b _).trans hend).trans_lt hlimit
    have hbase : (UInt64.ofNat b).toNat = b := UInt64.toNat_ofNat_of_lt' hlt
    simp only [wlp_bind, wlp_getVm, wlp_require, wlp_putVm]
    intro w hw hroom
    rw [Host.setMem_vms, hv] at hw
    cases hw
    -- the region that is recorded
    generalize hreg : { v.memoryRegions[v.memoryRegionCount.toNat]?.getD {} with
      guestPhys := guestPhys
      hostPhys := UInt64.ofNat b
      size := size
      type := regionType
      flags := MEM_REGION_READABLE ||| MEM_REGION_WRITABLE } = r
    change wlp _ _ ((h.setMem _).setVm a (some (v.addRegion r)))
    simp only [vmEptMap, wlp_bind, wlp_getVm, Host.setVm_vms, Function.update_self]
    rintro _ ⟨⟩
    have hroot' : (v.addRegion r).eptRoot = some root := hroot
    simp only [hroot', Option.isNone_some, Bool.false_eq_true, if_false, wlp_onMem]
    refine wlp_mono (hmap b hf hbase) ?_
    intro result m' hm'
    refine wlp_ite (fun hne => ?_) fun _ => ?_
    · simp only [eptFreePages, freeBlock, wlp_bind, wlp_onMem, wlp_modify, wlp_pure]
      intro heq
      exact absurd (hm' ((Heap.release_refused _ _ _).symm.trans heq)).1 hne
    · rw [wlp_pure]
      intro heq
      have hhost : r.hostPhys.toNat = b := by rw [← hreg, hbase]
      exact .inr ⟨r, b, by rw [← hreg], hhost, by rw [← hreg], hf, hroom, (hm' heq).2, rfl⟩

/-- **`vm_alloc_memory`.** -/
theorem vmAllocMemory_spec (hs : Separated lbl h) (hv : h.vms a = some v) {size : UInt64}
    (hsize : size ≠ WRAPPING_SIZE) (guestPhys : UInt64) (regionType : MemoryRegionType) :
    wlp (vmAllocMemory (some a) guestPhys size regionType) (fun _ h' =>
      h'.mem.heap.refused = h.mem.heap.refused →
        h' = h ∨ ∃ r lbl', AllocatesFor a v r h h' lbl lbl') h := by
  obtain ⟨root, hroot, hr, -⟩ := (hs.own a v hv).root
  have hlimit := hs.trees.limit
  refine wlp_mono (vmAllocMemory_records (hlimit.trans_lt (EptAbi.span_lt _)) hv hroot (X := fun b m' => ∃ lbl',
    MapsInto root ⟨.pages, b, (allocSize size).toNat⟩ (h.mem.newPages b (allocSize size).toNat) m'
      lbl lbl') (fun b hf hbase => ?_) regionType) ?_
  · refine mapPages_spec true false hbase hf.2.1 ?_ (hs.trees.newPages hf) hs.slots
      (hf.2.2.1.trans hlimit) hr
    rw [show (0 : UInt64).toNat = 0 from rfl, Nat.zero_add]
    exact pageCount_le hsize
  · intro result h' hres heq
    rcases hres heq with rfl | ⟨r, b, hrec⟩
    · exact .inl rfl
    obtain ⟨lbl', hmaps⟩ := hrec.maps
    refine .inr ⟨r, lbl', ?_, hrec.room, fun root' hroot' => ?_, hrec.shape⟩
    · rw [hrec.block]
      exact hrec.fits
    · rw [hroot] at hroot'
      cases hroot'
      rw [hrec.block]
      exact hmaps

theorem vmAllocMemory_none (hv : h.vms a = none) (guestPhys size : UInt64)
    (regionType : MemoryRegionType) : wlp (vmAllocMemory (some a) guestPhys size regionType)
      (fun _ h' => h' = h ∨ h.mem.heap.refused < h'.mem.heap.refused) h := by
  rw [vmAllocMemory]
  refine wlp_ite (fun _ => (wlp_pure _).mpr (.inl rfl)) fun _ => ?_
  rw [wlp_bind, wlp_onMem]
  refine wlp_mono (eptAllocPages_spec (size / PAGE_SIZE + 1) h.mem).wlp fun o m ho => ?_
  cases o with
  | none =>
    obtain ⟨-, rfl⟩ := ho
    rw [wlp_pure]
    exact .inr (Nat.lt_succ_self _)
  | some b =>
    simp only [wlp_bind, wlp_getVm]
    intro v hv'
    rw [Host.setMem_vms, hv] at hv'
    cases hv'

theorem HvInv.setMem (hi : HvInv h) {m : PhysMem} (hlive : ∀ b ∈ h.mem.heap.live, b ∈ m.heap.live) :
    HvInv (h.setMem m) := by
  obtain ⟨xs, hr⟩ := hi.listed
  refine ⟨⟨hi.good.layout.same ⟨rfl, rfl, rfl, rfl, rfl⟩ rfl rfl rfl rfl hlive, fun b w hw => ?_⟩,
    ⟨xs, hr.congr rfl rfl fun _ => rfl⟩, hi.scheduler, hi.idle, hi.entities⟩
  have hc := hi.good.coherent b w hw
  exact ⟨hc.running, hc.stopped, hc.paused⟩

theorem HvInv.addRegion (hi : HvInv h) (hv : h.vms a = some v) {m : PhysMem} {r : MemoryRegion}
    (hlive : ∀ b ∈ h.mem.heap.live, b ∈ m.heap.live) :
    HvInv ((h.setMem m).setVm a (some (v.addRegion r))) := by
  have him := hi.setMem hlive
  obtain ⟨xs, hr⟩ := him.listed
  refine ⟨⟨him.good.layout.setVm hv rfl rfl rfl, fun b w hw => ?_⟩,
    ⟨xs, hr.congr rfl rfl fun b => ?_⟩, hi.scheduler, hi.idle, hi.entities⟩
  · rw [Host.setVm_vms] at hw
    by_cases hba : b = a
    · subst hba
      rw [Function.update_self] at hw
      cases hw
      have hc := hi.good.coherent b v hv
      exact ⟨hc.running, hc.stopped, hc.paused⟩
    · rw [Function.update_of_ne hba] at hw
      have hc := hi.good.coherent b w hw
      exact ⟨hc.running, hc.stopped, hc.paused⟩
  · rw [Host.setVm_vms]
    by_cases hba : b = a
    · subst hba
      rw [Function.update_self, Host.setMem_vms, hv]
      rfl
    · rw [Function.update_of_ne hba]

section AllocatesFor

variable {r : MemoryRegion} {root : ℕ}

theorem AllocatesFor.vms (hal : AllocatesFor a v r h h' lbl lbl') :
    h'.vms = Function.update h.vms a (some (v.addRegion r)) :=
  congrArg Host.vms hal.shape

theorem AllocatesFor.live (hal : AllocatesFor a v r h h' lbl lbl') (hroot : v.eptRoot = some root) :
    ∀ b ∈ h.mem.heap.live, b ∈ h'.mem.heap.live := fun b hb =>
  (hal.maps root hroot).grows.live b (List.mem_cons_of_mem _ hb)

theorem AllocatesFor.notTable (hal : AllocatesFor a v r h h' lbl lbl')
    (hroot : v.eptRoot = some root) {b : Block BlockKind}
    (hb : b ∈ (h.mem.newPages r.block.base r.block.size).heap.live) (hn : lbl b.base = none) :
    lbl' b.base = none := by
  by_contra hne
  exact (hal.maps root hroot).grows.fresh b.base hn hne b hb rfl

theorem AllocatesFor.hvInv (hi : HvInv h) (hv : h.vms a = some v)
    (hal : AllocatesFor a v r h h' lbl lbl') (hroot : v.eptRoot = some root) : HvInv h' := by
  rw [hal.shape]
  exact hi.addRegion hv (hal.live hroot)

/-- **An allocation keeps the VMs separated.** -/
theorem AllocatesFor.separated (hi : HvInv h) (hs : Separated lbl h) (hv : h.vms a = some v)
    (hal : AllocatesFor a v r h h' lbl lbl') : Separated lbl' h' := by
  obtain ⟨root, hroot, hlroot, hconf⟩ := (hs.own a v hv).root
  have hmaps := hal.maps root hroot
  have hroom := hal.room
  have hlen := (hs.own a v hv).room
  have hfresh : lbl r.block.base = none := by
    by_contra hne
    exact (hal.fits.2.2.2 _ (hs.trees.live _ hne)).1 rfl
  have hnew : r.block ∉ h.mem.heap.live := fun hc => (hal.fits.2.2.2 _ hc).1 rfl
  have hlook : ∀ s is j, lbl s = some (s, []) → is.length = 3 →
      (h.mem.newPages r.block.base r.block.size).look s is j = h.mem.look s is j :=
    fun s is j hl hd => hs.trees.look_newPages hal.fits j hl hd
  have hself : (h'.vms a) = some (v.addRegion r) := by
    rw [hal.vms, Function.update_self]
  have hother : ∀ b, b ≠ a → h'.vms b = h.vms b := fun b hne => by
    rw [hal.vms, Function.update_of_ne hne]
  have hkeep : ∀ b ∈ h.mem.heap.live, lbl b.base = none →
      b ∈ h'.mem.heap.live ∧ lbl' b.base = none := fun b hb hn =>
    ⟨hal.live hroot b hb, hal.notTable hroot (List.mem_cons_of_mem _ hb) hn⟩
  have hblocks : (v.addRegion r).blocks = v.blocks ++ [r.block] :=
    Nexusvm.blocks_addRegion hroom hlen
  have habi : h'.mem.abi = h.mem.abi := hmaps.grows.abi
  refine ⟨hmaps.trees, habi ▸ hs.slots, fun b w hw => ?_, fun b c x y hne hx hy z hz hz' => ?_⟩
  · by_cases hba : b = a
    · subst hba
      rw [hself] at hw
      cases hw
      refine ⟨⟨root, hroot, hmaps.grows.keep root _ hlroot, ?_⟩, ?_, fun c hc => ?_⟩
      · rw [hblocks]
        refine hconf.mono habi (fun is j e hd he => ?_) fun _ => List.mem_append_left _
        rcases hmaps.own is j e hd he with he' | hcov
        · rw [hlook root is j hlroot hd] at he'
          exact .inl he'
        · exact .inr ⟨r.block, List.mem_append_right _ List.mem_cons_self, hcov⟩
      · exact (List.length_set ..).trans_lt hlen
      · rw [hblocks, List.mem_append, List.mem_singleton] at hc
        rcases hc with hc | rfl
        · obtain ⟨hcl, hcn⟩ := (hs.own b v hv).live c hc
          exact hkeep c hcl hcn
        · exact ⟨hmaps.grows.live _ List.mem_cons_self, hal.notTable hroot List.mem_cons_self hfresh⟩
    · rw [hother b hba] at hw
      refine (hs.own b w hw).mono (SameMemory.refl w) habi (fun s hs' hl => ?_) fun c _ => hkeep c
      -- another VM has another root
      have hne : s ≠ root := by
        rintro rfl
        exact hba (hi.good.layout.rootInj b a w v s trivial trivial hw hv hs' hroot)
      refine ⟨hmaps.grows.keep s _ hl, fun is j e hd he => ?_⟩
      rw [hmaps.other s is j hl hne hd, hlook s is j hl hd] at he
      exact he
  · -- the new block is in no other table
    have hold : ∀ d u, h'.vms d = some u → ∀ z ∈ u.blocks,
        d = a ∧ z = r.block ∨ ∃ u', h.vms d = some u' ∧ z ∈ u'.blocks := by
      intro d u hu z hz
      by_cases hda : d = a
      · subst hda
        rw [hself] at hu
        cases hu
        rw [hblocks, List.mem_append, List.mem_singleton] at hz
        rcases hz with hz | hz
        · exact .inr ⟨v, hv, hz⟩
        · exact .inl ⟨rfl, hz⟩
      · rw [hother d hda] at hu
        exact .inr ⟨u, hu, hz⟩
    rcases hold b x hx z hz with ⟨hba, hzr⟩ | ⟨x', hx', hzx⟩ <;>
      rcases hold c y hy z hz' with ⟨hca, hzr'⟩ | ⟨y', hy', hzy⟩
    · exact hne (hba.trans hca.symm)
    · exact hnew (hzr ▸ ((hs.own c y' hy').live z hzy).1)
    · exact hnew (hzr' ▸ ((hs.own b x' hx').live z hzx).1)
    · exact hs.apart b c x' y' hne hx' hy' z hzx hzy

end AllocatesFor

/-! ### The other calls -/

theorem sameMemory_relinked {x : Nexusvm} (hw : w = { x with next := w.next, prev := w.prev }) :
    SameMemory x w := by
  rw [hw]
  exact ⟨rfl, rfl, rfl⟩

theorem Separated.sameMemory (hs : Separated lbl h) (ha : Allocates h.mem h'.mem)
    (hold : ∀ b w, h'.vms b = some w → ∃ x, h.vms b = some x ∧ SameMemory x w) : Separated lbl h' := by
  refine ⟨hs.trees.allocates ha, ha.abi ▸ hs.slots, fun b w hw => ?_, hs.apart_of_old fun b w hw => ?_⟩
  · obtain ⟨x, hx, hsame⟩ := hold b w hw
    refine (hs.own b x hx).mono hsame ha.abi (fun r _ hl => ⟨hl, fun is j e hd he => ?_⟩)
      fun c _ hc hn => ⟨ha.live c hc, hn⟩
    rw [hs.trees.look_allocates ha j hl hd] at he
    exact he
  · obtain ⟨x, hx, hsame⟩ := hold b w hw
    exact .inr ⟨x, hx, hsame.blocks⟩

theorem Separated.allocates (hs : Separated lbl h) (ha : Allocates h.mem h'.mem)
    (hvms : h'.vms = h.vms) : Separated lbl h' :=
  hs.sameMemory ha fun _ w hw => ⟨w, hvms ▸ hw, SameMemory.refl w⟩

/-- **A new VM has an empty tree and no blocks.** -/
theorem Separated.create (hs : Separated lbl h) {vm : Addr} {h₁ : Host} {root : ℕ}
    (hb : Builds vm h v v.vcpus h₁) (hcount : v.memoryRegionCount = 0)
    (hlen : v.memoryRegions.length < 2 ^ 32) (hroot : v.eptRoot = some root) :
    Separated (Function.update lbl root (some (root, []))) (h₁.linkVm vm v) := by
  have hpages : Fresh h.mem root := hb.blocks (.pages, v.eptRoot) (by simp [vmBlocks]) root hroot
  have hfresh : lbl root = none := by
    by_contra hne
    exact hpages _ (hs.trees.live root hne) rfl
  obtain ⟨hd, hlive, hz⟩ := hb.root root hroot
  have hempty : ∀ s t, { v with next := s, state := t }.blocks = [] := fun s t => by
    rw [Nexusvm.blocks, hcount]
    rfl
  -- a VM after the call is the new one, or has the memory it had
  have hold : ∀ b w, (h₁.linkVm vm v).vms b = some w →
      b = vm ∧ w = { v with next := h₁.hv.vms, state := .initialized } ∨
        ∃ x, h.vms b = some x ∧ SameMemory x w := by
    intro b w hw
    by_cases hne : b = vm
    · subst hne
      rw [show (h₁.linkVm b v).vms b = some { v with next := h₁.hv.vms, state := .initialized }
        from if_pos rfl] at hw
      exact .inl ⟨rfl, (Option.some.inj hw).symm⟩
    · obtain ⟨x, hx, hwx⟩ := hb.old hne hw
      exact .inr ⟨x, hx, sameMemory_relinked hwx⟩
  refine ⟨(hs.trees.allocates hb.alloc).addRoot hfresh hd hlive hz,
    (congrArg EptAbi.slots hb.alloc.abi).trans hs.slots, fun b w hw => ?_,
    hs.apart_of_old fun b w hw => ?_⟩
  · rcases hold b w hw with ⟨rfl, rfl⟩ | ⟨x, hx, hsame⟩
    · refine ⟨⟨root, hroot, Function.update_self _ _ _, fun is j e _ he => ?_⟩, hlen,
        fun c hc => ?_⟩
      · rw [show (h₁.linkVm b v).mem = h₁.mem from rfl, PhysMem.look, Radix.look_empty hz is j] at he
        cases he
      · rw [hempty] at hc
        exact absurd hc List.not_mem_nil
    · refine (hs.own b x hx).mono hsame hb.alloc.abi (fun r _ hl => ⟨?_, fun is j e hd' he => ?_⟩)
        fun c _ hc hn => ⟨hb.alloc.live c hc, ?_⟩
      · rw [Function.update_of_ne, hl]
        rintro rfl
        rw [hfresh] at hl
        cases hl
      · rw [show (h₁.linkVm vm v).mem = h₁.mem from rfl,
          hs.trees.look_allocates hb.alloc j hl hd'] at he
        exact he
      · rw [Function.update_of_ne (hpages c hc), hn]
  · rcases hold b w hw with ⟨rfl, rfl⟩ | ⟨x, hx, hsame⟩
    · exact .inl (hempty _ _)
    · exact .inr ⟨x, hx, hsame.blocks⟩

theorem StopsRunning.mem {h₁ : Host} (hs : StopsRunning v h h₁) : h₁.mem = h.mem := by
  rcases hs with ⟨-, rfl⟩ | ⟨-, hs⟩
  · rfl
  · exact hs.mem

/-- **A reset empties the tree at most.** -/
theorem Separated.reset (hs : Separated lbl h) (hv : h.vms a = some v) {cold : Bool}
    (hr : LifeStep a v h (.reset cold) h') : Separated lbl h' := by
  obtain ⟨r, hroot, hlr, -⟩ := (hs.own a v hv).root
  have hlr' : lbl r ≠ none := by
    rw [hlr]
    exact Option.some_ne_none _
  obtain ⟨s, h₁, m, ht, -, hh'⟩ := hr.vmStep hv
  obtain ⟨h₂, hstop, hmem⟩ : ∃ h₂, StopsRunning v h h₂ ∧
      h'.mem = h₂.mem.resetRoot v.eptRoot cold := by
    cases hr with
    | reset hstop => exact ⟨_, hstop, rfl⟩
  rw [hstop.mem, hroot] at hmem
  -- the call leaves the memory of every VM but for the root
  have hold : ∀ b w, h'.vms b = some w → ∃ x, h.vms b = some x ∧ SameMemory x w := by
    intro b w hw
    rw [hh', Host.setVm_vms, Host.setMem_vms, ht.vms] at hw
    by_cases hba : b = a
    · subst hba
      rw [Function.update_self] at hw
      cases hw
      exact ⟨v, hv, rfl, rfl, rfl⟩
    · rw [Function.update_of_ne hba] at hw
      exact ⟨w, hw, SameMemory.refl w⟩
  have hlook : ∀ s is j e, lbl s = some (s, []) → is.length = 3 → h'.mem.look s is j = some e →
      h.mem.look s is j = some e := by
    intro s is j e hs' hd he
    rw [hmem, PhysMem.resetRoot] at he
    split_ifs at he
    · by_cases hsr : s = r
      · subst hsr
        rw [look_zero_self] at he
        cases he
      · rwa [hs.trees.look_zero_of_ne hlr hs' hsr j hd] at he
    · exact he
  have htrees : EptTrees h'.mem lbl := by
    rw [hmem, PhysMem.resetRoot]
    split_ifs
    · exact hs.trees.zero hlr'
    · exact hs.trees
  have hheap : h'.mem.heap = h.mem.heap := by
    rw [hmem]
    exact h.mem.resetRoot_heap _ _
  have habi : h'.mem.abi = h.mem.abi := by
    rw [hmem]
    exact h.mem.resetRoot_abi _ _
  refine ⟨htrees, habi ▸ hs.slots, fun b w hw => ?_, hs.apart_of_old fun b w hw => ?_⟩
  · obtain ⟨x, hx, hsame⟩ := hold b w hw
    refine (hs.own b x hx).mono hsame habi (fun s _ hl => ⟨hl, fun is j e => hlook s is j e hl⟩)
      fun c _ hc hn => ⟨?_, hn⟩
    rw [hheap]
    exact hc
  · obtain ⟨x, hx, hsame⟩ := hold b w hw
    exact .inr ⟨x, hx, hsame.blocks⟩

/-- **A destruction leaves the blocks and the trees of the other VMs.** -/
theorem Separated.destroy (hi : HvInv h) (hs : Separated lbl h) (hv : h.vms a = some v)
    (hd : Destroys a v h h') : ∃ lbl', Separated lbl' h' := by
  obtain ⟨root, hroot, hlr, -⟩ := (hs.own a v hv).root
  obtain ⟨l, hf, hkind⟩ := hd.frees
  have hpages : ∀ x, (BlockKind.pages, some x) ∈ l → x = root := by
    intro x hx
    have := (hkind _ _ hx).2.2.2 rfl
    rw [hroot] at this
    exact (Option.some.inj this).symm
  refine ⟨_, hs.trees.dropRoot hf hlr hpages, hf.abi ▸ hs.slots, fun b w hw => ?_, hs.apart_of_old fun b w hw => ?_⟩
  · obtain ⟨hne, x, hx, hwx⟩ := hd.old hw
    have hown := hs.own b x hx
    refine hown.mono (sameMemory_relinked hwx) hf.abi (fun r hr hl => ⟨?_, fun is j e _ he => ?_⟩)
      fun c hc hcl hn => ?_
    · rw [Function.update_of_ne, hl]
      rintro rfl
      exact hne (hi.good.layout.rootInj b a x v r trivial trivial hx hv hr hroot)
    · rw [PhysMem.look, hf.tables, hf.abi] at he
      exact he
    · have hcr : c.base ≠ root := by
        intro hc'
        rw [hc', hlr] at hn
        cases hn
      refine ⟨hf.live c hcl fun hmem => hcr ?_, ?_⟩
      · obtain ⟨reg, -, rfl⟩ := List.mem_map.mp hc
        exact hpages _ hmem
      · rw [Function.update_of_ne hcr]
        exact hn
  · obtain ⟨-, x, hx, hwx⟩ := hd.old hw
    exact .inr ⟨x, hx, (sameMemory_relinked hwx).blocks⟩

/-! ## Runs -/

/-- **A call that gets the memory it asks for keeps the VMs separated**, unless its size wraps. -/
theorem memoryOp_spec (hi : MemoryInv h) {op : MemoryOp} (hwhole : op.Whole) (hserved : op.Served h) :
    wlp op.run (fun _ h' => MemoryInv h') h := by
  obtain ⟨lbl, hs⟩ := hi.separated
  cases op with
  | create config =>
    refine wlp_mono (hvOp_spec hi.hv (.create config)) ?_
    rintro _ h' ⟨hi', rfl | hstep⟩
    · exact hi
    refine ⟨hi', ?_⟩
    cases hstep with
    | createFailed ha _ => exact ⟨lbl, hs.allocates ha rfl⟩
    | @create config vm v h₁ name hid hlen hroot hregs hb =>
      obtain ⟨root, hroot⟩ := Option.ne_none_iff_exists'.mp hroot
      refine ⟨_, hs.create hb (hid.memoryRegionCount.trans rfl) ?_ hroot⟩
      rw [hregs, List.length_replicate]
      exact config.memoryRegionCount.toNat_lt
  | alloc vm guestPhys size regionType =>
    rw [MemoryOp.run, wlp_discard]
    rw [MemoryOp.Served, MemoryOp.run, wlp_discard] at hserved
    intro r h' hrun
    have hrefused := hserved r h' hrun
    cases hv : h.vms vm with
    | none =>
      rcases vmAllocMemory_none hv guestPhys size regionType r h' hrun with rfl | hlt
      · exact hi
      · exact absurd hrefused hlt.ne'
    | some v =>
      obtain ⟨root, hroot, -⟩ := (hs.own vm v hv).root
      rcases vmAllocMemory_spec hs hv hwhole guestPhys regionType r h' hrun hrefused with
        rfl | ⟨r, lbl', hal⟩
      · exact hi
      · exact ⟨hal.hvInv hi.hv hv hroot, lbl', hal.separated hi.hv hs hv⟩
  | reset vm cold =>
    refine wlp_mono (hvOp_spec hi.hv (.lifecycle (.reset cold) vm)) ?_
    rintro _ h' ⟨hi', rfl | hstep⟩
    · exact hi
    cases hstep with
    | lifecycle hv hr => exact ⟨hi', lbl, hs.reset hv hr⟩
  | destroy vm =>
    refine wlp_mono (hvOp_spec hi.hv (.destroy vm)) ?_
    rintro _ h' ⟨hi', rfl | hstep⟩
    · exact hi
    cases hstep with
    | destroy hv hd => exact ⟨hi', hs.destroy hi.hv hv hd⟩

theorem Boot.memoryInv (hb : Boot h) (hslots : h.mem.abi.slots = 512)
    (hlimit : h.mem.heap.limit ≤ h.mem.abi.span) : MemoryInv h := by
  have hvms : ∀ a, h.vms a = none := fun a => congrFun hb.vms a
  refine ⟨hb.hvInv, _, EptTrees.empty hb.sound hlimit, hslots, fun a v hv => ?_,
    fun a b v w _ hv => ?_⟩
  · rw [hvms] at hv
    cases hv
  · rw [hvms] at hv
    cases hv

/-- **Memory isolation.** Take each table as 512 entries. In every run of creations, allocations,
resets and destructions in which every request for memory is served with a block that ends inside
the span of the entries, at or below 2⁴⁰ with the shift of gcc, and no size is the one that wraps,
the VMs are isolated. -/
theorem memory_isolated {h₀ : Host} (hboot : Boot h₀) (hslots : h₀.mem.abi.slots = 512)
    (hlimit : h₀.mem.heap.limit ≤ h₀.mem.abi.span) {ops : List MemoryOp}
    (hops : Along MemoryOp.run (fun op h => op.Whole ∧ op.Served h) ops h₀)
    (hrun : (runOps MemoryOp.run ops).run h₀ = some ((), h)) : Isolated h := by
  have hend : MemoryInv h := wlp_runOps
    (fun op h hC hI => memoryOp_spec hI hC.1 hC.2) hops (hboot.memoryInv hslots hlimit) () h hrun
  obtain ⟨lbl, hs⟩ := hend.separated
  exact hs.isolated

theorem memory_isolated_two_vms : ∃ h, (runOps MemoryOp.run [.create { memoryRegionCount := 1 },
    .create { memoryRegionCount := 1 }, .alloc 16384 0 4096 .ram, .alloc 98304 0x1000 8192 .ram,
    .reset 16384 true]).run (bootHost 1 .intel) = some ((), h) ∧ Isolated h ∧
      h.translate 98304 0x1234 = some 246324 := by
  have hsome : ((runOps MemoryOp.run [.create { memoryRegionCount := 1 },
      .create { memoryRegionCount := 1 }, .alloc 16384 0 4096 .ram, .alloc 98304 0x1000 8192 .ram,
      .reset 16384 true]).run (bootHost 1 .intel)).any
        (fun p => p.2.translate 98304 0x1234 = some 246324) = true := by decide +kernel
  obtain ⟨⟨⟨⟩, h⟩, hrun, ht⟩ := (Option.any_eq_true _ _).mp hsome
  refine ⟨h, hrun, memory_isolated (boot_bootHost (by decide) .intel) rfl (by decide) ?_ hrun,
    of_decide_eq_true ht⟩
  decide +kernel

end NexusVM
