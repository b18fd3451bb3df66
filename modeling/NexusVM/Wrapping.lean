import NexusVM.Isolation

/-!
# The size that wraps and the address that folds

For one size `vm_alloc_memory` asks for zero bytes and maps nearly 2⁵² pages. A block at 2⁴⁰ is taken for one
at 0, since the shift of gcc drops what an entry has above.

* `eptMap_mapped`: mapping a page that is mapped makes no request;
* `mapPages_returns`: the loop over the pages ends, and maps the first of them;
* `vmAllocMemory_wraps`, `alloc_memory_wraps`, `alloc_memory_folds`: the two ways out of a VM;
* **`alloc_memory_escapes`**: a guest address is translated into no block of its VM.
-/

namespace NexusVM

open Prog

variable {h h' : Host} {a : Addr} {v : Nexusvm} {m m' : PhysMem} {lbl lbl' : Labels}

/-! ## Mapped pages -/

/-- **A page that is mapped is mapped again without a request.** -/
theorem eptMap_mapped (ht : EptTrees m lbl) {root : ℕ} (hr : lbl root = some (root, []))
    {gpa : UInt64} (hreach : m.abi.Reaches gpa) (pte : EptEntry)
    (hlook : m.look root (eptPath gpa) (eptPtIndex gpa) ≠ none) :
    ∃ m', (eptMap (some root) gpa pte).run m = some (.ok, m') ∧
      Maps root gpa pte m m' lbl lbl ∧ m'.heap = m.heap := by
  have hmiss : ∀ e : EptEntry, e.present → (!e.present) = false := fun e he => by simp [he]
  have hmiss' : ∀ e : EptEntry, e.present → (!e.present && !e.bigPagesize) = false :=
    fun e he => by simp [he]
  obtain ⟨hk₁, hk₂, hk₃, hj⟩ := (m.abi.reaches_iff gpa).mp hreach
  obtain ⟨pt, hw⟩ : ∃ pt, m.walk root (eptPath gpa) = some pt := by
    apply Option.ne_none_iff_exists'.mp
    intro hnone
    change Radix.walk _ _ _ _ = _ at hnone
    rw [PhysMem.look, Radix.look, hnone] at hlook
    exact hlook rfl
  -- the walk, one table after the other
  have hsplit := hw
  rw [show eptPath gpa = [eptPml4Index gpa] ++ ([eptPdpIndex gpa] ++ [eptPdIndex gpa]) from rfl,
    PhysMem.walk_append, Option.bind_eq_some_iff] at hsplit
  obtain ⟨pdpt, hw₁, hsplit⟩ := hsplit
  rw [PhysMem.walk_append, Option.bind_eq_some_iff] at hsplit
  obtain ⟨pd, hw₂, hw₃⟩ := hsplit
  have hl₁ := ht.tree.walk_label hr (by simp) hw₁
  have hl₂ := ht.tree.walk_label hl₁ (by simp) hw₂
  obtain ⟨_, _, hrun₁, rfl, rfl⟩ := eptNext_present ht hr hk₁ hmiss hw₁
  obtain ⟨_, _, hrun₂, rfl, rfl⟩ := eptNext_present ht hl₁ hk₂ hmiss hw₂
  obtain ⟨_, _, hrun₃, rfl, rfl⟩ := eptNext_present ht hl₂ hk₃ hmiss' hw₃
  obtain ⟨hmaps, u, m', hwrite, rfl⟩ := ht.write hr hw hj pte rfl
  refine ⟨_, ?_, hmaps, rfl⟩
  rw [eptMap, eptDescend_eq]
  simp only [bind_assoc]
  rw [Prog.run_bind hrun₁, Prog.run_bind hrun₂, Prog.run_bind hrun₃, Prog.run_bind hwrite]
  rfl

/-- The first `k` pages of the guest are mapped. -/
def PhysMem.MappedUpTo (m : PhysMem) (root k : ℕ) : Prop :=
  ∀ gpa : UInt64, guestPage gpa < k → m.look root (eptPath gpa) (eptPtIndex gpa) ≠ none

theorem Maps.mappedUpTo {root k : ℕ} {gpa : UInt64} {pte : EptEntry}
    (h : Maps root gpa pte m m' lbl lbl') (hr : lbl root = some (root, [])) (hp : pte.present)
    (hm : m.MappedUpTo root k) (hk : guestPage gpa = k % 2 ^ 36) : m'.MappedUpTo root (k + 1) := by
  intro gpa' hlt
  rw [h.look hp root _ _ hr rfl]
  split_ifs with hkey
  · exact Option.some_ne_none pte
  · apply hm
    have hne : guestPage gpa' ≠ guestPage gpa := fun hc =>
      hkey ⟨rfl, (key_eq_iff gpa gpa').mpr hc⟩
    have hpage : guestPage gpa' < 2 ^ 36 := Nat.mod_lt _ (by decide)
    omega

/-! ## The loop -/

/-- The page of the guest that an iteration maps. -/
theorem guestPage_shift (i : UInt64) :
    guestPage (0 + (i <<< PAGE_SHIFT)) = i.toNat % 2 ^ 36 := by
  rw [UInt64.zero_add, guestPage, UInt64.toNat_shiftLeft, show PAGE_SHIFT.toNat % 64 = 12 from rfl,
    Nat.shiftLeft_eq]
  omega

/-- **The loop of `vm_ept_map` ends**, with at most three requests for each page of the guest. -/
theorem mapPages_returns {root : ℕ} {hostPhys : UInt64} (write execute : Bool) {n : ℕ} {i : UInt64}
    (hn : i.toNat + n < 2 ^ 52) (ht : EptTrees m lbl) (hslots : m.abi.slots = 512) (hr : lbl root = some (root, []))
    (hs : m.Serves (3 * (2 ^ 36 - i.toNat))) (hm : m.MappedUpTo root i.toNat) :
    wp (mapPages (some root) 0 hostPhys write execute n i) (fun r m' => r = .ok ∧
      m'.heap.refused = m.heap.refused ∧ m'.abi = m.abi ∧
      ∃ lbl', EptTrees m' lbl' ∧ lbl' root = some (root, []) ∧ m'.MappedUpTo root (i.toNat + n)) m := by
  induction n generalizing i m lbl with
  | zero =>
    rw [mapPages, wp_pure]
    exact ⟨rfl, rfl, rfl, lbl, ht, hr, hm⟩
  | succ n ih =>
    have hnext : (i + 1).toNat = i.toNat + 1 := by
      rw [UInt64.toNat_add, show (1 : UInt64).toNat = 1 from rfl]
      omega
    have hpage := guestPage_shift i
    have hreach := EptAbi.reaches_of_slots hslots (0 + (i <<< PAGE_SHIFT))
    -- one call, whether the page is mapped or not
    have hcall : ∃ m₁ lbl₁, (eptMap (some root) (0 + (i <<< PAGE_SHIFT))
        (makePte (hostPhys + (i <<< PAGE_SHIFT)) write execute)).run m = some (.ok, m₁) ∧
        Maps root (0 + (i <<< PAGE_SHIFT)) (makePte (hostPhys + (i <<< PAGE_SHIFT)) write execute)
          m m₁ lbl lbl₁ ∧ m₁.Serves (3 * (2 ^ 36 - (i.toNat + 1))) := by
      by_cases hbig : 2 ^ 36 ≤ i.toNat
      · obtain ⟨m₁, hrun, hmaps, hheap⟩ := eptMap_mapped ht hr hreach
          (makePte (hostPhys + (i <<< PAGE_SHIFT)) write execute)
          (hm (0 + (i <<< PAGE_SHIFT)) (by rw [hpage]; omega))
        refine ⟨m₁, lbl, hrun, hmaps, ?_⟩
        rw [show 3 * (2 ^ 36 - (i.toNat + 1)) = 0 by omega]
        trivial
      · rcases eptMap_cases ht hr hreach
          (makePte (hostPhys + (i <<< PAGE_SHIFT)) write execute) with
          ⟨m₁, lbl₁, hrun, hmaps⟩ | ⟨hno, -⟩
        · refine ⟨m₁, lbl₁, hrun, hmaps, hmaps.serves _ (PhysMem.serves_mono hs ?_)⟩
          omega
        · exact absurd (PhysMem.serves_mono hs (by omega)) hno
    obtain ⟨m₁, lbl₁, hrun, hmaps, hs₁⟩ := hcall
    have hm₁ := hmaps.mappedUpTo hr rfl hm hpage
    rw [← hnext] at hs₁ hm₁
    have hrest := ih (by rw [hnext]; omega) hmaps.trees (hmaps.grows.abi ▸ hslots) (hmaps.grows.keep root _ hr) hs₁ hm₁
    rw [mapPages, wp_bind]
    refine ⟨.ok, m₁, hrun, ?_⟩
    dsimp only
    rw [if_neg (not_not.mpr rfl)]
    rw [hnext, Nat.add_assoc, Nat.add_comm 1 n, hmaps.refused, hmaps.grows.abi] at hrest
    exact hrest

/-! ## The call -/

/-- What the call leaves behind: a block without bytes, and a mapped page. -/
structure Escapes (a : Addr) (h : Host) : Prop where
  slots : h.mem.abi.slots = 512
  vm : ∃ v root lbl, h.vms a = some v ∧ v.eptRoot = some root ∧ EptTrees h.mem lbl ∧
    lbl root = some (root, []) ∧ h.mem.look root (eptPath 0) (eptPtIndex 0) ≠ none ∧
    ∀ b ∈ v.blocks, b.size = 0

theorem Escapes.not_isolated (he : Escapes a h) : ¬ Isolated h := by
  intro hi
  have hslots := he.slots
  obtain ⟨v, root, lbl, hv, hroot, ht, hr, hlook, hempty⟩ := he.vm
  obtain ⟨e, he⟩ := Option.ne_none_iff_exists'.mp hlook
  have hpa : (h.mem.abi.address e ||| (0 &&& (PAGE_SIZE - 1))).toNat = (h.mem.abi.address e).toNat := by
    rw [page_or_offset, UInt64.toNat_zero, Nat.zero_mod, Nat.add_zero]
  have htrans : h.translate a 0 = some (h.mem.abi.address e ||| (0 &&& (PAGE_SIZE - 1))) := by
    rw [Host.translate, vmGpaToHpa_spec ht hslots hv hroot hr, he, Option.map_some, Option.filter_some,
      if_pos]
    rw [decide_eq_true_eq]
    intro hc
    have hd := h.mem.abi.address_dvd e
    change (h.mem.abi.address e ||| (0 &&& (PAGE_SIZE - 1))) = INVALID_PHYS_ADDR at hc
    rw [hc] at hpa
    change 18446744073709551615 = (h.mem.abi.address e).toNat at hpa
    omega
  obtain ⟨b, hb, -, hlo, hhi⟩ := hi.inside a v 0 _ hv htrans
  rw [hempty b hb] at hhi
  omega

/-- **The call with the size that wraps.** -/
theorem vmAllocMemory_wraps (hs : Separated lbl h) (hv : h.vms a = some v)
    (hroom : v.memoryRegionCount.toNat < v.memoryRegions.length) (hempty : v.blocks = [])
    (hbumps : Bumps h.mem.heap) (hlimit : h.mem.heap.limit = 2 ^ 52) (hasked : h.mem.heap.asked < 2 ^ 35) :
    wp (vmAllocMemory (some a) 0 WRAPPING_SIZE .ram) (fun _ h' =>
      Escapes a h' ∧ h'.mem.heap.refused = h.mem.heap.refused) h := by
  obtain ⟨root, hroot, hr, -⟩ := (hs.own a v hv).root
  have hlen := (hs.own a v hv).room
  have hzero : ((WRAPPING_SIZE / PAGE_SIZE + 1) * PAGE_SIZE).toNat = 0 := by decide +kernel
  rw [vmAllocMemory, if_neg (by decide), wp_bind, wp_onMem]
  refine wp_mono (eptAllocPages_spec (WRAPPING_SIZE / PAGE_SIZE + 1) h.mem) fun o m ho => ?_
  rw [hzero] at ho
  have hfits : h.mem.heap.Fits 4096 ⟨.pages, _, 0⟩ := hbumps.fits (by decide) (by omega)
  cases o with
  | none => exact absurd ⟨_, hbumps.answers, hfits, trivial⟩ ho.1
  | some b =>
    obtain ⟨hb, -, rfl⟩ := ho
    rw [hbumps.answers] at hb
    cases hb
    have hb' : Bumps (h.mem.newPages (16384 * (h.mem.heap.asked + 1)) 0).heap :=
      hbumps.grant (by decide)
    have hserves : (h.mem.newPages (16384 * (h.mem.heap.asked + 1)) 0).Serves (3 * 2 ^ 36) := by
      apply hb'.serves
      change 16384 * (h.mem.heap.asked + 1 + 3 * 2 ^ 36 + 1) ≤ h.mem.heap.limit
      omega
    simp only [wp_bind, wp_getVm, wp_require, wp_putVm]
    refine ⟨v, hv, hroom, ?_⟩
    generalize hreg : { v.memoryRegions[v.memoryRegionCount.toNat]?.getD {} with
      guestPhys := 0
      hostPhys := UInt64.ofNat (16384 * (h.mem.heap.asked + 1))
      size := WRAPPING_SIZE
      type := MemoryRegionType.ram
      flags := MEM_REGION_READABLE ||| MEM_REGION_WRITABLE } = r
    have hblock : r.block.size = 0 := by
      rw [← hreg, MemoryRegion.block]
      exact hzero
    change wp _ _ ((h.setMem _).setVm a (some (v.addRegion r)))
    simp only [vmEptMap, wp_bind, wp_getVm, Host.setVm_vms, Function.update_self]
    refine ⟨_, rfl, ?_⟩
    have hroot' : (v.addRegion r).eptRoot = some root := hroot
    simp only [hroot', Option.isNone_some, Bool.false_eq_true, if_false, wp_onMem]
    have hcount : 0 < (pageCount WRAPPING_SIZE).toNat ∧
        (pageCount WRAPPING_SIZE).toNat < 2 ^ 52 := by decide +kernel
    refine wp_mono (mapPages_returns true false ?_ (hs.trees.newPages hfits) hs.slots hr hserves ?_) ?_
    · rw [UInt64.toNat_zero, Nat.zero_add]
      exact hcount.2
    · exact fun gpa hlt => absurd hlt (Nat.not_lt_zero _)
    rintro _ m' ⟨rfl, hrefused, habi, lbl', ht', hr', hmapped⟩
    rw [if_neg (not_not.mpr rfl), wp_pure]
    refine ⟨⟨habi ▸ hs.slots, v.addRegion r, root, lbl', Function.update_self _ _ _, hroot, ht', hr',
      hmapped 0 ?_, fun b hb => ?_⟩, hrefused⟩
    · rw [UInt64.toNat_zero, Nat.zero_add]
      exact hcount.1
    · rw [Nexusvm.blocks_addRegion hroom hlen, hempty, List.nil_append, List.mem_singleton] at hb
      rw [hb]
      exact hblock

/-! ## The two ways out -/

/-- A host whose addresses survive the shift, as with a compiler that shifts in 64 bits, and end at 2⁵². -/
def wideHost : Host :=
  (bootHost 1 .intel).setMem { bumpMem with heap := { bumpHeap with limit := 2 ^ 52 }, abi := ⟨64, 512⟩ }

theorem boot_wideHost : Boot wideHost :=
  ⟨rfl, rfl, by decide, rfl, rfl, rfl, rfl, rfl, rfl, rfl, rfl, fun _ _ => ⟨rfl, rfl⟩, List.Pairwise.nil⟩

/-- A region whose size wraps leaves the memory of its VM. -/
theorem alloc_memory_wraps : ∃ h, (runOps MemoryOp.run [.create { memoryRegionCount := 1 },
    .alloc 16384 0 0xFFFFFFFFFFFFF000 .ram]).run wideHost = some ((), h) ∧
      h.mem.heap.refused = 0 ∧ ¬ Isolated h := by
  have hany : ((runOps MemoryOp.run [.create { memoryRegionCount := 1 }]).run wideHost).any
      (fun p => p.2.mem.heap.asked = 5 ∧ p.2.mem.heap.refused = 0 ∧
        (∀ b ∈ p.2.mem.heap.live, b.base < 16384 * 6 ∧ b.base + b.size ≤ 16384 * 6) ∧
        (p.2.vms 16384).any fun v => v.memoryRegionCount = 0 ∧ v.memoryRegions.length = 1) =
          true := by decide +kernel
  obtain ⟨⟨⟨⟩, h₁⟩, hcreate, hall⟩ := (Option.any_eq_true _ _).mp hany
  obtain ⟨hasked, hrefused, hbelow, hvm⟩ := of_decide_eq_true hall
  obtain ⟨v, hv, hvm⟩ := (Option.any_eq_true _ _).mp hvm
  obtain ⟨hcount, hlen⟩ := of_decide_eq_true hvm
  -- the state after the creation
  obtain ⟨_, h₁', hrun, hnil⟩ := (runOps_cons _ _ _ _).mp hcreate
  rw [runOps_nil] at hnil
  cases hnil
  have hstep := (hvOp_spec boot_wideHost.hvInv (.create { memoryRegionCount := 1 }) _ _ hrun).2
  have hheap : h₁.mem.heap.answer = bumpHeap.answer ∧ h₁.mem.heap.limit = 2 ^ 52 := by
    rcases hstep with rfl | hstep
    · exact ⟨rfl, rfl⟩
    · cases hstep with
      | createFailed ha _ => exact ⟨ha.answer, ha.limit⟩
      | create _ _ _ _ hb => exact ⟨hb.alloc.answer, hb.alloc.limit⟩
  have hbumps : Bumps h₁.mem.heap := by
    refine ⟨hheap.1, ?_⟩
    rw [hasked]
    exact hbelow
  have hserved : (MemoryOp.create { memoryRegionCount := 1 }).Served wideHost := by
    decide +kernel
  have hwhole : (MemoryOp.create { memoryRegionCount := 1 }).Whole := trivial
  have hinv : MemoryInv h₁ :=
    memoryOp_spec (boot_wideHost.memoryInv rfl (by decide)) hwhole hserved _ _ hrun
  obtain ⟨lbl, hs⟩ := hinv.separated
  have hwraps : wp (MemoryOp.alloc 16384 0 WRAPPING_SIZE .ram).run (fun _ h' =>
      Escapes 16384 h' ∧ h'.mem.heap.refused = h₁.mem.heap.refused) h₁ := by
    rw [MemoryOp.run, wp_discard]
    exact vmAllocMemory_wraps hs hv (by rw [hcount, hlen]; decide)
      (by rw [Nexusvm.blocks, hcount]; rfl) hbumps hheap.2 (by rw [hasked]; decide)
  obtain ⟨_, h₂, halloc, hesc, hrefused'⟩ := hwraps
  exact ⟨h₂, (runOps_cons _ _ _ _).mpr ⟨_, h₁, hrun, (runOps_cons _ _ _ _).mpr ⟨_, h₂, halloc, rfl⟩⟩,
    hrefused'.trans hrefused, hesc.not_isolated⟩

/-- A host that has room above 2⁴⁰, and hands the sixth block out there. -/
def roomyHost : Host :=
  (bootHost 1 .intel).setMem { bumpMem with heap := { bumpHeap with
    answer := fun n => if n = 5 then some (2 ^ 40) else some ((n + 1) * 16384)
    limit := 2 ^ 41 } }

/-- A region at 2⁴⁰ is mapped at 0. -/
theorem alloc_memory_folds : ∃ h, (runOps MemoryOp.run [.create { memoryRegionCount := 1 },
    .alloc 16384 0 4096 .ram]).run roomyHost = some ((), h) ∧ h.mem.heap.refused = 0 ∧
      h.translate 16384 0 = some 0 ∧ ¬ Isolated h := by
  have hany : ((runOps MemoryOp.run [.create { memoryRegionCount := 1 }, .alloc 16384 0 4096 .ram]).run
      roomyHost).any (fun p => p.2.mem.heap.refused = 0 ∧ p.2.translate 16384 0 = some 0 ∧
        (p.2.vms 16384).any fun v => ∀ b ∈ v.blocks, b.base = 2 ^ 40) = true := by decide +kernel
  obtain ⟨⟨⟨⟩, h⟩, hrun, hall⟩ := (Option.any_eq_true _ _).mp hany
  obtain ⟨hrefused, htrans, hvm⟩ := of_decide_eq_true hall
  obtain ⟨v, hv, hblocks⟩ := (Option.any_eq_true _ _).mp hvm
  refine ⟨h, hrun, hrefused, htrans, fun hi => ?_⟩
  obtain ⟨b, hb, -, hlo, -⟩ := hi.inside 16384 v 0 0 hv htrans
  rw [of_decide_eq_true hblocks b hb] at hlo
  exact absurd hlo (by decide)

/-- **A guest address escapes the memory of its VM**, in runs in which every request is served: with the shift
of gcc where a block lies at 2⁴⁰, and with any other where the size wraps. -/
theorem alloc_memory_escapes :
    (∃ h, (runOps MemoryOp.run [.create { memoryRegionCount := 1 }, .alloc 16384 0 4096 .ram]).run roomyHost =
      some ((), h) ∧ h.mem.heap.refused = 0 ∧ ¬ Isolated h) ∧
    ∃ h, (runOps MemoryOp.run [.create { memoryRegionCount := 1 }, .alloc 16384 0 0xFFFFFFFFFFFFF000 .ram]).run
      wideHost = some ((), h) ∧ h.mem.heap.refused = 0 ∧ ¬ Isolated h := by
  obtain ⟨h, hrun, hrefused, -, hescapes⟩ := alloc_memory_folds
  exact ⟨⟨h, hrun, hrefused, hescapes⟩, alloc_memory_wraps⟩

end NexusVM
