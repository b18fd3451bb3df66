import NexusVM.Vm

/-!
# Guest memory

* `vmEptMap`, `vmEptUnmap`, `vmAllocMemory`: mapping host memory into a guest;
* `vmGpaToHpa`: the translation that the hypervisor uses;
* `Nexusvm.blocks`, `Nexusvm.Holds`: the host memory that is allocated for a VM;
* `readRam`, `writeRam`: bytes of host memory;
* `vmGpaToHpa_readsOnly`: a translation depends on the page tables only.
-/

namespace NexusVM

/-- The entry that `vm_ept_map` makes for a host page. -/
def makePte (hpa : UInt64) (write execute : Bool) : EptEntry where
  present := true
  write := write
  executable := !execute
  memoryType := EPT_MEMORY_TYPE_WRITE_BACK
  physicalAddress := frameNumber hpa

/-- The loop of `vm_ept_map` from page `i` on, `n` pages being left. -/
def mapPages (root : Option Addr) (guestPhys hostPhys : UInt64) (write execute : Bool) :
    ℕ → UInt64 → MemM Result
  | 0, _ => return .ok
  | n + 1, i => do
    let gpa := guestPhys + (i <<< PAGE_SHIFT)
    let hpa := hostPhys + (i <<< PAGE_SHIFT)
    let result ← eptMap root gpa (makePte hpa write execute)
    if result ≠ .ok then return result
    mapPages root guestPhys hostPhys write execute n (i + 1)

/-- The number of pages of `vm_ept_map`. -/
def pageCount (size : UInt64) : UInt64 := (size + PAGE_SIZE - 1) >>> PAGE_SHIFT

/-- `vm_ept_map`; the flag `read` is not looked at. -/
def vmEptMap (vm : Option Addr) (guestPhys hostPhys size : UInt64) (write execute : Bool) :
    HostM Result :=
  match vm with
  | none => return .errInvalidParam
  | some a => do
    let v ← getVm a
    if v.eptRoot.isNone then return .errInvalidParam
    onMem (mapPages v.eptRoot guestPhys hostPhys write execute (pageCount size).toNat 0)

/-- The loop of `vm_ept_unmap` from page `i` on, `n` pages being left. -/
def unmapPages (root : Option Addr) (guestPhys : UInt64) : ℕ → UInt64 → MemM Unit
  | 0, _ => return ()
  | n + 1, i => do
    let _ ← eptUnmap root (guestPhys + (i <<< PAGE_SHIFT))
    unmapPages root guestPhys n (i + 1)

/-- `vm_ept_unmap` -/
def vmEptUnmap (vm : Option Addr) (guestPhys size : UInt64) : HostM Result :=
  match vm with
  | none => return .errInvalidParam
  | some a => do
    let v ← getVm a
    if v.eptRoot.isNone then return .errInvalidParam
    onMem (unmapPages v.eptRoot guestPhys (pageCount size).toNat 0)
    return .ok

/-- `vm_alloc_memory`; a region beyond the end of the table is undefined. -/
def vmAllocMemory (vm : Option Addr) (guestPhys size : UInt64) (regionType : MemoryRegionType) :
    HostM Result :=
  match vm with
  | none => return .errInvalidParam
  | some a => do
    if size = 0 then return .errInvalidParam
    match ← onMem (eptAllocPages (size / PAGE_SIZE + 1)) with
    | none => return .errNoMemory
    | some hostMem =>
      let hostPhys := UInt64.ofNat hostMem
      let v ← getVm a
      let k := v.memoryRegionCount.toNat
      Prog.require (k < v.memoryRegions.length)
      let region : MemoryRegion := {
        (v.memoryRegions[k]?.getD {}) with
        guestPhys := guestPhys
        hostPhys := hostPhys
        size := size
        type := regionType
        flags := MEM_REGION_READABLE ||| MEM_REGION_WRITABLE }
      putVm a { v with
        memoryRegions := v.memoryRegions.set k region
        memoryRegionCount := v.memoryRegionCount + 1 }
      let result ← vmEptMap (some a) guestPhys hostPhys size true false
      if result ≠ .ok then
        onMem (eptFreePages (some hostMem))
        return result
      return .ok

/-- `vm_gpa_to_hpa` -/
def vmGpaToHpa (vm : Option Addr) (guestPhys : UInt64) : HostM UInt64 :=
  match vm with
  | none => return INVALID_PHYS_ADDR
  | some a => do
    let v ← getVm a
    if v.eptRoot.isNone then return INVALID_PHYS_ADDR
    match ← onMem (eptLookup v.eptRoot guestPhys) with
    | .error _ => return INVALID_PHYS_ADDR
    | .ok pte =>
      if !pte.present then return INVALID_PHYS_ADDR
      let frame ← onMem (entryAddress pte)
      return frame ||| (guestPhys &&& (PAGE_SIZE - 1))

/-! ## The memory of a VM -/

/-- The bytes that `vm_alloc_memory` asks for. -/
def allocSize (size : UInt64) : UInt64 := (size / PAGE_SIZE + 1) * PAGE_SIZE

/-- The block that `vm_alloc_memory` allocated for a region. -/
def MemoryRegion.block (r : MemoryRegion) : Block BlockKind :=
  ⟨.pages, r.hostPhys.toNat, (allocSize r.size).toNat⟩

/-- The regions that a VM counts. -/
def Nexusvm.regions (v : Nexusvm) : List MemoryRegion := v.memoryRegions.take v.memoryRegionCount.toNat

/-- The blocks allocated for a VM: one for each region in its table. -/
def Nexusvm.blocks (v : Nexusvm) : List (Block BlockKind) :=
  (v.memoryRegions.take v.memoryRegionCount.toNat).map MemoryRegion.block

/-- The `n` bytes from `p` on lie in one live block that is allocated for the VM. -/
def Nexusvm.Holds (v : Nexusvm) (m : PhysMem) (p : Addr) (n : ℕ) : Prop :=
  ∃ b ∈ v.blocks, b ∈ m.heap.live ∧ b.base ≤ p ∧ p + n ≤ b.base + b.size

instance (v : Nexusvm) (m : PhysMem) (p : Addr) (n : ℕ) : Decidable (v.Holds m p n) :=
  inferInstanceAs (Decidable (∃ b ∈ v.blocks, _))

/-! ## Bytes of host memory -/

/-- The bytes of host memory from `a` on. -/
def readRam (a : Addr) (size : ℕ) : HostM (List UInt8) := do
  let h ← get
  return (List.range size).map fun k => h.mem.ram (a + k)

def PhysMem.putRam (m : PhysMem) (a : Addr) (data : List UInt8) : PhysMem :=
  { m with ram := fun b => if a ≤ b ∧ b < a + data.length then data.getD (b - a) 0 else m.ram b }

/-- Store bytes to host memory from `a` on, where no record of the process lies. -/
def writeRam (a : Addr) (data : List UInt8) : HostM Unit :=
  modify fun h => h.setMem (h.mem.putRam a data)

theorem PhysMem.putRam_read (m : PhysMem) (a : Addr) (data : List UInt8) :
    (List.range data.length).map (fun k => (m.putRam a data).ram (a + k)) = data := by
  refine List.ext_getElem (by simp) fun k hk _ => ?_
  rw [List.length_map, List.length_range] at hk
  rw [List.getElem_map, List.getElem_range]
  change (if a ≤ a + k ∧ a + k < a + data.length then data.getD (a + k - a) 0 else _) = _
  rw [if_pos ⟨Nat.le_add_right a k, Nat.add_lt_add_left hk a⟩, Nat.add_sub_cancel_left,
    List.getD_eq_getElem?_getD, List.getElem?_eq_getElem hk, Option.getD_some]

/-! ## Translations only read -/

/-- The page tables of a VM are as before. -/
def SameEpt (a : Addr) (h h' : Host) : Prop :=
  (∀ v, h.vms a = some v → ∃ v', h'.vms a = some v' ∧ v'.eptRoot = v.eptRoot) ∧
    SameTables h.mem h'.mem

theorem SameEpt.refl (a : Addr) (h : Host) : SameEpt a h h :=
  ⟨fun v hv => ⟨v, hv, rfl⟩, ⟨rfl, rfl⟩, fun _ => id⟩

theorem SameEpt.trans {a : Addr} {h h' h'' : Host} (s : SameEpt a h h') (s' : SameEpt a h' h'') :
    SameEpt a h h'' := by
  refine ⟨fun v hv => ?_, ⟨s'.2.1.1.trans s.2.1.1, s'.2.1.2.trans s.2.1.2⟩,
    fun t ht => s'.2.2 t (s.2.2 t ht)⟩
  obtain ⟨v', hv', hroot⟩ := s.1 v hv
  obtain ⟨v'', hv'', hroot'⟩ := s'.1 v' hv'
  exact ⟨v'', hv'', hroot'.trans hroot⟩

theorem vmGpaToHpa_readsOnly (a : Addr) (gpa : UInt64) :
    Prog.ReadsOnly (SameEpt a) (vmGpaToHpa (some a) gpa) := by
  refine .fetch_bind (fun h h' v hs hv => ?_) fun v => .ite (.pure _) ?_
  · obtain ⟨v', hv', hroot⟩ := hs.1 v hv
    exact ⟨v', hv', by simp only [hroot]⟩
  · refine .bind (.zoom (eptLookup_readsOnly _ _) (fun _ _ hs => hs.2) fun _ => rfl) fun r => ?_
    cases r with
    | error result => exact .pure _
    | ok pte =>
      exact .ite (.pure _) (.bind (.zoom (entryAddress_readsOnly _) (fun _ _ hs => hs.2)
        fun _ => rfl) fun _ => .pure _)

end NexusVM
