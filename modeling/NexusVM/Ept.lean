import NexusVM.Memory

/-!
# Extended page tables

The functions of `mmu/ept.c` that build and walk a table tree. An index has nine bits, whatever
number of entries a table has room for.

* `eptAllocPages`, `eptAllocRoot`, `eptClearRoot`, `eptMap`, `eptUnmap`, `eptLookup`, `eptTranslate`: the
  code;
* `eptMap2mb`, `eptMap1gb`: large pages;
* `eptPath`, `guestPage`, **`key_eq_iff`**: the four indices of an address are its bits 47:12;
* `EptAbi.Reaches`: the four entries of an address lie inside their tables.
-/

namespace NexusVM

/-! ## Code -/

/-- The nine bits of an address from bit `shift` on. -/
def tableIndex (shift gpa : UInt64) : Fin 512 := Fin.ofNat 512 ((gpa >>> shift) &&& 0x1FF).toNat

/-- `EPT_PML4_INDEX` -/
def eptPml4Index (gpa : UInt64) : Fin 512 := tableIndex 39 gpa
/-- `EPT_PDP_INDEX` -/
def eptPdpIndex (gpa : UInt64) : Fin 512 := tableIndex 30 gpa
/-- `EPT_PD_INDEX` -/
def eptPdIndex (gpa : UInt64) : Fin 512 := tableIndex 21 gpa
/-- `EPT_PT_INDEX` -/
def eptPtIndex (gpa : UInt64) : Fin 512 := tableIndex 12 gpa

/-- `ept_alloc_pages`; the physical address is the address itself. -/
def eptAllocPages (count : UInt64) : MemM (Option Addr) := do
  let size := count * PAGE_SIZE
  match ← alignedAlloc .pages PAGE_SIZE.toNat size.toNat with
  | none => return none
  | some pages =>
    modify fun m => m.zero pages size.toNat
    return some pages

/-- `ept_free_pages` -/
def eptFreePages (pages : Option Addr) : MemM Unit :=
  match pages with
  | none => pure ()
  | some a => freeBlock .pages a

/-- `ept_alloc_root` -/
def eptAllocRoot : MemM (Option Addr) := do
  match ← eptAllocPages 1 with
  | none => return none
  | some root =>
    modify fun m => m.zero root PAGE_SIZE.toNat
    return some root

/-- `ept_free_root` -/
def eptFreeRoot (root : Option Addr) : MemM Unit := eptFreePages root

/-- `ept_clear_root` -/
def eptClearRoot (root : Option Addr) : MemM Unit :=
  match root with
  | none => pure ()
  | some root => do
    let m ← get
    Prog.require (m.Mapped root)
    set (m.zero root PAGE_SIZE.toNat)

/-- Point an entry at a new table. -/
def eptAllocTable (table : Addr) (idx : Fin 512) : MemM Result := do
  match ← eptAllocPages 1 with
  | none => return .errNoMemory
  | some pages =>
    let pte ← readEntry table idx
    writeEntry table idx { pte with
      present := true
      write := true
      executable := false
      memoryType := EPT_MEMORY_TYPE_WRITE_BACK
      physicalAddress := frameNumber (UInt64.ofNat pages) }
    return .ok

/-- `ept_alloc_pdpt` -/
def eptAllocPdpt : Addr → Fin 512 → MemM Result := eptAllocTable
/-- `ept_alloc_pd` -/
def eptAllocPd : Addr → Fin 512 → MemM Result := eptAllocTable
/-- `ept_alloc_pt` -/
def eptAllocPt : Addr → Fin 512 → MemM Result := eptAllocTable

/-- One level of the descent of `ept_map`: allocate the next table if it is `missing`, whether
that succeeds or not, and follow the entry. -/
def eptNext (missing : EptEntry → Bool) (allocTable : Addr → Fin 512 → MemM Result) (table : Addr)
    (idx : Fin 512) : MemM Addr := do
  let e ← readEntry table idx
  if missing e then
    let _ ← allocTable table idx
  let e ← readEntry table idx
  let next ← entryAddress e
  return next.toNat

/-- The descent of `ept_map` from the root to the last table. -/
def eptDescend (pml4 : Addr) (guestPhys : UInt64) : MemM Addr := do
  let pdpt ← eptNext (fun e => !e.present) eptAllocPdpt pml4 (eptPml4Index guestPhys)
  let pd ← eptNext (fun e => !e.present) eptAllocPd pdpt (eptPdpIndex guestPhys)
  eptNext (fun e => !e.present && !e.bigPagesize) eptAllocPt pd (eptPdIndex guestPhys)

/-- `ept_map` -/
def eptMap (root : Option Addr) (guestPhys : UInt64) (pte : EptEntry) : MemM Result :=
  match root with
  | none => return .errInvalidParam
  | some pml4 => do
    let pt ← eptDescend pml4 guestPhys
    writeEntry pt (eptPtIndex guestPhys) pte
    return .ok

/-- `ept_lookup` -/
def eptLookup (root : Option Addr) (guestPhys : UInt64) : MemM (Except Result EptEntry) :=
  match root with
  | none => return .error .errInvalidParam
  | some pml4 => do
    let pml4e ← readEntry pml4 (eptPml4Index guestPhys)
    if !pml4e.present then return .error .errNotFound
    let pdpt ← entryAddress pml4e
    let pdpe ← readEntry pdpt.toNat (eptPdpIndex guestPhys)
    if !pdpe.present then return .error .errNotFound
    let pd ← entryAddress pdpe
    let pue ← readEntry pd.toNat (eptPdIndex guestPhys)
    if !pue.present then return .error .errNotFound
    if pue.bigPagesize then return .ok pue
    let pt ← entryAddress pue
    let pte ← readEntry pt.toNat (eptPtIndex guestPhys)
    if !pte.present then return .error .errNotFound
    return .ok pte

/-- `ept_translate` -/
def eptTranslate (root : Option Addr) (guestPhys : UInt64) : MemM (Except Result UInt64) := do
  match ← eptLookup root guestPhys with
  | .error result => return .error result
  | .ok pte =>
    if !pte.present then return .error .errNotFound
    let frame ← entryAddress pte
    return .ok (frame ||| (guestPhys &&& (PAGE_SIZE - 1)))

/-- `ept_invalidate`: the processor forgets what it has read of the tables. -/
def eptInvalidate (_root : Addr) (_guestPhys : UInt64) : MemM Unit := pure ()

/-- `ept_unmap`; the entry that is found is left as it is. -/
def eptUnmap (root : Option Addr) (guestPhys : UInt64) : MemM Result :=
  match root with
  | none => return .errInvalidParam
  | some pml4 => do
    match ← eptLookup (some pml4) guestPhys with
    | .error result => return result
    | .ok _ =>
      eptInvalidate pml4 guestPhys
      return .ok

/-- What a large page is entered as; `frame` is its number among the pages of its size. -/
def largeEntry (e : EptEntry) (frame : UInt64) : EptEntry :=
  { e with
    present := true
    write := true
    executable := false
    memoryType := EPT_MEMORY_TYPE_WRITE_BACK
    bigPagesize := true
    physicalAddress := BitVec.ofNat 40 (frame &&& 0xFFFFFFFFFF).toNat }

/-- `ept_map_2mb`; the root is not checked. -/
def eptMap2mb (root : Option Addr) (guestPhys hostPhys : UInt64) : MemM Result := do
  if !isAligned guestPhys HUGE_PAGE_SIZE || !isAligned hostPhys HUGE_PAGE_SIZE then
    return .errInvalidParam
  let pml4 ← Prog.fetch fun _ => root
  let pml4e ← readEntry pml4 (eptPml4Index guestPhys)
  if !pml4e.present then return .errNotFound
  let pdpt ← entryAddress pml4e
  let pdpe ← readEntry pdpt.toNat (eptPdpIndex guestPhys)
  if !pdpe.present then return .errNotFound
  let pd ← entryAddress pdpe
  let pue ← readEntry pd.toNat (eptPdIndex guestPhys)
  writeEntry pd.toNat (eptPdIndex guestPhys) (largeEntry pue (hostPhys >>> HUGE_PAGE_SHIFT))
  return .ok

/-- `ept_map_1gb`; the root is not checked. -/
def eptMap1gb (root : Option Addr) (guestPhys hostPhys : UInt64) : MemM Result := do
  if !isAligned guestPhys GIG_PAGE_SIZE || !isAligned hostPhys GIG_PAGE_SIZE then
    return .errInvalidParam
  let pml4 ← Prog.fetch fun _ => root
  let pml4e ← readEntry pml4 (eptPml4Index guestPhys)
  if !pml4e.present then return .errNotFound
  let pdpt ← entryAddress pml4e
  let pdpe ← readEntry pdpt.toNat (eptPdpIndex guestPhys)
  writeEntry pdpt.toNat (eptPdpIndex guestPhys) (largeEntry pdpe (hostPhys >>> GIG_PAGE_SHIFT))
  return .ok

/-! ## Keys -/

theorem page_or_offset (abi : EptAbi) (e : EptEntry) (gpa : UInt64) :
    (abi.address e ||| (gpa &&& (PAGE_SIZE - 1))).toNat =
      (abi.address e).toNat + gpa.toNat % 4096 := by
  have hoffset : (gpa &&& (PAGE_SIZE - 1)).toNat = gpa.toNat % 2 ^ 12 := by
    rw [UInt64.toNat_and, show (PAGE_SIZE - 1).toNat = 2 ^ 12 - 1 from rfl,
      Nat.and_two_pow_sub_one_eq_mod]
  obtain ⟨k, hk⟩ := abi.address_dvd e
  rw [UInt64.toNat_or, hoffset, hk, Nat.mul_comm, show 4096 = 2 ^ 12 from rfl, ← Nat.shiftLeft_eq,
    ← Nat.shiftLeft_add_eq_or_of_lt (Nat.mod_lt _ (by decide))]

/-- The interior path of a guest-physical address. -/
def eptPath (gpa : UInt64) : List (Fin 512) := [eptPml4Index gpa, eptPdpIndex gpa, eptPdIndex gpa]

@[simp] theorem eptPath_length (gpa : UInt64) : (eptPath gpa).length = 3 := rfl

theorem tableIndex_val (shift gpa : UInt64) :
    (tableIndex shift gpa).val = gpa.toNat / 2 ^ (shift.toNat % 64) % 512 := by
  rw [tableIndex, Fin.val_ofNat, UInt64.toNat_and, UInt64.toNat_shiftRight,
    show (0x1FF : UInt64).toNat = 2 ^ 9 - 1 from rfl, Nat.and_two_pow_sub_one_eq_mod,
    Nat.shiftRight_eq_div_pow]
  exact Nat.mod_mod _ _

/-- The page of the 48-bit guest-physical space that an address is in. -/
def guestPage (gpa : UInt64) : ℕ := gpa.toNat / 4096 % 2 ^ 36

/-- Two addresses have one key exactly if their bits 47:12 agree. -/
theorem key_eq_iff (g g' : UInt64) :
    eptPath g' = eptPath g ∧ eptPtIndex g' = eptPtIndex g ↔ guestPage g' = guestPage g := by
  simp only [eptPath, List.cons.injEq, and_true, Fin.ext_iff, eptPml4Index, eptPdpIndex,
    eptPdIndex, eptPtIndex, tableIndex_val, guestPage, UInt64.reduceToNat, Nat.reduceMod]
  omega

/-- The four entries of an address lie inside their tables. -/
def EptAbi.Reaches (abi : EptAbi) (gpa : UInt64) : Prop :=
  (∀ k ∈ eptPath gpa, k.val < abi.slots) ∧ (eptPtIndex gpa).val < abi.slots

instance (abi : EptAbi) (gpa : UInt64) : Decidable (abi.Reaches gpa) := by
  unfold EptAbi.Reaches; infer_instance

theorem EptAbi.reaches_iff (abi : EptAbi) (gpa : UInt64) : abi.Reaches gpa ↔
    (eptPml4Index gpa).val < abi.slots ∧ (eptPdpIndex gpa).val < abi.slots ∧
      (eptPdIndex gpa).val < abi.slots ∧ (eptPtIndex gpa).val < abi.slots := by
  simp only [Reaches, eptPath, List.forall_mem_cons, List.not_mem_nil, false_implies,
    implies_true, and_true, and_assoc]

/-- Tables of 512 entries reach every address. -/
theorem EptAbi.reaches_of_slots {abi : EptAbi} (h : abi.slots = 512) (gpa : UInt64) :
    abi.Reaches gpa :=
  ⟨fun k _ => k.isLt.trans_eq h.symm, (Fin.isLt _).trans_eq h.symm⟩

/-! ## Lookups only read -/

/-- The same tables, at least as many of them readable. -/
def SameTables (m m' : PhysMem) : Prop :=
  (m'.tables = m.tables ∧ m'.abi = m.abi) ∧ ∀ t, m.Mapped t → m'.Mapped t

theorem SameTables.hasEntry {m m' : PhysMem} (h : SameTables m m') {table : Addr} {idx : Fin 512}
    (he : m.HasEntry table idx) : m'.HasEntry table idx :=
  ⟨h.2 table he.1, he.2.trans_eq (congrArg EptAbi.slots h.1.2.symm)⟩

theorem readEntry_readsOnly (table : Addr) (idx : Fin 512) :
    Prog.ReadsOnly SameTables (readEntry table idx) := by
  intro m m' hsame e t hrun
  have hread : Prog.wlp (readEntry table idx) (fun e t => m.HasEntry table idx ∧
      e = m.tables table idx ∧ t = m) m := by
    simp only [readEntry, Prog.wlp_bind, Prog.wlp_get, Prog.wlp_require, Prog.wlp_pure]
    exact fun hm => ⟨hm, trivial, trivial⟩
  obtain ⟨hm, rfl, rfl⟩ := hread e t hrun
  refine ⟨rfl, Prog.wp_eq_iff.mp ?_⟩
  simp only [readEntry, Prog.wp_bind, Prog.wp_get, Prog.wp_require, Prog.wp_pure]
  exact ⟨hsame.hasEntry hm, by rw [hsame.1.1], trivial⟩

theorem wp_readEntry {table : Addr} {idx : Fin 512} {Q : EptEntry → PhysMem → Prop} {m : PhysMem} :
    Prog.wp (readEntry table idx) Q m ↔ m.HasEntry table idx ∧ Q (m.tables table idx) m := by
  simp only [readEntry, Prog.wp_bind, Prog.wp_get, Prog.wp_require, Prog.wp_pure]

theorem entryAddress_run (e : EptEntry) (m : PhysMem) :
    (entryAddress e).run m = some (m.abi.address e, m) := rfl

@[simp] theorem wp_entryAddress (e : EptEntry) {Q : UInt64 → PhysMem → Prop} {m : PhysMem} :
    Prog.wp (entryAddress e) Q m ↔ Q (m.abi.address e) m := by
  simp only [entryAddress, Prog.wp_bind, Prog.wp_get, Prog.wp_pure]

@[simp] theorem wlp_entryAddress (e : EptEntry) {Q : UInt64 → PhysMem → Prop} {m : PhysMem} :
    Prog.wlp (entryAddress e) Q m ↔ Q (m.abi.address e) m := by
  simp only [entryAddress, Prog.wlp_bind, Prog.wlp_get, Prog.wlp_pure]

theorem entryAddress_readsOnly (e : EptEntry) : Prog.ReadsOnly SameTables (entryAddress e) := by
  intro m m' hsame address t hrun
  rw [entryAddress_run] at hrun
  cases hrun
  exact ⟨rfl, by rw [entryAddress_run, hsame.1.2]⟩

theorem eptLookup_readsOnly (root : Option Addr) (gpa : UInt64) :
    Prog.ReadsOnly SameTables (eptLookup root gpa) := by
  cases root with
  | none => exact .pure _
  | some pml4 =>
    refine .bind (readEntry_readsOnly _ _) fun pml4e => .ite (.pure _) ?_
    refine .bind (entryAddress_readsOnly _) fun pdpt => ?_
    refine .bind (readEntry_readsOnly _ _) fun pdpe => .ite (.pure _) ?_
    refine .bind (entryAddress_readsOnly _) fun pd => ?_
    refine .bind (readEntry_readsOnly _ _) fun pue => .ite (.pure _) (.ite (.pure _) ?_)
    refine .bind (entryAddress_readsOnly _) fun pt => ?_
    exact .bind (readEntry_readsOnly _ _) fun pte => .ite (.pure _) (.pure _)

end NexusVM
