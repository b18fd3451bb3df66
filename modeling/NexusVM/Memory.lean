import NexusVM.Lib.Heap
import NexusVM.Lib.Radix
import NexusVM.Types
import Mathlib.Data.UInt
import Mathlib.Tactic.NormNum

/-!
# Host memory

The allocator of the host, and the pages it hands out: a page is read as a table of entries
by the page-table code and as bytes by everything else.

* `BlockKind`, `EptEntry`, `EptAbi`, `PhysMem`: what is allocated, table entries, what the
  compiler makes of them, and the memory;
* `entryAddress`, `readEntry`, `writeEntry`: the address in an entry, and access to a table,
  undefined outside a live allocation of pages and behind the entries that a page has room for;
* `EptAbi.address_toNat`, `frameNumber_toNat`: what the 40-bit address field stores;
* `EptAbi.span`, `EptAbi.Reaches`: the addresses that survive the field, and the guest addresses
  whose indices stay inside their tables.
-/

namespace NexusVM

/-- What a block of memory was allocated for. -/
inductive BlockKind
  | vm
  | vcpu
  | entity
  | pages
  | regions
  | eptp
  | vcpus
  | msrBitmap
  | ioBitmap
  | vmxonRegion
  | vmcsRegion
  | vmcb
  | session
  | dirtyPages
  | deviceState
  | stateBuffer
  | nestedVmx
  | nestedSvm
  | l2State
  | hypervisor
  | runqueues
  | ioHandler
  | mmioHandler
deriving DecidableEq

/-- `ept_pte_t` and the interior entries `ept_pml4e_t`, `ept_pdpe_t`, `ept_pue_t`. Bit 9 is
`access_pagesize` in the first and `big_pagesize` in the others. -/
structure EptEntry where
  present : Bool := false
  write : Bool := false
  executable : Bool := false
  memoryType : BitVec 3 := 0
  ignorePat : Bool := false
  accessed : Bool := false
  dirty : Bool := false
  bigPagesize : Bool := false
  available : BitVec 3 := 0
  physicalAddress : BitVec 40 := 0
  available2 : BitVec 12 := 0
deriving DecidableEq

/-- What the compiler makes of a table: the width in which `physical_address << 12` is computed,
and the number of entries that a page has room for. -/
structure EptAbi where
  shiftBits : ℕ
  slots : ℕ
deriving DecidableEq

/-- gcc shifts a bit-field of 40 bits in 40 bits, and an entry takes 16 bytes. -/
def EptAbi.gcc : EptAbi := ⟨40, 256⟩

/-- gcc's shift, each table being taken as 512 entries. -/
def EptAbi.full : EptAbi := ⟨40, 512⟩

/-- The host memory. -/
structure PhysMem where
  heap : Heap BlockKind
  abi : EptAbi
  /-- The entries of the page at an address; only the first `abi.slots` lie in the page. -/
  tables : Addr → Fin 512 → EptEntry
  /-- The bytes of guest memory. -/
  ram : Addr → UInt8

abbrev MemM : Type → Type := Prog PhysMem

/-! ## Addresses in entries -/

/-- `physical_address << 12` -/
def EptAbi.address (abi : EptAbi) (e : EptEntry) : UInt64 :=
  UInt64.ofNat ((e.physicalAddress.toNat <<< PAGE_SHIFT.toNat) % 2 ^ abi.shiftBits)

/-- `physical_address << 12`, as the compiler of this memory computes it. -/
def entryAddress (e : EptEntry) : MemM UInt64 := do
  let m ← get
  return m.abi.address e

/-- `(phys >> 12) & 0xFFFFFFFFFF` -/
def frameNumber (phys : UInt64) : BitVec 40 :=
  BitVec.ofNat 40 ((phys >>> PAGE_SHIFT) &&& 0xFFFFFFFFFF).toNat

theorem EptAbi.address_toNat (abi : EptAbi) (e : EptEntry) :
    (abi.address e).toNat = e.physicalAddress.toNat * 4096 % 2 ^ abi.shiftBits := by
  have h := e.physicalAddress.isLt
  rw [address, show PAGE_SHIFT.toNat = 12 from rfl, Nat.shiftLeft_eq, UInt64.toNat_ofNat']
  exact Nat.mod_eq_of_lt ((Nat.mod_le _ _).trans_lt (by omega))

theorem EptAbi.address_dvd (abi : EptAbi) (e : EptEntry) : 4096 ∣ (abi.address e).toNat := by
  rw [address_toNat]
  rcases Nat.le_total 12 abi.shiftBits with h | h
  · exact (Nat.dvd_mod_iff (pow_dvd_pow 2 h)).mpr (Nat.dvd_mul_left _ _)
  · have hd : 2 ^ abi.shiftBits ∣ e.physicalAddress.toNat * 4096 :=
      Dvd.dvd.mul_left (pow_dvd_pow 2 h) _
    rw [Nat.mod_eq_zero_of_dvd hd]
    exact Nat.dvd_zero _

/-- The host addresses that an entry can hold. -/
def EptAbi.span (abi : EptAbi) : ℕ := min (2 ^ 52) (2 ^ abi.shiftBits)

theorem EptAbi.span_le (abi : EptAbi) : abi.span ≤ 2 ^ 52 := Nat.min_le_left _ _

theorem EptAbi.span_lt (abi : EptAbi) : abi.span < 2 ^ 64 := abi.span_le.trans_lt (by decide)

theorem frameNumber_toNat (phys : UInt64) :
    (frameNumber phys).toNat = phys.toNat / 4096 % 2 ^ 40 := by
  rw [frameNumber, BitVec.toNat_ofNat, UInt64.toNat_and, UInt64.toNat_shiftRight,
    show (0xFFFFFFFFFF : UInt64).toNat = 2 ^ 40 - 1 from rfl, Nat.and_two_pow_sub_one_eq_mod,
    show PAGE_SHIFT.toNat % 64 = 12 from rfl, Nat.shiftRight_eq_div_pow, Nat.mod_mod]

/-- A page address inside the span survives the field. -/
theorem address_frameNumber {abi : EptAbi} {e : EptEntry} {a : ℕ}
    (he : e.physicalAddress = frameNumber (UInt64.ofNat a)) (hd : 4096 ∣ a) (ha : a < abi.span) :
    (abi.address e).toNat = a := by
  have h52 : a < 2 ^ 52 := ha.trans_le abi.span_le
  have hshift : a < 2 ^ abi.shiftBits := ha.trans_le (Nat.min_le_right _ _)
  obtain ⟨k, rfl⟩ := hd
  have hk : 4096 * k / 4096 % 2 ^ 40 * 4096 = 4096 * k := by omega
  rw [EptAbi.address_toNat, he, frameNumber_toNat, UInt64.toNat_ofNat',
    Nat.mod_eq_of_lt (show 4096 * k < 2 ^ 64 by omega), hk, Nat.mod_eq_of_lt hshift]

/-! ## Access to pages -/

/-- The page at `a` lies in a live allocation of pages. -/
def PhysMem.Mapped (m : PhysMem) (a : Addr) : Prop :=
  ∃ b ∈ m.heap.live, b.kind = .pages ∧ b.base ≤ a ∧ a + 4096 ≤ b.base + b.size

instance (m : PhysMem) (a : Addr) : Decidable (m.Mapped a) := by
  unfold PhysMem.Mapped; infer_instance

/-- Entry `idx` of the table at `table` lies in a live allocation of pages. -/
def PhysMem.HasEntry (m : PhysMem) (table : Addr) (idx : Fin 512) : Prop :=
  m.Mapped table ∧ idx.val < m.abi.slots

instance (m : PhysMem) (table : Addr) (idx : Fin 512) : Decidable (m.HasEntry table idx) := by
  unfold PhysMem.HasEntry; infer_instance

/-- Entry `idx` of the table at `table`. -/
def readEntry (table : Addr) (idx : Fin 512) : MemM EptEntry := do
  let m ← get
  Prog.require (m.HasEntry table idx)
  return m.tables table idx

/-- Store entry `idx` of the table at `table`. -/
def writeEntry (table : Addr) (idx : Fin 512) (e : EptEntry) : MemM Unit := do
  let m ← get
  Prog.require (m.HasEntry table idx)
  set { m with tables := Radix.store m.tables table idx e }

/-- Fill `size` bytes from `a` on with zeros. -/
def PhysMem.zero (m : PhysMem) (a : Addr) (size : ℕ) : PhysMem :=
  { m with
    tables := fun t i => if a ≤ t ∧ t < a + size then {} else m.tables t i
    ram := fun b => if a ≤ b ∧ b < a + size then 0 else m.ram b }

@[simp] theorem PhysMem.zero_heap (m : PhysMem) (a : Addr) (size : ℕ) :
    (m.zero a size).heap = m.heap := rfl

@[simp] theorem PhysMem.zero_abi (m : PhysMem) (a : Addr) (size : ℕ) :
    (m.zero a size).abi = m.abi := rfl

theorem PhysMem.zero_tables_of_lt (m : PhysMem) {a size t : ℕ} (ht : a ≤ t) (hs : t < a + size) :
    (m.zero a size).tables t = fun _ => {} := by
  funext i
  exact if_pos ⟨ht, hs⟩

theorem PhysMem.zero_tables_of_not (m : PhysMem) {a size t : ℕ} (h : ¬ (a ≤ t ∧ t < a + size)) :
    (m.zero a size).tables t = m.tables t := by
  funext i
  exact if_neg h

/-! ## Requests to the allocator -/

def onHeap {α : Type} (x : Prog (Heap BlockKind) α) : MemM α :=
  Prog.zoom PhysMem.heap (fun m h => { m with heap := h }) x

/-- `aligned_alloc` -/
def alignedAlloc (kind : BlockKind) (align size : ℕ) : MemM (Option Addr) :=
  onHeap (Heap.alloc kind align size)

/-- `free` of a pointer that is not `NULL` -/
def freeBlock (kind : BlockKind) (a : Addr) : MemM Unit :=
  modify fun m => { m with heap := m.heap.release kind a }

/-- An allocator that serves every request, each time 16384 bytes further on. -/
def bumpHeap : Heap BlockKind where
  live := []
  answer n := some ((n + 1) * 16384)
  limit := 2 ^ 40
  asked := 0
  refused := 0
  badFrees := 0

/-- Memory from which one block after the other is handed out. -/
structure Bumps (h : Heap BlockKind) : Prop where
  answer : h.answer = bumpHeap.answer
  below : ∀ b ∈ h.live, b.base < 16384 * (h.asked + 1) ∧ b.base + b.size ≤ 16384 * (h.asked + 1)

theorem Bumps.answers {h : Heap BlockKind} (hb : Bumps h) :
    h.answer h.asked = some (16384 * (h.asked + 1)) := by
  rw [hb.answer, Nat.mul_comm]
  rfl

theorem Bumps.fits {h : Heap BlockKind} (hb : Bumps h) {size : ℕ} (hs : size ≤ 16384)
    (hroom : 16384 * (h.asked + 2) ≤ h.limit) :
    h.Fits 4096 ⟨.pages, 16384 * (h.asked + 1), size⟩ := by
  refine ⟨by simp, ⟨4 * (h.asked + 1), by dsimp only; omega⟩, ?_, fun c hc => ?_⟩
  · dsimp only
    omega
  · obtain ⟨hlt, hle⟩ := hb.below c hc
    exact ⟨hlt.ne', .inr hle⟩

theorem Bumps.grant {h : Heap BlockKind} (hb : Bumps h) {size : ℕ} (hs : size ≤ 16384) :
    Bumps (h.grant ⟨.pages, 16384 * (h.asked + 1), size⟩) := by
  refine ⟨hb.answer, fun c hc => ?_⟩
  rw [Heap.grant_live, List.mem_cons] at hc
  change c.base < 16384 * (h.asked + 1 + 1) ∧ c.base + c.size ≤ 16384 * (h.asked + 1 + 1)
  rcases hc with rfl | hc
  · dsimp only
    omega
  · have := hb.below c hc
    omega

theorem Bumps.serves {h : Heap BlockKind} (hb : Bumps h) {n : ℕ}
    (hroom : 16384 * (h.asked + n + 1) ≤ h.limit) : h.Serves .pages 4096 4096 n := by
  induction n generalizing h with
  | zero => trivial
  | succ n ih =>
    refine ⟨_, hb.answers, hb.fits (by decide) (by omega), ih (hb.grant (by decide)) ?_⟩
    change 16384 * (h.asked + 1 + n + 1) ≤ h.limit
    omega

/-- An empty memory with that allocator. -/
def bumpMem : PhysMem where
  heap := bumpHeap
  abi := .full
  tables _ _ := {}
  ram _ := 0

end NexusVM
