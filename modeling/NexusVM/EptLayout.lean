import NexusVM.Lib.BitField
import NexusVM.Ept

/-!
# The layout of table entries

The bit-field structs of `types.h` that a table holds, in 64-bit units, and the place of the
entries that a walk uses in their 4096-byte pages.

* `eptPte`, `eptPue`, `eptPdpe`, `eptPml4e`: the declarations, 65 bits each;
* `EntriesInside`, `OneWord`: the entries of a walk are in their pages; an entry is one word;
* `cast_fields`, `extract_physicalAddress`: the address field is one bit above where its comment puts it;
* **`entries_inside_iff`**, **`ept_entries_fit_iff`**: which walks stay inside their pages.
-/

namespace NexusVM

open BitField

/-- The names of the fields. -/
inductive EptField
  | present
  | write
  | executable
  | memoryType
  | ignorePat
  | accessed
  | dirty
  | accessPagesize
  | bigPagesize
  | global
  | available
  | physicalAddress
  | available2
deriving DecidableEq

abbrev EptStruct : Type := List (EptField × ℕ)

/-- `ept_pte_t` -/
def eptPte : EptStruct :=
  [(.present, 1), (.write, 1), (.executable, 1), (.memoryType, 3), (.ignorePat, 1), (.accessed, 1),
    (.dirty, 1), (.accessPagesize, 1), (.global, 1), (.available, 2), (.physicalAddress, 40),
    (.available2, 12)]

/-- The entries of the other levels are declared alike. -/
def eptInterior : EptStruct :=
  [(.present, 1), (.write, 1), (.executable, 1), (.memoryType, 3), (.ignorePat, 1), (.accessed, 1),
    (.dirty, 1), (.bigPagesize, 1), (.available, 3), (.physicalAddress, 40), (.available2, 12)]

/-- `ept_pme_t` -/
def eptPme : EptStruct := eptInterior
/-- `ept_pue_t` -/
def eptPue : EptStruct := eptInterior
/-- `ept_pdpe_t` -/
def eptPdpe : EptStruct := eptInterior
/-- `ept_pml4e_t` -/
def eptPml4e : EptStruct := eptInterior

def eptStructs : List EptStruct := [eptPte, eptPme, eptPue, eptPdpe, eptPml4e]

/-- The fields of an entry, in the units of a `u64`. -/
def EptStruct.fields (ds : EptStruct) : List (Slot EptField) := layout 64 0 ds

/-- `sizeof` -/
def EptStruct.sizeof (ds : EptStruct) : ℕ := 8 * size 64 ds

/-- The bits of an entry whose fields have the values `v`. -/
def EptStruct.bits (ds : EptStruct) (v : EptField → ℕ) : ℕ := pack v ds.fields

/-- The four entries that `ept_map` and `ept_lookup` use for an address. -/
def walkEntries (gpa : UInt64) : List (EptStruct × Fin 512) :=
  [(eptPml4e, eptPml4Index gpa), (eptPdpe, eptPdpIndex gpa), (eptPue, eptPdIndex gpa),
    (eptPte, eptPtIndex gpa)]

/-- These entries lie inside the page that their table was allocated as. -/
def EntriesInside (gpa : UInt64) : Prop :=
  ∀ e ∈ walkEntries gpa, (e.2.val + 1) * e.1.sizeof ≤ PAGE_SIZE.toNat

/-- An entry is one 64-bit word with the address field at bits 51:12. -/
def OneWord (ds : EptStruct) (v : EptField → ℕ) : Prop :=
  ds.sizeof = 8 ∧ extract (ds.bits v) 12 40 = v .physicalAddress

/-! ## Layout -/

/-- An entry takes two words: it declares 65 bits. -/
theorem EptStruct.sizeof_ne (ds : EptStruct) (hds : ds ∈ eptStructs) : ds.sizeof ≠ 8 := by
  have hsum : ∀ ds ∈ eptStructs, 64 < (ds.map Prod.snd).sum := by decide
  have hsize := one_lt_size (by decide) (hsum ds hds)
  unfold EptStruct.sizeof
  omega

theorem EptStruct.sizeof_eq : ∀ ds ∈ eptStructs, ds.sizeof = 16 := by decide

/-- What the declarations say of the number of entries in a page and of the width of the address. -/
theorem EptAbi.gcc_declared : ∀ ds ∈ eptStructs, EptAbi.gcc.slots * ds.sizeof = PAGE_SIZE.toNat ∧
    (.physicalAddress, EptAbi.gcc.shiftBits) ∈ ds := by
  decide

/-- The fields that are set through a pointer to an `ept_pte_t` are at the same bits in the entries
of every level. -/
theorem cast_fields : ∀ ds ∈ eptStructs,
    (ds.fields.filter fun f => f.name ∈ [EptField.present, .write, .executable, .memoryType,
      .physicalAddress]) = [⟨.present, 0, 1⟩, ⟨.write, 1, 1⟩, ⟨.executable, 2, 1⟩,
      ⟨.memoryType, 3, 3⟩, ⟨.physicalAddress, 13, 40⟩] := by
  decide

/-- **The address field** is at bits 52:13. -/
theorem extract_physicalAddress {ds : EptStruct} (hds : ds ∈ eptStructs) {v : EptField → ℕ}
    (hv : Fits v ds) : extract (ds.bits v) 13 40 = v .physicalAddress := by
  have hplace : ⟨.physicalAddress, 13, 40⟩ ∈ ds.fields := by
    apply List.mem_of_mem_filter
    rw [cast_fields ds hds]
    decide
  exact pack_extract (show 0 < 64 by decide) hv hplace

/-! ## Places in pages -/

theorem entry_inside_iff {ds : EptStruct} (hds : ds ∈ eptStructs) (k : Fin 512) :
    (k.val + 1) * ds.sizeof ≤ PAGE_SIZE.toNat ↔ k.val < 256 := by
  rw [EptStruct.sizeof_eq ds hds, show PAGE_SIZE.toNat = 4096 from rfl]
  omega

/-- The upper half of a table is behind its page. -/
theorem tableIndex_lt_iff (shift gpa : UInt64) :
    (tableIndex shift gpa).val < 256 ↔ gpa.toNat.testBit (shift.toNat % 64 + 8) = false := by
  rw [tableIndex_val, Nat.testBit_eq_decide_div_mod_eq, decide_eq_false_iff_not, Nat.pow_add,
    ← Nat.div_div_eq_div_mul]
  omega

/-- **The walks that stay inside their pages.** -/
theorem entries_inside_iff (gpa : UInt64) : EntriesInside gpa ↔
    gpa.toNat.testBit 47 = false ∧ gpa.toNat.testBit 38 = false ∧
      gpa.toNat.testBit 29 = false ∧ gpa.toNat.testBit 20 = false := by
  have hmem : eptPml4e ∈ eptStructs ∧ eptPdpe ∈ eptStructs ∧ eptPue ∈ eptStructs ∧
    eptPte ∈ eptStructs := by decide
  simp only [EntriesInside, walkEntries, List.forall_mem_cons, List.not_mem_nil, false_imp_iff,
    implies_true, and_true]
  rw [entry_inside_iff hmem.1, entry_inside_iff hmem.2.1, entry_inside_iff hmem.2.2.1,
    entry_inside_iff hmem.2.2.2, eptPml4Index, eptPdpIndex, eptPdIndex, eptPtIndex,
    tableIndex_lt_iff, tableIndex_lt_iff, tableIndex_lt_iff, tableIndex_lt_iff]
  exact Iff.rfl

/-- **Entries do not fit.** A walk stays inside its table pages just if the bits 47, 38, 29 and 20
of the address are clear, and no entry of any level is one word, whatever its fields are: the address field
is at bits 52:13. -/
theorem ept_entries_fit_iff (gpa : UInt64) (v : EptField → ℕ) :
    (EntriesInside gpa ↔ gpa.toNat.testBit 47 = false ∧ gpa.toNat.testBit 38 = false ∧
      gpa.toNat.testBit 29 = false ∧ gpa.toNat.testBit 20 = false) ∧
    (∀ ds ∈ eptStructs, ¬ OneWord ds v) ∧
    ∀ ds ∈ eptStructs, Fits v ds → extract (ds.bits v) 13 40 = v .physicalAddress :=
  ⟨entries_inside_iff gpa, fun ds hds h => ds.sizeof_ne hds h.1, fun _ hds hv => extract_physicalAddress hds hv⟩

theorem ept_entries_fit_iff_low : EntriesInside 0 ∧ ¬ OneWord eptPte (fun _ => 1) ∧
    extract (eptPte.bits fun _ => 1) 13 40 = 1 :=
  ⟨(ept_entries_fit_iff 0 fun _ => 1).1.mpr (by decide),
    (ept_entries_fit_iff 0 fun _ => 1).2.1 eptPte (by decide),
    (ept_entries_fit_iff 0 fun _ => 1).2.2 eptPte (by decide) (by
      have hwide : ∀ d ∈ eptPte, 1 < 2 ^ d.2 := by decide
      exact hwide)⟩

/-- The last-level entry of the address `0x100000` is the first one behind its page, and the
address field of an entry with frame 1 is not read back from bits 51:12. -/
theorem entry_behind_page : ¬ EntriesInside 0x100000 ∧ eptPtIndex 0x100000 = 256 ∧
    eptPte.sizeof * 256 = PAGE_SIZE.toNat ∧
    extract (eptPte.bits fun f => if f = .physicalAddress then 1 else 0) 12 40 = 2 := by
  refine ⟨?_, by decide, by decide, by decide +kernel⟩
  rw [entries_inside_iff]
  decide

end NexusVM
