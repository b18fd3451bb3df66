import NexusVM.Lib.Access

/-!
# Copying memory

`memcpy` and `memmove` of `utils/log.c`, on a memory of bytes.

* `memcpy`, `memmove`: the functions; `forwardLoop_copy`, `backwardLoop_copy`: their loops;
* `MovesBytes`: some bytes have been moved;
* **`memmove_moves`**: `memmove` moves bytes whether or not the two ranges overlap, and `memcpy` does so
  where it does not move them up within one range.
-/

namespace NexusVM

open Prog Access

variable {t : Accessed} {dest src n : UInt64}

/-! ## The functions -/

/-- `while (n--) *d++ = *s++` -/
def forwardLoop (d s : UInt64) : ℕ → Prog Accessed Unit
  | 0 => pure ()
  | n + 1 => do
    let c ← loadByte s
    storeByte d c
    forwardLoop (d + 1) (s + 1) n

/-- `while (n--) *--d = *--s` -/
def backwardLoop (d s : UInt64) : ℕ → Prog Accessed Unit
  | 0 => pure ()
  | n + 1 => do
    let c ← loadByte (s - 1)
    storeByte (d - 1) c
    backwardLoop (d - 1) (s - 1) n

def memcpy (dest src n : UInt64) : Prog Accessed UInt64 := do
  forwardLoop dest src n.toNat
  return dest

def memmove (dest src n : UInt64) : Prog Accessed UInt64 := do
  if dest < src then forwardLoop dest src n.toNat
  else backwardLoop (dest + n) (src + n) n.toNat
  return dest

/-! ## The loops -/

theorem forwardLoop_copy (d s : UInt64) (k : ℕ) (t : Accessed) :
    wp (forwardLoop d s k) (fun _ t' => t'.mem = Bytes.copy t.mem d s k) t := by
  induction k generalizing d s t with
  | zero => simp [forwardLoop, Bytes.copy]
  | succ k ih =>
    simp only [forwardLoop, wp_bind, wp_loadByte, wp_storeByte]
    exact ih (d + 1) (s + 1) _

theorem backwardLoop_copy (d s : UInt64) (k : ℕ) (t : Accessed) :
    wp (backwardLoop d s k) (fun _ t' => t'.mem = Bytes.copyBack t.mem d s k) t := by
  induction k generalizing d s t with
  | zero => simp [backwardLoop, Bytes.copyBack]
  | succ k ih =>
    simp only [backwardLoop, wp_bind, wp_loadByte, wp_storeByte]
    exact ih (d - 1) (s - 1) _

/-! ## What is moved -/

/-- The `n` bytes from `src` on are at `dest` now, and all others are where they were. -/
structure MovesBytes (dest src : UInt64) (n : ℕ) (m m' : Bytes) : Prop where
  moved : ∀ i < n, m' (dest + UInt64.ofNat i) = m (src + UInt64.ofNat i)
  others : ∀ x ∉ Bytes.range dest n, m' x = m x

theorem wp_memcpy (h : MovesBytes dest src n.toNat t.mem (Bytes.copy t.mem dest src n.toNat)) :
    wp (memcpy dest src n) (fun r t' => r = dest ∧ MovesBytes dest src n.toNat t.mem t'.mem) t := by
  rw [memcpy, wp_bind]
  refine wp_mono (forwardLoop_copy dest src n.toNat t) fun _ t' ht => ?_
  rw [wp_pure, ht]
  exact ⟨rfl, h⟩

theorem moves_copy_of_le (hle : dest ≤ src) (hsrc : src.toNat + n.toNat ≤ 2 ^ 64) (m : Bytes) :
    MovesBytes dest src n.toNat m (Bytes.copy m dest src n.toNat) :=
  ⟨fun _ hi => Bytes.copy_apply_of_le hi hle hsrc, fun _ hx => Bytes.copy_of_notMem hx⟩

theorem moves_copy_of_disjoint (hdis : ∀ x ∈ Bytes.range dest n.toNat, x ∉ Bytes.range src n.toNat)
    (m : Bytes) : MovesBytes dest src n.toNat m (Bytes.copy m dest src n.toNat) := by
  refine ⟨fun i hi => Bytes.copy_apply hi n.toNat_lt.le fun hmem => ?_, fun _ hx => Bytes.copy_of_notMem hx⟩
  exact hdis _ hmem ⟨i, hi, rfl⟩

theorem moves_copyBack (hle : src ≤ dest) (hdest : dest.toNat + n.toNat ≤ 2 ^ 64) (m : Bytes) :
    MovesBytes dest src n.toNat m (Bytes.copyBack m (dest + n) (src + n) n.toNat) := by
  have hn : n = UInt64.ofNat n.toNat := UInt64.ofNat_toNat.symm
  constructor
  · intro i hi
    have hmoved := Bytes.copyBack_apply (m := m) hi hle hdest
    rwa [← hn] at hmoved
  · intro x hx
    have hother : Bytes.copyBack m (dest + UInt64.ofNat n.toNat) (src + UInt64.ofNat n.toNat) n.toNat x =
        m x := Bytes.copyBack_of_notMem hx
    rwa [← hn] at hother

/-- **`memmove` moves bytes**, overlapping or not; `memcpy` does so if it moves them down, or if the two
ranges do not overlap. -/
theorem memmove_moves (hdest : dest.toNat + n.toNat ≤ 2 ^ 64) (hsrc : src.toNat + n.toNat ≤ 2 ^ 64) :
    wp (memmove dest src n) (fun r t' => r = dest ∧ MovesBytes dest src n.toNat t.mem t'.mem) t ∧
    (dest ≤ src ∨ (∀ x ∈ Bytes.range dest n.toNat, x ∉ Bytes.range src n.toNat) →
      wp (memcpy dest src n) (fun r t' => r = dest ∧ MovesBytes dest src n.toNat t.mem t'.mem) t) := by
  constructor
  · rw [memmove]
    split_ifs with hlt
    · exact wp_memcpy (moves_copy_of_le (UInt64.le_of_lt hlt) hsrc t.mem)
    · rw [wp_bind]
      refine wp_mono (backwardLoop_copy (dest + n) (src + n) n.toNat t) fun _ t' ht => ?_
      rw [wp_pure, ht]
      exact ⟨rfl, moves_copyBack (UInt64.not_lt.mp hlt) hdest t.mem⟩
  · rintro (hle | hdis)
    · exact wp_memcpy (moves_copy_of_le hle hsrc t.mem)
    · exact wp_memcpy (moves_copy_of_disjoint hdis t.mem)

/-- Four bytes are moved up by one, and down by one. -/
theorem memmove_moves_up :
    (∃ t', (memmove 0x1001 0x1000 4).run ⟨UInt64.toUInt8, [], []⟩ = some (0x1001, t') ∧
      t'.mem 0x1004 = 3 ∧ t'.mem 0x1000 = 0) ∧
    ∃ t', (memcpy 0x1000 0x1001 4).run ⟨UInt64.toUInt8, [], []⟩ = some (0x1000, t') ∧ t'.mem 0x1003 = 4 := by
  have hup : wp (memmove 0x1001 0x1000 4) _ ⟨UInt64.toUInt8, [], []⟩ :=
    (memmove_moves (by decide) (by decide)).1
  have hdown : wp (memcpy 0x1000 0x1001 4) _ ⟨UInt64.toUInt8, [], []⟩ :=
    (memmove_moves (by decide) (by decide)).2 (.inl (by decide))
  constructor
  · obtain ⟨_, t', hrun, rfl, hmoves⟩ := hup
    refine ⟨t', hrun, hmoves.moved 3 (by decide), hmoves.others 0x1000 ?_⟩
    rintro ⟨i, hi, h⟩
    have hbound : (0x1001 : UInt64).toNat + i < 2 ^ 64 :=
      Nat.lt_trans (Nat.add_lt_add_left hi _) (by decide)
    have hplace : 0x1000 = 0x1001 + i :=
      (congrArg UInt64.toNat h).trans (Bytes.toNat_add_ofNat hbound)
    omega
  · obtain ⟨_, t', hrun, rfl, hmoves⟩ := hdown
    exact ⟨t', hrun, hmoves.moved 3 (by decide)⟩

end NexusVM
