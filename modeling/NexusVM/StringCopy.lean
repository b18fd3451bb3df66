import NexusVM.Lib.Access
import NexusVM.Utils

/-!
# Copying strings

`strncpy` of `utils/log.c`, on a memory of bytes.

* `CString.strncpy`: the function; `padLoop_spec`, `strncpyLoop_writes`: what its loops write;
* **`CString.strncpy_refines`**: within the buffers, `CString.strncpy` is `strncpy` on their bytes;
* **`CString.strncpy_never_fills`**: it never writes the buffer it is given, the whole buffer, and nothing else.
-/

namespace NexusVM

open Prog Access

variable {t : Accessed} {p src : UInt64}

namespace CString

/-! ## The function -/

/-- `while (n--) *p++ = '\0'` -/
def padLoop (p : UInt64) : ℕ → Prog Accessed Unit
  | 0 => pure ()
  | n + 1 => do
    storeByte p 0
    padLoop (p + 1) n

/-- The first loop of `strncpy` and what follows it. -/
def strncpyLoop (p src : UInt64) : ℕ → Prog Accessed Unit
  -- `n--` has wrapped round
  | 0 => padLoop p (0 - 1 : UInt64).toNat
  | n + 1 => do
    if (← loadByte src) = 0 then padLoop p n
    else
      storeByte p (← loadByte src)
      strncpyLoop (p + 1) (src + 1) n

def strncpy (dest src n : UInt64) : Prog Accessed UInt64 := do
  strncpyLoop dest src n.toNat
  return dest

/-! ## What is written -/

theorem padLoop_spec (p : UInt64) {n : ℕ} (hn : n < 2 ^ 64) (t : Accessed) :
    wp (padLoop p n) (fun _ t' => t'.writes = t.writes ++ Bytes.addresses p n ∧
      (∀ x ∈ Bytes.range p n, t'.mem x = 0) ∧ ∀ x ∉ Bytes.range p n, t'.mem x = t.mem x) t := by
  induction n generalizing p t with
  | zero =>
    rw [padLoop, wp_pure]
    refine ⟨(List.append_nil _).symm, fun x hx => ?_, fun _ _ => rfl⟩
    obtain ⟨i, hi, -⟩ := hx
    omega
  | succ n ih =>
    rw [padLoop, wp_bind, wp_storeByte]
    refine wp_mono (ih (p + 1) (by omega) _) ?_
    rintro _ t' ⟨hwrites, hin, hout⟩
    refine ⟨?_, fun x hx => ?_, fun x hx => ?_⟩
    · rw [hwrites, Accessed.write_writes, List.append_assoc]
      rfl
    · rcases Bytes.mem_range_succ.mp hx with rfl | hx
      · rw [hout x (Bytes.notMem_range_succ (by omega)), Accessed.write_mem, Function.update_self]
      · exact hin x hx
    · rw [Bytes.mem_range_succ, not_or] at hx
      rw [hout x hx.2, Accessed.write_mem, Function.update_of_ne hx.1]

/-- **What `strncpy` writes**: all bytes of the buffer but the last one, or the whole buffer and then the
rest of the address space. -/
theorem strncpyLoop_writes (p src : UInt64) {n : ℕ} (hn : n < 2 ^ 64) (t : Accessed) :
    wp (strncpyLoop p src n) (fun _ t' =>
      0 < n ∧ t'.writes = t.writes ++ Bytes.addresses p (n - 1) ∨
      t'.writes = t.writes ++ Bytes.addresses p (n + (2 ^ 64 - 1))) t := by
  induction n generalizing p src t with
  | zero =>
    refine wp_mono (padLoop_spec p (by decide) t) fun _ t' ht => .inr ?_
    rw [Nat.zero_add]
    exact ht.1
  | succ n ih =>
    rw [strncpyLoop, wp_bind, wp_loadByte]
    split_ifs with hnul
    · exact wp_mono (padLoop_spec p (by omega) _) fun _ t' ht => .inl ⟨n.succ_pos, ht.1⟩
    · rw [wp_bind, wp_loadByte, wp_bind, wp_storeByte]
      refine wp_mono (ih (p + 1) (src + 1) (by omega) _) ?_
      have hcons : ∀ k, t.writes ++ [p] ++ Bytes.addresses (p + 1) k = t.writes ++ Bytes.addresses p (k + 1) :=
        fun k => List.append_assoc _ _ _
      rintro _ t' (⟨hpos, hwrites⟩ | hwrites)
      · refine .inl ⟨n.succ_pos, hwrites.trans ((hcons _).trans ?_)⟩
        rw [Nat.sub_add_cancel hpos, Nat.add_sub_cancel]
      · refine .inr (hwrites.trans ((hcons _).trans ?_))
        rw [Nat.add_right_comm]

/-! ## Buffers -/

theorem padLoop_refines {k n : ℕ} {ys : List UInt8} (hk : k < 2 ^ 64)
    (h : strncpyPad (Bytes.read t.mem p k) n = some ys) :
    wp (padLoop p n) (fun _ t' => Bytes.read t'.mem p k = ys ∧
      ∀ x ∉ Bytes.range p k, t'.mem x = t.mem x) t := by
  rw [strncpyPad, Bytes.length_read] at h
  split_ifs at h with hn
  cases h
  refine wp_mono (padLoop_spec p (by omega) t) ?_
  rintro _ t' ⟨-, hin, hout⟩
  constructor
  · ext i : 1
    by_cases hi : i < k
    · rw [Bytes.getElem?_read hi]
      by_cases hin' : i < n
      · rw [hin _ ⟨i, hin', rfl⟩, List.getElem?_append_left (by simpa using hin')]
        simp [hin']
      · have hplace : n + (i - n) = i := by omega
        have hne : p + UInt64.ofNat i ∉ Bytes.range p n := by
          rintro ⟨j, hj, hij⟩
          have := Bytes.offset_inj (by omega) (by omega) hij
          omega
        rw [hout _ hne, List.getElem?_append_right (by simpa using hin'), List.length_replicate,
          List.getElem?_drop, hplace, Bytes.getElem?_read hi]
    · rw [List.getElem?_eq_none (by simpa using hi), List.getElem?_eq_none]
      rw [List.length_append, List.length_replicate, List.length_drop, Bytes.length_read]
      omega
  · intro x hx
    apply hout x
    rintro ⟨i, hi, h⟩
    exact hx ⟨i, by omega, h⟩

/-- **Within two buffers** that do not overlap, the copy is the one of their bytes. -/
theorem strncpyLoop_refines {k l n : ℕ} {ys : List UInt8} (hk : k < 2 ^ 64)
    (hdis : ∀ x ∈ Bytes.range p k, x ∉ Bytes.range src l)
    (h : NexusVM.strncpy (Bytes.read t.mem p k) (Bytes.read t.mem src l) n = some ys) :
    wp (strncpyLoop p src n) (fun _ t' => Bytes.read t'.mem p k = ys ∧
      ∀ x ∉ Bytes.range p k, t'.mem x = t.mem x) t := by
  induction n generalizing p src k l ys t with
  | zero =>
    rw [NexusVM.strncpy] at h
    exact padLoop_refines hk h
  | succ n ih =>
    cases l with
    | zero => cases k <;> cases h
    | succ l =>
      rw [strncpyLoop, wp_bind, wp_loadByte]
      cases k with
      | zero =>
        rw [Bytes.read, Bytes.read, NexusVM.strncpy] at h
        split_ifs at h with hnul
        rw [if_pos hnul]
        exact padLoop_refines (t := t.read src) hk h
      | succ k =>
        rw [Bytes.read, Bytes.read, NexusVM.strncpy] at h
        split_ifs at h with hnul
        · rw [if_pos hnul]
          exact padLoop_refines (t := t.read src) hk h
        · obtain ⟨ys, hys, rfl⟩ := Option.map_eq_some_iff.mp h
          rw [if_neg hnul, wp_bind, wp_loadByte, wp_bind, wp_storeByte]
          have hp : p ∉ Bytes.range (p + 1) k := Bytes.notMem_range_succ (by omega)
          have hpsrc : p ∉ Bytes.range (src + 1) l := fun hx =>
            hdis p (Bytes.mem_range_succ.mpr (.inl rfl)) (Bytes.mem_range_succ.mpr (.inr hx))
          rw [← Bytes.read_update_of_notMem t.mem (t.mem src) hp,
            ← Bytes.read_update_of_notMem t.mem (t.mem src) hpsrc] at hys
          have hrest : ∀ x ∈ Bytes.range (p + 1) k, x ∉ Bytes.range (src + 1) l := fun x hx hx' =>
            hdis x (Bytes.mem_range_succ.mpr (.inr hx)) (Bytes.mem_range_succ.mpr (.inr hx'))
          refine wp_mono (ih (t := ((t.read src).read src).write p (t.mem src)) (by omega) hrest hys) ?_
          rintro _ t' ⟨hread, hframe⟩
          refine ⟨?_, fun x hx => ?_⟩
          · rw [Bytes.read, hread, hframe p hp, Accessed.write_mem, Function.update_self]
          · rw [Bytes.mem_range_succ, not_or] at hx
            rw [hframe x hx.2, Accessed.write_mem, Function.update_of_ne hx.1]
            rfl

/-- **Within two buffers** that do not overlap, the copy is the one of their bytes. -/
theorem strncpy_refines {dest n : UInt64} {k l : ℕ} {ys : List UInt8} (hk : k < 2 ^ 64)
    (hdis : ∀ x ∈ Bytes.range dest k, x ∉ Bytes.range src l)
    (h : NexusVM.strncpy (Bytes.read t.mem dest k) (Bytes.read t.mem src l) n.toNat = some ys) :
    wp (strncpy dest src n) (fun r t' => r = dest ∧ Bytes.read t'.mem dest k = ys ∧
      ∀ x ∉ Bytes.range dest k, t'.mem x = t.mem x) t := by
  rw [strncpy, wp_bind]
  refine wp_mono (strncpyLoop_refines hk hdis h) fun _ t' ht => ?_
  rw [wp_pure]
  exact ⟨rfl, ht⟩

/-! ## Filling a buffer -/

/-- The buffer of `n` bytes has been written, and no other byte: it has the string, cut off at its end
or with NULs behind it. -/
structure Fills (dest : UInt64) (n : ℕ) (xs : List UInt8) (t' : Accessed) : Prop where
  written : ∀ x, x ∈ t'.writes ↔ x ∈ Bytes.range dest n
  string : ∀ i < n, t'.mem (dest + UInt64.ofNat i) = xs.getD i 0

/-- **`strncpy` fills no buffer**: whatever string it copies, it leaves out the last byte, or does not stop
there. -/
theorem strncpy_never_fills (m : Bytes) (dest src n : UInt64) (xs : List UInt8) :
    ¬ wp (strncpy dest src n) (fun _ t' => Fills dest n.toNat xs t') ⟨m, [], []⟩ := by
  intro h
  have hn := n.toNat_lt
  obtain ⟨_, t', hrun, hwrites⟩ := strncpyLoop_writes dest src hn ⟨m, [], []⟩
  rw [strncpy, wp_bind] at h
  have hfills := wp_run h hrun
  rw [wp_pure] at hfills
  have hin := hfills.written
  rcases hwrites with ⟨hpos, hwrites⟩ | hwrites
  · -- the last byte
    have hlast : dest + UInt64.ofNat (n.toNat - 1) ∈ Bytes.range dest n.toNat := ⟨_, by omega, rfl⟩
    rw [← hin, hwrites, List.nil_append, Bytes.mem_addresses] at hlast
    exact Bytes.notMem_range_end (by omega) hlast
  · -- the byte behind the buffer
    have hnext : dest + UInt64.ofNat n.toNat ∈ t'.writes := by
      rw [hwrites, List.nil_append, Bytes.mem_addresses]
      exact ⟨_, by omega, rfl⟩
    exact Bytes.notMem_range_end hn ((hin _).mp hnext)

/-- Two characters and three NULs for a buffer of five bytes: the last one is not written. -/
theorem strncpy_leaves_last_byte :
    IsString (fun a => [0x76, 0x6D].getD (a - 0x2000).toNat 0) 0x2000 [0x76, 0x6D] ∧
    ¬ wp (strncpy 0x1000 0x2000 5) (fun _ t' => Fills 0x1000 5 [0x76, 0x6D] t')
      ⟨fun a => [0x76, 0x6D].getD (a - 0x2000).toNat 0, [], []⟩ := by
  refine ⟨⟨rfl, by decide, rfl, by decide, rfl⟩, fun h => ?_⟩
  have hrun : ((strncpy 0x1000 0x2000 5).run
      ⟨fun a => [0x76, 0x6D].getD (a - 0x2000).toNat 0, [], []⟩).any (fun r =>
        r.2.writes = [0x1000, 0x1001, 0x1002, 0x1003]) = true := by decide +kernel
  obtain ⟨⟨r, t'⟩, hrun, hwrites⟩ := (Option.any_eq_true _ _).mp hrun
  rw [decide_eq_true_eq] at hwrites
  have hlast := ((wp_run h hrun).written 0x1004).mpr ⟨4, by decide, rfl⟩
  rw [hwrites] at hlast
  exact absurd hlast (by decide)

end CString

end NexusVM
