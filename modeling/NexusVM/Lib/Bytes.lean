import Mathlib.Data.Set.Insert
import Mathlib.Data.UInt
import Mathlib.Logic.Function.Basic

/-!
# A flat memory of bytes

* `range`, `addresses`: the addresses of a record, which may wrap round the end of the address space;
* `copy`: the forward byte loop, with `copy_of_notMem`, `copy_agree`, `copy_const`, `copy_apply`;
* `copyBack`: the backward byte loop; **`copy_apply_of_le`**, **`copyBack_apply`**: the two loops move bytes
  to lower and to higher addresses, overlapping or not;
* `read`: the bytes of a record;
* `load`, `store`: little-endian integers, with `load_agree`, `load_injective`, `load_store`.
-/

/-- The bytes of a 64-bit address space. -/
abbrev Bytes : Type := UInt64 → UInt8

namespace Bytes

variable {m m' : Bytes} {a dest src x : UInt64} {n : ℕ}

/-- The `n` addresses from `a` on. -/
def range (a : UInt64) (n : ℕ) : Set UInt64 := {x | ∃ i < n, x = a + UInt64.ofNat i}

/-- Copy bytes one by one, first to last. -/
def copy (m : Bytes) (dest src : UInt64) : ℕ → Bytes
  | 0 => m
  | n + 1 => copy (Function.update m dest (m src)) (dest + 1) (src + 1) n

/-- Copy bytes one by one, last to first; the pointers are behind the bytes. -/
def copyBack (m : Bytes) (dest src : UInt64) : ℕ → Bytes
  | 0 => m
  | n + 1 => copyBack (Function.update m (dest - 1) (m (src - 1))) (dest - 1) (src - 1) n

/-- The `n` addresses from `a` on, in order. -/
def addresses (a : UInt64) : ℕ → List UInt64
  | 0 => []
  | n + 1 => a :: addresses (a + 1) n

/-- The `n` bytes from `a` on. -/
def read (m : Bytes) (a : UInt64) : ℕ → List UInt8
  | 0 => []
  | n + 1 => m a :: read m (a + 1) n

/-- The little-endian integer of `n` bytes. -/
def load (m : Bytes) (a : UInt64) : ℕ → ℕ
  | 0 => 0
  | n + 1 => (m a).toNat + 256 * load m (a + 1) n

/-- Store a little-endian integer of `n` bytes. -/
def store (m : Bytes) (a : UInt64) : ℕ → ℕ → Bytes
  | 0, _ => m
  | n + 1, v => Function.update (store m (a + 1) n (v / 256)) a (UInt8.ofNat v)

/-- Two memories have the same bytes at some addresses. -/
def Agree (s : Set UInt64) (m m' : Bytes) : Prop := ∀ x ∈ s, m x = m' x

/-! ## Ranges -/

theorem add_ofNat_succ (a : UInt64) (i : ℕ) : a + UInt64.ofNat (i + 1) = a + 1 + UInt64.ofNat i := by
  rw [UInt64.ofNat_add, UInt64.add_assoc, UInt64.add_comm (UInt64.ofNat i)]
  rfl

theorem mem_range_succ : x ∈ range a (n + 1) ↔ x = a ∨ x ∈ range (a + 1) n := by
  constructor
  · rintro ⟨i, hi, rfl⟩
    cases i with
    | zero => exact .inl (UInt64.add_zero a)
    | succ i =>
      exact .inr ⟨i, by omega, add_ofNat_succ a i⟩
  · rintro (rfl | ⟨i, hi, rfl⟩)
    · exact ⟨0, by omega, (UInt64.add_zero x).symm⟩
    · exact ⟨i + 1, by omega, (add_ofNat_succ a i).symm⟩

theorem range_offset {off size : ℕ} (h : off + n ≤ size) :
    range (a + UInt64.ofNat off) n ⊆ range a size := by
  rintro x ⟨i, hi, rfl⟩
  exact ⟨off + i, by omega, by rw [UInt64.ofNat_add, UInt64.add_assoc]⟩

theorem offset_inj {i j : ℕ} (hi : i < 2 ^ 64) (hj : j < 2 ^ 64)
    (h : a + UInt64.ofNat i = a + UInt64.ofNat j) : i = j := by
  have h' := congrArg UInt64.toNat ((UInt64.add_right_inj a).mp h)
  rwa [UInt64.toNat_ofNat', UInt64.toNat_ofNat', Nat.mod_eq_of_lt hi, Nat.mod_eq_of_lt hj] at h'

theorem notMem_range_succ (hn : n < 2 ^ 64) : a ∉ range (a + 1) n := by
  rintro ⟨i, hi, h⟩
  have h' : a + UInt64.ofNat 0 = a + UInt64.ofNat (1 + i) := by
    rw [UInt64.ofNat_add, ← UInt64.add_assoc]
    exact (UInt64.add_zero a).trans h
  have := offset_inj (by decide) (by omega) h'
  omega

theorem mem_addresses : x ∈ addresses a n ↔ x ∈ range a n := by
  induction n generalizing a with
  | zero => simp [addresses, range]
  | succ n ih => rw [addresses, List.mem_cons, ih, mem_range_succ]

theorem toNat_add_ofNat {i : ℕ} (h : a.toNat + i < 2 ^ 64) : (a + UInt64.ofNat i).toNat = a.toNat + i := by
  rw [UInt64.toNat_add, UInt64.toNat_ofNat', Nat.mod_eq_of_lt (Nat.lt_of_le_of_lt (Nat.le_add_left _ _) h),
    Nat.mod_eq_of_lt h]

theorem notMem_range_end (hn : n < 2 ^ 64) : a + UInt64.ofNat n ∉ range a n := by
  rintro ⟨i, hi, h⟩
  have := offset_inj hn (by omega) h
  omega

/-! ## Bytes -/

theorem read_agree (h : Agree (range a n) m m') : read m a n = read m' a n := by
  induction n generalizing a with
  | zero => rfl
  | succ n ih =>
    rw [read, read, h a (mem_range_succ.mpr (.inl rfl)),
      ih fun x hx => h x (mem_range_succ.mpr (.inr hx))]

theorem read_update_of_notMem (m : Bytes) (c : UInt8) (hx : x ∉ range a n) :
    read (Function.update m x c) a n = read m a n :=
  read_agree fun _ hy => Function.update_of_ne (ne_of_mem_of_not_mem hy hx) _ _

@[simp] theorem length_read (m : Bytes) (a : UInt64) (n : ℕ) : (read m a n).length = n := by
  induction n generalizing a with
  | zero => rfl
  | succ n ih => rw [read, List.length_cons, ih]

theorem getElem?_read {i : ℕ} (hi : i < n) : (read m a n)[i]? = some (m (a + UInt64.ofNat i)) := by
  induction n generalizing a i with
  | zero => omega
  | succ n ih =>
    cases i with
    | zero => exact congrArg (fun x => some (m x)) (UInt64.add_zero a).symm
    | succ i => rw [read, List.getElem?_cons_succ, ih (by omega), add_ofNat_succ]

/-! ## Copies -/

/-- **A copy changes its destination only.** -/
theorem copy_of_notMem (hx : x ∉ range dest n) : copy m dest src n x = m x := by
  induction n generalizing m dest src with
  | zero => rfl
  | succ n ih =>
    rw [mem_range_succ, not_or] at hx
    rw [copy, ih hx.2, Function.update_of_ne hx.1]

/-- **A copy depends on its source only**, whether or not the two overlap. -/
theorem copy_agree {s : Set UInt64} (h : Agree s m m') (hs : range src n ⊆ s) :
    Agree (s ∪ range dest n) (copy m dest src n) (copy m' dest src n) := by
  induction n generalizing m m' dest src s with
  | zero =>
    rintro x (hx | ⟨i, hi, -⟩)
    · exact h x hx
    · omega
  | succ n ih =>
    have hsrc : m src = m' src := h src (hs (mem_range_succ.mpr (.inl rfl)))
    have hstep : Agree (insert dest s) (Function.update m dest (m src))
        (Function.update m' dest (m' src)) := by
      rintro x (rfl | hx)
      · simp only [Function.update_self, hsrc]
      · by_cases hxd : x = dest
        · subst hxd
          simp only [Function.update_self, hsrc]
        · rw [Function.update_of_ne hxd, Function.update_of_ne hxd]
          exact h x hx
    have hrest : Agree (insert dest s ∪ range (dest + 1) n) _ _ := ih hstep fun x hx =>
      Set.mem_insert_of_mem dest (hs (mem_range_succ.mpr (.inr hx)))
    intro x hx
    apply hrest
    rcases hx with hx | hx
    · exact .inl (Set.mem_insert_of_mem dest hx)
    · rcases mem_range_succ.mp hx with rfl | hx
      · exact .inl (Set.mem_insert x s)
      · exact .inr hx

theorem copy_const {b : UInt8} (h : ∀ y ∈ range src n, m y = b) (hx : x ∈ range dest n) :
    copy m dest src n x = b := by
  induction n generalizing m dest src with
  | zero =>
    obtain ⟨i, hi, -⟩ := hx
    omega
  | succ n ih =>
    have hsrc : m src = b := h src (mem_range_succ.mpr (.inl rfl))
    have hstep : ∀ y ∈ range (src + 1) n, Function.update m dest (m src) y = b := by
      intro y hy
      by_cases hyd : y = dest
      · subst hyd
        rw [Function.update_self, hsrc]
      · rw [Function.update_of_ne hyd]
        exact h y (mem_range_succ.mpr (.inr hy))
    rw [copy]
    by_cases hx' : x ∈ range (dest + 1) n
    · exact ih hstep hx'
    · rw [copy_of_notMem hx']
      rcases mem_range_succ.mp hx with rfl | hx
      · rw [Function.update_self, hsrc]
      · exact absurd hx hx'

/-- A byte of the source that the copy does not overwrite reaches its place in the destination. -/
theorem copy_apply {i : ℕ} (hi : i < n) (hn : n ≤ 2 ^ 64)
    (hsrc : src + UInt64.ofNat i ∉ range dest n) :
    copy m dest src n (dest + UInt64.ofNat i) = m (src + UInt64.ofNat i) := by
  induction n generalizing m dest src i with
  | zero => omega
  | succ n ih =>
    rw [mem_range_succ, not_or] at hsrc
    rw [copy]
    cases i with
    | zero =>
      have hd : dest + UInt64.ofNat 0 = dest := UInt64.add_zero dest
      have hs : src + UInt64.ofNat 0 = src := UInt64.add_zero src
      rw [hd, hs, copy_of_notMem (notMem_range_succ (by omega)), Function.update_self]
    | succ i =>
      rw [add_ofNat_succ, add_ofNat_succ] at *
      rw [ih (by omega) (by omega) hsrc.2, Function.update_of_ne hsrc.1]

/-- **A forward copy to lower addresses** moves every byte, whether or not the two overlap. -/
theorem copy_apply_of_le {i : ℕ} (hi : i < n) (hle : dest ≤ src) (hsrc : src.toNat + n ≤ 2 ^ 64) :
    copy m dest src n (dest + UInt64.ofNat i) = m (src + UInt64.ofNat i) := by
  have hle' : dest.toNat ≤ src.toNat := UInt64.le_iff_toNat_le.mp hle
  induction n generalizing m dest src i with
  | zero => omega
  | succ n ih =>
    rw [copy]
    cases i with
    | zero =>
      have hd : dest + UInt64.ofNat 0 = dest := UInt64.add_zero dest
      have hs : src + UInt64.ofNat 0 = src := UInt64.add_zero src
      rw [hd, hs, copy_of_notMem (notMem_range_succ (by omega)), Function.update_self]
    | succ i =>
      have hd : (dest + 1).toNat = dest.toNat + 1 := toNat_add_ofNat (i := 1) (by omega)
      have hs : (src + 1).toNat = src.toNat + 1 := toNat_add_ofNat (i := 1) (by omega)
      have hs' := toNat_add_ofNat (a := src + 1) (i := i) (by omega)
      -- what is read next lies behind what has been overwritten
      have hne : src + 1 + UInt64.ofNat i ≠ dest := fun h => by
        rw [h] at hs'
        omega
      rw [add_ofNat_succ, add_ofNat_succ, ih (by omega) (UInt64.le_iff_toNat_le.mpr (by omega)) (by omega)
        (by omega), Function.update_of_ne hne]

theorem copyBack_succ (m : Bytes) (dest src : UInt64) (n : ℕ) :
    copyBack m (dest + UInt64.ofNat (n + 1)) (src + UInt64.ofNat (n + 1)) (n + 1) =
      copyBack (Function.update m (dest + UInt64.ofNat n) (m (src + UInt64.ofNat n)))
        (dest + UInt64.ofNat n) (src + UInt64.ofNat n) n := by
  have hback : ∀ b : UInt64, b + UInt64.ofNat (n + 1) - 1 = b + UInt64.ofNat n := fun b => by
    rw [UInt64.ofNat_add, ← UInt64.add_assoc]
    exact UInt64.add_sub_cancel _ _
  rw [copyBack, hback, hback]

theorem copyBack_of_notMem (hx : x ∉ range dest n) :
    copyBack m (dest + UInt64.ofNat n) (src + UInt64.ofNat n) n x = m x := by
  induction n generalizing m with
  | zero => rfl
  | succ n ih =>
    have hne : x ≠ dest + UInt64.ofNat n := fun h => hx ⟨n, n.lt_succ_self, h⟩
    rw [copyBack_succ, ih fun ⟨i, hi, h⟩ => hx ⟨i, by omega, h⟩, Function.update_of_ne hne]

/-- **A backward copy to higher addresses** moves every byte, whether or not the two overlap. -/
theorem copyBack_apply {i : ℕ} (hi : i < n) (hle : src ≤ dest) (hdest : dest.toNat + n ≤ 2 ^ 64) :
    copyBack m (dest + UInt64.ofNat n) (src + UInt64.ofNat n) n (dest + UInt64.ofNat i) =
      m (src + UInt64.ofNat i) := by
  have hle' : src.toNat ≤ dest.toNat := UInt64.le_iff_toNat_le.mp hle
  induction n generalizing m with
  | zero => omega
  | succ n ih =>
    rw [copyBack_succ]
    by_cases hin : i = n
    · subst hin
      rw [copyBack_of_notMem (notMem_range_end (by omega)), Function.update_self]
    · have hd := toNat_add_ofNat (a := dest) (i := n) (by omega)
      have hs := toNat_add_ofNat (a := src) (i := i) (by omega)
      have hne : src + UInt64.ofNat i ≠ dest + UInt64.ofNat n := fun h => by
        rw [h] at hs
        omega
      rw [ih (by omega) (by omega), Function.update_of_ne hne]

/-! ## Integers -/

theorem load_lt (m : Bytes) (a : UInt64) (n : ℕ) : load m a n < 256 ^ n := by
  induction n generalizing a with
  | zero => exact Nat.one_pos
  | succ n ih =>
    have h₁ := (m a).toNat_lt
    have h₂ := ih (a + 1)
    rw [load, Nat.pow_succ]
    omega

theorem load_agree (h : Agree (range a n) m m') : load m a n = load m' a n := by
  induction n generalizing a with
  | zero => rfl
  | succ n ih =>
    rw [load, load, h a (mem_range_succ.mpr (.inl rfl)),
      ih fun x hx => h x (mem_range_succ.mpr (.inr hx))]

/-- **An integer determines its bytes.** -/
theorem load_injective (h : load m a n = load m' a n) : Agree (range a n) m m' := by
  induction n generalizing a with
  | zero =>
    rintro x ⟨i, hi, -⟩
    omega
  | succ n ih =>
    have h₁ := (m a).toNat_lt
    have h₂ := (m' a).toNat_lt
    rw [load, load] at h
    intro x hx
    rcases mem_range_succ.mp hx with rfl | hx
    · exact UInt8.toNat_inj.mp (by omega)
    · exact ih (by omega) x hx

theorem store_of_notMem {v : ℕ} (hx : x ∉ range a n) : store m a n v x = m x := by
  induction n generalizing a v with
  | zero => rfl
  | succ n ih =>
    rw [mem_range_succ, not_or] at hx
    rw [store, Function.update_of_ne hx.1, ih hx.2]

theorem load_store {v : ℕ} (hv : v < 256 ^ n) (hn : n ≤ 2 ^ 64) : load (store m a n v) a n = v := by
  induction n generalizing a v with
  | zero =>
    rw [Nat.pow_zero] at hv
    exact (Nat.lt_one_iff.mp hv).symm
  | succ n ih =>
    have hv' : v / 256 < 256 ^ n := by
      rw [Nat.pow_succ] at hv
      exact Nat.div_lt_of_lt_mul (by rwa [Nat.mul_comm] at hv)
    have hrest : load (store m a (n + 1) v) (a + 1) n = v / 256 := by
      rw [← ih (a := a + 1) hv' (by omega)]
      apply load_agree
      intro y hy
      rw [store, Function.update_of_ne]
      rintro rfl
      exact notMem_range_succ (by omega) hy
    rw [load, hrest, store, Function.update_self, UInt8.toNat_ofNat']
    omega

end Bytes
