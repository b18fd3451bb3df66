import NexusVM.Lib.Access
import NexusVM.Utils

/-!
# Strings

`strcmp` and `strncmp` of `utils/log.c`, on a memory of bytes.

* `CString.strcmp`, `CString.strncmp`: the functions;
* `LooksAt`, `Reached`: which characters are looked at, and up to which place;
* **`CString.strncmp_refines`**: within the buffers, `CString.strncmp` is `strncmp` on their bytes;
* **`CString.strncmp_exact`**: the functions compare strings, and beginnings of strings, and look at no
  character behind the place that decides.
-/

namespace NexusVM

open Prog Access

variable {t t' t'' : Accessed} {s1 s2 n : UInt64} {xs ys : List UInt8} {m : Bytes}

namespace CString

/-! ## The functions -/

/-- `*s1 && *s2 && *s1 == *s2` -/
def sameChar (s1 s2 : UInt64) : Prog Accessed Bool := do
  if (← loadByte s1) = 0 then return false
  if (← loadByte s2) = 0 then return false
  return (← loadByte s1) = (← loadByte s2)

/-- `*s1 - *s2`, where a `char` is signed -/
def charDiff (s1 s2 : UInt64) : Prog Accessed ℤ := do
  return (← loadByte s1).toInt8.toInt - (← loadByte s2).toInt8.toInt

/-- The loop of `strcmp` and what follows it, for less than `n` turns. A loop that has gone round the
address space does not end. -/
def strcmpLoop (s1 s2 : UInt64) : ℕ → Prog Accessed ℤ
  | 0 => failure
  | n + 1 => do
    if ← sameChar s1 s2 then strcmpLoop (s1 + 1) (s2 + 1) n
    else charDiff s1 s2

def strcmp (s1 s2 : UInt64) : Prog Accessed ℤ := strcmpLoop s1 s2 (2 ^ 64)

/-- `n == (size_t)-1 ? 0 : *s1 - *s2` -/
def strncmpResult (s1 s2 n : UInt64) : Prog Accessed ℤ :=
  if n = 0 - 1 then return 0 else charDiff s1 s2

/-- The loop of `strncmp` and what follows it. -/
def strncmpLoop (s1 s2 : UInt64) : ℕ → Prog Accessed ℤ
  -- `n--` has wrapped round
  | 0 => strncmpResult s1 s2 (0 - 1)
  | n + 1 => do
    if ← sameChar s1 s2 then strncmpLoop (s1 + 1) (s2 + 1) n
    else strncmpResult s1 s2 (UInt64.ofNat n)

def strncmp (s1 s2 n : UInt64) : Prog Accessed ℤ := strncmpLoop s1 s2 n.toNat

end CString

/-! ## What is looked at -/

/-- Only characters of the two strings at these places have been looked at. -/
structure LooksAt (s1 s2 : UInt64) (P : ℕ → Prop) (t t' : Accessed) : Prop where
  mem : t'.mem = t.mem
  writes : t'.writes = t.writes
  reads : ∀ x ∈ t'.reads, x ∈ t.reads ∨ ∃ i, P i ∧ (x = s1 + UInt64.ofNat i ∨ x = s2 + UInt64.ofNat i)

/-- There is neither a mismatch nor an end of a string before place `i`. -/
structure Reached (xs ys : List UInt8) (i : ℕ) : Prop where
  first : i ≤ xs.length
  second : i ≤ ys.length
  same : xs.take i = ys.take i

section LooksAt

variable {P R : ℕ → Prop}

theorem LooksAt.refl (t : Accessed) : LooksAt s1 s2 P t t := ⟨rfl, rfl, fun _ => .inl⟩

theorem LooksAt.trans (h : LooksAt s1 s2 P t t') (h' : LooksAt s1 s2 P t' t'') : LooksAt s1 s2 P t t'' := by
  refine ⟨h'.mem.trans h.mem, h'.writes.trans h.writes, fun x hx => ?_⟩
  rcases h'.reads x hx with hx | hx
  · exact h.reads x hx
  · exact .inr hx

theorem LooksAt.mono (h : LooksAt s1 s2 P t t') (hP : ∀ i, P i → R i) : LooksAt s1 s2 R t t' := by
  refine ⟨h.mem, h.writes, fun x hx => (h.reads x hx).imp_right ?_⟩
  rintro ⟨i, hi, hx⟩
  exact ⟨i, hP i hi, hx⟩

theorem LooksAt.shift (h : LooksAt (s1 + 1) (s2 + 1) P t t') (hP : ∀ i, P i → R (i + 1)) :
    LooksAt s1 s2 R t t' := by
  refine ⟨h.mem, h.writes, fun x hx => (h.reads x hx).imp_right ?_⟩
  rintro ⟨i, hi, hx⟩
  refine ⟨i + 1, hP i hi, ?_⟩
  rwa [Bytes.add_ofNat_succ, Bytes.add_ofNat_succ]

theorem LooksAt.read {a : UInt64} (h : LooksAt s1 s2 P t t')
    (ha : ∃ i, P i ∧ (a = s1 + UInt64.ofNat i ∨ a = s2 + UInt64.ofNat i)) :
    LooksAt s1 s2 P t (t'.read a) := by
  refine ⟨h.mem, h.writes, fun x hx => ?_⟩
  rcases List.mem_append.mp hx with hx | hx
  · exact h.reads x hx
  · obtain rfl := List.mem_singleton.mp hx
    exact .inr ha

theorem LooksAt.read_first (h : LooksAt s1 s2 P t t') (h0 : P 0) : LooksAt s1 s2 P t (t'.read s1) :=
  h.read ⟨0, h0, .inl (UInt64.add_zero s1).symm⟩

theorem LooksAt.read_second (h : LooksAt s1 s2 P t t') (h0 : P 0) : LooksAt s1 s2 P t (t'.read s2) :=
  h.read ⟨0, h0, .inr (UInt64.add_zero s2).symm⟩

end LooksAt

theorem reached_zero (xs ys : List UInt8) : Reached xs ys 0 := ⟨Nat.zero_le _, Nat.zero_le _, rfl⟩

theorem Reached.cons {i : ℕ} (h : Reached xs ys i) (c : UInt8) : Reached (c :: xs) (c :: ys) (i + 1) := by
  refine ⟨Nat.succ_le_succ h.first, Nat.succ_le_succ h.second, ?_⟩
  rw [List.take_succ_cons, List.take_succ_cons, h.same]

/-! ## Single characters -/

namespace CString

theorem sameChar_spec (s1 s2 : UInt64) (t : Accessed) : wp (sameChar s1 s2) (fun r t' =>
    r = decide (t.mem s1 = t.mem s2 ∧ t.mem s1 ≠ 0) ∧ LooksAt s1 s2 (· = 0) t t') t := by
  have hread : LooksAt s1 s2 (· = 0) t (t.read s1) := (LooksAt.refl t).read_first rfl
  have hboth := hread.read_second rfl
  rw [sameChar, wp_bind, wp_loadByte]
  split_ifs with hfirst
  · rw [wp_pure]
    exact ⟨by simp [hfirst], hread⟩
  rw [wp_bind, wp_loadByte, Accessed.read_mem]
  split_ifs with hsecond
  · rw [wp_pure]
    exact ⟨by simp [hsecond], hboth⟩
  · simp only [wp_bind, wp_loadByte, wp_pure, Accessed.read_mem]
    exact ⟨by simp [hfirst], (hboth.read_first rfl).read_second rfl⟩

theorem charDiff_spec (s1 s2 : UInt64) (t : Accessed) : wp (charDiff s1 s2) (fun r t' =>
    r = (t.mem s1).toInt8.toInt - (t.mem s2).toInt8.toInt ∧ LooksAt s1 s2 (· = 0) t t') t := by
  have hread : LooksAt s1 s2 (· = 0) t (t.read s1) := (LooksAt.refl t).read_first rfl
  simp only [charDiff, wp_bind, wp_loadByte, wp_pure, Accessed.read_mem, true_and]
  exact hread.read_second rfl

theorem diff_eq_zero_iff {a b : UInt8} : a.toInt8.toInt - b.toInt8.toInt = 0 ↔ a = b := by
  rw [sub_eq_zero, Int8.toInt_inj]
  exact ⟨fun h => by simpa using congrArg Int8.toUInt8 h, congrArg UInt8.toInt8⟩

/-! ## Loops -/

/-- Two strings go on with the same character, or the characters decide whether they are equal, and whether
their beginnings are. -/
theorem heads_cases (h1 : IsString m s1 xs) (h2 : IsString m s2 ys) :
    (∃ c xs' ys', xs = c :: xs' ∧ ys = c :: ys' ∧ m s1 = m s2 ∧ m s1 ≠ 0 ∧
      IsString m (s1 + 1) xs' ∧ IsString m (s2 + 1) ys') ∨
    ¬ (m s1 = m s2 ∧ m s1 ≠ 0) ∧ (m s1 = m s2 ↔ xs = ys) ∧
      ∀ k, m s1 = m s2 ↔ (xs ++ [0]).take (k + 1) = (ys ++ [0]).take (k + 1) := by
  cases xs with
  | nil =>
    have hnul : m s1 = 0 := h1
    cases ys with
    | nil => exact .inr (by simp [hnul, show m s2 = 0 from h2])
    | cons d ys =>
      obtain ⟨hd, hne, -⟩ := h2
      exact .inr (by simp [hnul, hd, hne.symm])
  | cons c xs =>
    obtain ⟨hc, hcne, hxs⟩ := h1
    cases ys with
    | nil => exact .inr (by simp [hc, hcne, show m s2 = 0 from h2])
    | cons d ys =>
      obtain ⟨hd, hdne, hys⟩ := h2
      by_cases hcd : c = d
      · subst hcd
        exact .inl ⟨c, xs, ys, rfl, rfl, hc.trans hd.symm, hc ▸ hcne, hxs, hys⟩
      · exact .inr (by simp [hc, hd, hcd])

theorem strcmpLoop_spec (h1 : IsString t.mem s1 xs) (h2 : IsString t.mem s2 ys) {k : ℕ}
    (hk : xs.length < k) : wp (strcmpLoop s1 s2 k) (fun r t' =>
      (r = 0 ↔ xs = ys) ∧ LooksAt s1 s2 (Reached xs ys) t t') t := by
  induction k generalizing s1 s2 xs ys t with
  | zero => omega
  | succ k ih =>
    rw [strcmpLoop, wp_bind]
    refine wp_mono (sameChar_spec s1 s2 t) ?_
    rintro _ t₁ ⟨rfl, hlooks⟩
    have hlooks' := hlooks.mono (R := Reached xs ys) fun i hi => hi ▸ reached_zero xs ys
    rw [← hlooks.mem] at h1 h2 ⊢
    rcases heads_cases h1 h2 with ⟨c, xs, ys, rfl, rfl, hsame, hne, h1', h2'⟩ | ⟨hnot, heq, -⟩
    · rw [if_pos (decide_eq_true ⟨hsame, hne⟩)]
      refine wp_mono (ih h1' h2' (Nat.lt_of_succ_lt_succ hk)) fun r t₂ ⟨hr, hrest⟩ => ?_
      exact ⟨by simp [hr], hlooks'.trans (hrest.shift fun i hi => hi.cons c)⟩
    · rw [if_neg (by simpa using hnot)]
      refine wp_mono (charDiff_spec s1 s2 t₁) ?_
      rintro _ t₂ ⟨rfl, hdiff⟩
      exact ⟨diff_eq_zero_iff.trans heq, hlooks'.trans (hdiff.mono fun i hi => hi ▸ reached_zero xs ys)⟩

/-- **A turn of `strncmp`.** The count has not wrapped round when two characters differ. -/
theorem strncmpLoop_succ (s1 s2 : UInt64) {k : ℕ} (hk : k + 1 < 2 ^ 64) : strncmpLoop s1 s2 (k + 1) = (do
    if ← sameChar s1 s2 then strncmpLoop (s1 + 1) (s2 + 1) k else charDiff s1 s2) := by
  have hcount : UInt64.ofNat k ≠ 0 - 1 := by
    intro h
    have h' := congrArg UInt64.toNat h
    rw [UInt64.toNat_ofNat', Nat.mod_eq_of_lt (by omega)] at h'
    change k = 2 ^ 64 - 1 at h'
    omega
  rw [strncmpLoop, strncmpResult, if_neg hcount]

theorem strncmpLoop_zero (s1 s2 : UInt64) : strncmpLoop s1 s2 0 = pure 0 := by
  rw [strncmpLoop, strncmpResult, if_pos rfl]

theorem strncmpLoop_spec (h1 : IsString t.mem s1 xs) (h2 : IsString t.mem s2 ys) {k : ℕ}
    (hk : k < 2 ^ 64) : wp (strncmpLoop s1 s2 k) (fun r t' =>
      (r = 0 ↔ (xs ++ [0]).take k = (ys ++ [0]).take k) ∧
        LooksAt s1 s2 (fun i => i < k ∧ Reached xs ys i) t t') t := by
  induction k generalizing s1 s2 xs ys t with
  | zero =>
    rw [strncmpLoop_zero, wp_pure]
    exact ⟨by simp, LooksAt.refl t⟩
  | succ k ih =>
    rw [strncmpLoop_succ s1 s2 hk, wp_bind]
    refine wp_mono (sameChar_spec s1 s2 t) ?_
    rintro _ t₁ ⟨rfl, hlooks⟩
    have hfirst : ∀ i, i = 0 → i < k + 1 ∧ Reached xs ys i := by
      rintro _ rfl
      exact ⟨k.succ_pos, reached_zero xs ys⟩
    have hlooks' := hlooks.mono hfirst
    rw [← hlooks.mem] at h1 h2 ⊢
    rcases heads_cases h1 h2 with ⟨c, xs, ys, rfl, rfl, hsame, hne, h1', h2'⟩ | ⟨hnot, -, heq⟩
    · rw [if_pos (decide_eq_true ⟨hsame, hne⟩)]
      refine wp_mono (ih h1' h2' (by omega)) fun r t₂ ⟨hr, hrest⟩ => ?_
      refine ⟨by simp [hr], hlooks'.trans (hrest.shift fun i hi => ⟨by omega, hi.2.cons c⟩)⟩
    · rw [if_neg (by simpa using hnot)]
      refine wp_mono (charDiff_spec s1 s2 t₁) ?_
      rintro _ t₂ ⟨rfl, hdiff⟩
      exact ⟨diff_eq_zero_iff.trans (heq k), hlooks'.trans (hdiff.mono hfirst)⟩

/-- **Within two buffers** the comparison is the one of their bytes. -/
theorem strncmp_refines {k1 k2 : ℕ} {r : ℤ}
    (h : NexusVM.strncmp (Bytes.read t.mem s1 k1) (Bytes.read t.mem s2 k2) n.toNat = some r) :
    wp (strncmp s1 s2 n) (fun r' _ => r' = r) t := by
  have hn := n.toNat_lt
  change wp (strncmpLoop s1 s2 n.toNat) _ t
  generalize n.toNat = k at h hn
  induction k generalizing s1 s2 k1 k2 t with
  | zero =>
    rw [NexusVM.strncmp] at h
    rw [strncmpLoop_zero, wp_pure]
    exact Option.some.inj h
  | succ k ih =>
    rw [strncmpLoop_succ s1 s2 hn, wp_bind]
    refine wp_mono (sameChar_spec s1 s2 t) ?_
    rintro _ t₁ ⟨rfl, hlooks⟩
    rw [← hlooks.mem] at h ⊢
    cases k1 with
    | zero => simp [Bytes.read, NexusVM.strncmp] at h
    | succ k1 =>
      cases k2 with
      | zero => simp [Bytes.read, NexusVM.strncmp] at h
      | succ k2 =>
        rw [Bytes.read, Bytes.read, NexusVM.strncmp] at h
        split_ifs at h with hsame
        · rw [if_pos (decide_eq_true ⟨hsame.2.2, hsame.1⟩)]
          exact ih h (by omega)
        · have hnot : ¬ (t₁.mem s1 = t₁.mem s2 ∧ t₁.mem s1 ≠ 0) := fun hc =>
            hsame ⟨hc.2, hc.1 ▸ hc.2, hc.1⟩
          rw [if_neg (by simpa using hnot)]
          exact wp_mono (charDiff_spec s1 s2 t₁) fun r' t₂ hr => hr.1.trans (Option.some.inj h)

/-- **Strings are compared exactly**: `strncmp` finds whether they agree up to the count and up to the first
NUL, and `strcmp` whether they are equal; neither looks behind a mismatch or an end, nor `strncmp` at the count. -/
theorem strncmp_exact (h1 : IsString t.mem s1 xs) (h2 : IsString t.mem s2 ys) (n : UInt64) :
    wp (strncmp s1 s2 n) (fun r t' => (r = 0 ↔ (xs ++ [0]).take n.toNat = (ys ++ [0]).take n.toNat) ∧
      LooksAt s1 s2 (fun i => i < n.toNat ∧ Reached xs ys i) t t') t ∧
    wp (strcmp s1 s2) (fun r t' => (r = 0 ↔ xs = ys) ∧ LooksAt s1 s2 (Reached xs ys) t t') t :=
  ⟨strncmpLoop_spec h1 h2 n.toNat_lt, strcmpLoop_spec h1 h2 h1.length_lt⟩

/-- Two names that differ in their second character. -/
def twoNames : Bytes := fun a =>
  if a < 0x2000 then [0x76, 0x6D, 0].getD (a - 0x1000).toNat 0 else [0x76, 0x70, 0].getD (a - 0x2000).toNat 0

theorem strncmp_exact_twoNames : ∃ r₁ r₂ t₁ t₂, (strncmp 0x1000 0x2000 1).run ⟨twoNames, [], []⟩ = some (r₁, t₁) ∧
    (strcmp 0x1000 0x2000).run ⟨twoNames, [], []⟩ = some (r₂, t₂) ∧ r₁ = 0 ∧ r₂ ≠ 0 := by
  have h1 : IsString twoNames 0x1000 [0x76, 0x6D] := ⟨rfl, by decide, rfl, by decide, rfl⟩
  have h2 : IsString twoNames 0x2000 [0x76, 0x70] := ⟨rfl, by decide, rfl, by decide, rfl⟩
  obtain ⟨⟨r₁, t₁, hrun₁, hr₁, -⟩, r₂, t₂, hrun₂, hr₂, -⟩ := strncmp_exact (t := ⟨twoNames, [], []⟩) h1 h2 1
  exact ⟨r₁, r₂, t₁, t₂, hrun₁, hrun₂, hr₁.mpr rfl, fun h => by cases hr₂.mp h⟩

end CString

end NexusVM
