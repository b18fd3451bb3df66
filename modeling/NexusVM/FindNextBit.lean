import NexusVM.Lib.Bitmap

/-!
# The search for a set bit

`find_next_bit` of `utils/log.c`.

* `wordLoop`, `findNextBit`: the function, on the words of a bitmap;
* `Exit`, **`findNextBit_exit`**: the ways out of the function, and what each has found;
* `Exact`, **`findNextBit_exact_iff`**: where it finds the next set bit.

From a position inside a word the function looks at the low end of the word and not at the high end, and a
last word that is not whole is not looked into at all.
-/

namespace NexusVM.BitSearch

open Bitmap

variable {addr : List UInt64} {size offset : UInt64}

/-! ## The functions -/

/-- `__builtin_ctzl` -/
def ctzl (x : UInt64) : UInt64 := ⟨x.toBitVec.ctz⟩

/-- At `found`. -/
def found (result offset : UInt64) : UInt64 := if result < offset then offset else result

/-- At `found_middle`. -/
def foundMiddle (tmp result offset : UInt64) : UInt64 := found (result + ctzl tmp) offset

/-- The loop over the whole words, and what follows it; `p` is the rest of the bitmap, and there is no result
where it is read past its end. -/
def wordLoop : (p : List UInt64) → (result size offset : UInt64) → Option UInt64
  | [], result, size, _ => if size ≠ 0 then none else some result
  | tmp :: p, result, size, offset =>
    if size &&& ~~~63 ≠ 0 then
      if tmp ≠ 0 then some (foundMiddle tmp result offset)
      else wordLoop p (result + 64) (size - 64) offset
    else if size ≠ 0 then some (found result offset)
    else some result

def findNextBit (addr : List UInt64) (size offset : UInt64) : Option UInt64 :=
  let p := addr.drop (offset / 64).toNat
  let result := offset &&& ~~~63
  if offset ≥ size then some size
  else
    let size := size - result
    let offset := offset % 64
    if offset ≠ 0 then
      match p with
      | [] => none
      | tmp :: p =>
        let tmp := tmp &&& (~~~0 >>> offset)
        if size < 64 then some (found result offset)
        else if tmp ≠ 0 then some (foundMiddle tmp result offset)
        else wordLoop p (result + 64) (size - 64) offset
    else wordLoop p result size offset

/-! ## What is found -/

theorem toNat_found (result offset : UInt64) :
    (found result offset).toNat = max result.toNat offset.toNat := by
  rw [found]
  split_ifs with h
  · exact (max_eq_right (UInt64.lt_iff_toNat_lt.mp h).le).symm
  · exact (max_eq_left (not_lt.mp fun hlt => h (UInt64.lt_iff_toNat_lt.mpr hlt))).symm

theorem toNat_foundMiddle {tmp result offset : UInt64} (htmp : tmp ≠ 0)
    (hresult : result.toNat + 64 ≤ 2 ^ 64) :
    (foundMiddle tmp result offset).toNat =
      max (result.toNat + tmp.toBitVec.ctz.toNat) offset.toNat := by
  have hlt := toNat_ctz_lt htmp
  rw [foundMiddle, toNat_found, UInt64.toNat_add]
  congr 1
  exact Nat.mod_eq_of_lt (by change _ + tmp.toBitVec.ctz.toNat < _; omega)

theorem and_not_63_ne_zero (size : UInt64) : size &&& ~~~63 ≠ 0 ↔ 64 ≤ size.toNat := by
  rw [ne_eq, ← UInt64.toNat_inj, toNat_and_not_63, UInt64.toNat_zero]
  omega

/-- **The loop** finds the next set bit of the whole words. -/
theorem wordLoop_spec {p : List UInt64} {k : ℕ} {result size total offset : UInt64} (hp : p = addr.drop k)
    (hresult : result.toNat = 64 * k) (hsize : result.toNat + size.toNat = total.toNat)
    (htotal : total.toNat ≤ 64 * addr.length) (hoffset : offset.toNat ≤ result.toNat) :
    ∃ r, wordLoop p result size offset = some r ∧
      IsNext addr (64 * k) (64 * (total.toNat / 64)) r.toNat := by
  have hlt := total.toNat_lt
  induction p generalizing k result size with
  | nil =>
    have hk : addr.length ≤ k := List.drop_eq_nil_iff.mp hp.symm
    have hzero : size = 0 := UInt64.toNat_inj.mp (by rw [UInt64.toNat_zero]; omega)
    refine ⟨result, by simp [wordLoop, hzero], ?_⟩
    rw [hresult, show 64 * (total.toNat / 64) = 64 * k by omega]
    exact isNext_of_le le_rfl
  | cons tmp p ih =>
    have hword : addr[k]? = some tmp := by
      rw [← List.head?_drop, ← hp, List.head?_cons]
    have hrest : p = addr.drop (k + 1) := by
      rw [← List.tail_drop, ← hp, List.tail_cons]
    by_cases h64 : 64 ≤ size.toNat
    · rw [wordLoop, if_pos ((and_not_63_ne_zero size).mpr h64)]
      by_cases htmp : tmp = 0
      · -- a word without a set bit
        have hclear : ∀ i, 64 * k ≤ i → i < 64 * (k + 1) → bit addr i = false := by
          intro i hle hi
          obtain ⟨j, rfl⟩ := Nat.exists_eq_add_of_le hle
          rw [bit_word hword (by omega), htmp]
          exact BitVec.getLsbD_zero
        have hadd : (result + 64).toNat = result.toNat + 64 := by
          rw [UInt64.toNat_add]
          exact Nat.mod_eq_of_lt (by change _ + 64 < _; omega)
        have hsub : (size - 64).toNat = size.toNat - 64 :=
          UInt64.toNat_sub_of_le _ _ (UInt64.le_iff_toNat_le.mpr h64)
        have hresult' : (result + 64).toNat = 64 * (k + 1) := by omega
        have hsize' : (result + 64).toNat + (size - 64).toNat = total.toNat := by omega
        obtain ⟨r, hr, hnext⟩ := ih hrest hresult' hsize' (by omega)
        refine ⟨r, by rw [if_neg (not_not.mpr htmp)]; exact hr, ?_⟩
        exact (isNext_iff_of_clear (by omega) (by omega) hclear).mpr hnext
      · obtain ⟨hnext, hctz⟩ := isNext_ctz (m := 64) htmp fun j hj => by
          rw [bit_word hword hj, decide_eq_true hj, Bool.and_true]
        refine ⟨_, if_pos htmp, ?_⟩
        rw [toNat_foundMiddle htmp (by omega), max_eq_left (by omega), hresult]
        rw [isNext_iff_of_lt (by omega) (by omega)] at hnext ⊢
        exact hnext
    · have hend : 64 * (total.toNat / 64) = 64 * k := by omega
      rw [wordLoop, if_neg fun h => h64 ((and_not_63_ne_zero size).mp h), hend]
      by_cases hzero : size = 0
      · refine ⟨result, if_neg (not_not.mpr hzero), ?_⟩
        rw [hresult]
        exact isNext_of_le le_rfl
      · refine ⟨_, if_pos hzero, ?_⟩
        rw [toNat_found, max_eq_left hoffset, hresult]
        exact isNext_of_le le_rfl

/-- The ways out of `find_next_bit`. -/
inductive Exit (addr : List UInt64) (size offset : ℕ) : ℕ → Prop
  /-- There is nothing to search. -/
  | past (h : size ≤ offset) : Exit addr size offset size
  /-- The search begins with a word. -/
  | aligned {r : ℕ} (h : offset < size) (ho : offset % 64 = 0)
    (hr : IsNext addr offset (64 * (size / 64)) r) : Exit addr size offset r
  /-- The first word is not whole. -/
  | lastWord (h : offset < size) (ho : offset % 64 ≠ 0) (hs : size < 64 * (offset / 64) + 64) :
    Exit addr size offset (max (64 * (offset / 64)) (offset % 64))
  /-- There is a set bit at the low end of the first word. -/
  | masked {c : ℕ} (h : offset < size) (ho : offset % 64 ≠ 0) (hs : 64 * (offset / 64) + 64 ≤ size)
    (hc : IsNext addr (64 * (offset / 64)) (64 * (offset / 64) + (64 - offset % 64)) (64 * (offset / 64) + c))
    (hlt : c < 64 - offset % 64) :
    Exit addr size offset (max (64 * (offset / 64) + c) (offset % 64))
  /-- There is none, and the search goes on with the next word. -/
  | skipped {r : ℕ} (h : offset < size) (ho : offset % 64 ≠ 0) (hs : 64 * (offset / 64) + 64 ≤ size)
    (hclear : ∀ i < 64 - offset % 64, bit addr (64 * (offset / 64) + i) = false)
    (hr : IsNext addr (64 * (offset / 64) + 64) (64 * (size / 64)) r) : Exit addr size offset r

/-! ## The first word -/

theorem toNat_rest (h : offset.toNat < size.toNat) :
    (size - (offset &&& ~~~63)).toNat = size.toNat - 64 * (offset.toNat / 64) := by
  have hbase := toNat_and_not_63 offset
  rw [UInt64.toNat_sub_of_le _ _ (UInt64.le_iff_toNat_le.mpr (by omega)), hbase]

/-- As many bits are left at the low end of the first word as there are from the position on. -/
theorem getLsbD_firstWord {tmp : UInt64} (hget : addr[offset.toNat / 64]? = some tmp) {k : ℕ} (hk : k < 64) :
    (tmp &&& (~~~0 >>> (offset % 64))).toBitVec.getLsbD k =
      (bit addr (64 * (offset.toNat / 64) + k) && decide (k < 64 - offset.toNat % 64)) := by
  have hmod : (offset % 64).toNat = offset.toNat % 64 := UInt64.toNat_mod _ _
  rw [getLsbD_and_shiftRight _ (by omega), hmod, bit_word hget hk]

theorem wordLoop_next (hoff : offset.toNat < size.toNat) (hsize : size.toNat ≤ 64 * addr.length)
    (hwhole : 64 * (offset.toNat / 64) + 64 ≤ size.toNat) :
    ∃ r, wordLoop (addr.drop (offset.toNat / 64 + 1)) ((offset &&& ~~~63) + 64)
        (size - (offset &&& ~~~63) - 64) (offset % 64) = some r ∧
      IsNext addr (64 * (offset.toNat / 64) + 64) (64 * (size.toNat / 64)) r.toNat := by
  have hlt := size.toNat_lt
  have hrest := toNat_rest hoff
  have hmod : (offset % 64).toNat = offset.toNat % 64 := UInt64.toNat_mod _ _
  have hresult : ((offset &&& ~~~63) + 64).toNat = 64 * (offset.toNat / 64 + 1) := by
    rw [UInt64.toNat_add, toNat_and_not_63]
    exact Nat.mod_eq_of_lt (by change _ + 64 < _; omega)
  have hsub : (size - (offset &&& ~~~63) - 64).toNat = (size - (offset &&& ~~~63)).toNat - 64 :=
    UInt64.toNat_sub_of_le _ _ (UInt64.le_iff_toNat_le.mpr (by change 64 ≤ _; omega))
  have hsum : ((offset &&& ~~~63) + 64).toNat + (size - (offset &&& ~~~63) - 64).toNat = size.toNat := by
    omega
  have hfirst : (offset % 64).toNat ≤ ((offset &&& ~~~63) + 64).toNat := by omega
  exact wordLoop_spec rfl hresult hsum hsize hfirst

/-- **`find_next_bit` returns**, by one of the ways out. -/
theorem findNextBit_exit (hsize : size.toNat ≤ 64 * addr.length) :
    ∃ r, findNextBit addr size offset = some r ∧ Exit addr size.toNat offset.toNat r.toNat := by
  have hdiv : (offset / 64).toNat = offset.toNat / 64 := UInt64.toNat_div _ _
  have hmod : (offset % 64).toNat = offset.toNat % 64 := UInt64.toNat_mod _ _
  have hbase := toNat_and_not_63 offset
  by_cases hle : size ≤ offset
  · exact ⟨size, if_pos hle, .past (UInt64.le_iff_toNat_le.mp hle)⟩
  have hoff : offset.toNat < size.toNat := not_le.mp fun h => hle (UInt64.le_iff_toNat_le.mpr h)
  have hrest := toNat_rest hoff
  simp only [findNextBit, ge_iff_le, if_neg hle, hdiv]
  by_cases ho : offset % 64 = 0
  · have hzero : offset.toNat % 64 = 0 := by rw [← hmod, ho, UInt64.toNat_zero]
    have hsum : (offset &&& ~~~63).toNat + (size - (offset &&& ~~~63)).toNat = size.toNat := by omega
    have hfirst : (offset % 64).toNat ≤ (offset &&& ~~~63).toNat := by omega
    obtain ⟨r, hr, hnext⟩ := wordLoop_spec rfl hbase hsum hsize hfirst
    rw [Nat.mul_div_cancel' (Nat.dvd_of_mod_eq_zero hzero)] at hnext
    exact ⟨r, by rw [if_neg (not_not.mpr ho)]; exact hr, .aligned hoff hzero hnext⟩
  have hnz : offset.toNat % 64 ≠ 0 := by
    rw [← hmod]
    exact fun h => ho (UInt64.toNat_inj.mp h)
  have hword : offset.toNat / 64 < addr.length := by omega
  have hget : addr[offset.toNat / 64]? = some addr[offset.toNat / 64] := List.getElem?_eq_getElem hword
  rw [if_pos ho, List.drop_eq_getElem_cons hword]
  generalize addr[offset.toNat / 64] = tmp at hget ⊢
  have hlast : size - (offset &&& ~~~63) < 64 ↔ size.toNat < 64 * (offset.toNat / 64) + 64 := by
    rw [UInt64.lt_iff_toNat_lt, hrest]
    change _ < 64 ↔ _
    omega
  by_cases h64 : size - (offset &&& ~~~63) < 64
  · refine ⟨_, if_pos h64, ?_⟩
    rw [toNat_found, hbase, hmod]
    exact .lastWord hoff hnz (hlast.mp h64)
  have hwhole : 64 * (offset.toNat / 64) + 64 ≤ size.toNat := not_lt.mp fun h => h64 (hlast.mpr h)
  have hbit := fun k (hk : k < 64) => getLsbD_firstWord hget hk
  simp only [if_neg h64]
  generalize tmp &&& (~~~0 >>> (offset % 64)) = low at hbit ⊢
  by_cases hlow : low = 0
  · have hclear : ∀ i < 64 - offset.toNat % 64, bit addr (64 * (offset.toNat / 64) + i) = false := by
      intro i hi
      have hzero := hbit i (by omega)
      rw [hlow, decide_eq_true hi, Bool.and_true] at hzero
      exact hzero.symm.trans BitVec.getLsbD_zero
    obtain ⟨r, hr, hnext⟩ := wordLoop_next hoff hsize hwhole
    exact ⟨r, by rw [if_neg (not_not.mpr hlow)]; exact hr, .skipped hoff hnz hwhole hclear hnext⟩
  · obtain ⟨hnext, hctz⟩ := isNext_ctz hlow hbit
    have hlt := size.toNat_lt
    refine ⟨_, if_pos hlow, ?_⟩
    rw [toNat_foundMiddle hlow (by omega), hbase, hmod]
    exact .masked hoff hnz hwhole hnext hctz

/-! ## Where the next set bit is found -/

/-- From the start of a word on: one of the whole words has a set bit, or there is no further word, or its
first bit is set. -/
def ScansRight (addr : List UInt64) (size start : ℕ) : Prop :=
  (∃ k, start ≤ k ∧ k < 64 * (size / 64) ∧ bit addr k = true) ∨ size % 64 = 0 ∨
    bit addr (64 * (size / 64)) = true

/-- A bit is set at the low end of the word, of which as many bits are looked at as there are from the
position on. -/
def lowEnd (addr : List UInt64) (offset : ℕ) : Bool :=
  (List.range (64 - offset % 64)).any fun i => bit addr (64 * (offset / 64) + i)

/-- What has to be true of the bitmap for `find_next_bit` to find the next set bit. -/
def Exact (addr : List UInt64) (size offset : ℕ) : Prop :=
  if size ≤ offset then True
  else if offset % 64 = 0 then ScansRight addr size offset
  else if size < 64 * (offset / 64) + 64 then offset < 64 ∧ bit addr offset = true
  else if lowEnd addr offset then
    (∀ i < offset % 64, bit addr (64 * (offset / 64) + i) = false) ∨
      offset < 64 ∧ bit addr offset = true
  else
    (∀ i, offset ≤ i → i < 64 * (offset / 64) + 64 → bit addr i = false) ∧
      ScansRight addr size (64 * (offset / 64) + 64)

theorem scansRight_iff {size start r : ℕ} (h : IsNext addr start (64 * (size / 64)) r)
    (hstart : start ≤ 64 * (size / 64)) : IsNext addr start size r ↔ ScansRight addr size start := by
  rw [h.extend_iff hstart (Nat.mul_div_le size 64), ScansRight]
  have hwhole : 64 * (size / 64) = size ↔ size % 64 = 0 := by omega
  rw [hwhole]

theorem lowEnd_iff {offset : ℕ} :
    lowEnd addr offset = true ↔ ∃ i < 64 - offset % 64, bit addr (64 * (offset / 64) + i) = true := by
  simp [lowEnd]

/-- In the first word of the bitmap the position itself is returned in place of an earlier one. -/
theorem isNext_max_iff {size offset c : ℕ} (h : offset < size) (hc : c < offset % 64) :
    IsNext addr offset size (max (64 * (offset / 64) + c) (offset % 64)) ↔
      offset < 64 ∧ bit addr offset = true := by
  by_cases hfirst : offset < 64
  · have hmax : max (64 * (offset / 64) + c) (offset % 64) = offset := by omega
    rw [hmax, isNext_self_iff h, and_iff_right hfirst]
  · refine iff_of_false (fun hnext => ?_) fun hset => hfirst hset.1
    have := hnext.le h.le
    omega

theorem Exit.isNext_iff {size offset r : ℕ} (h : Exit addr size offset r) :
    IsNext addr offset size r ↔ Exact addr size offset := by
  rw [Exact]
  cases h with
  | past h =>
    rw [if_pos h]
    exact iff_of_true (isNext_of_le h) trivial
  | aligned h ho hr =>
    rw [if_neg (not_le.mpr h), if_pos ho]
    exact scansRight_iff hr (by omega)
  | lastWord h ho hs =>
    rw [if_neg (not_le.mpr h), if_neg ho, if_pos hs]
    exact isNext_max_iff h (Nat.pos_of_ne_zero ho)
  | @masked c h ho hs hc hlt =>
    have hset := hc.bit_eq_true (by omega)
    rw [if_neg (not_le.mpr h), if_neg ho, if_neg (not_lt.mpr hs), if_pos (lowEnd_iff.mpr ⟨c, hlt, hset⟩)]
    by_cases hco : c < offset % 64
    · -- the bit found is before the position
      rw [isNext_max_iff h hco, or_iff_right]
      intro hclear
      rw [hclear c hco] at hset
      cases hset
    · have hmax : max (64 * (offset / 64) + c) (offset % 64) = 64 * (offset / 64) + c := by omega
      rw [hmax, isNext_iff_of_lt (by omega) (by omega)]
      refine iff_of_true ⟨hset, fun k hk hkc => ?_⟩ (.inl fun i hi => ?_)
      · exact hc.bit_eq_false (by omega) hkc
      · exact hc.bit_eq_false (Nat.le_add_right _ _) (by omega)
  | skipped h ho hs hclear hr =>
    have hlow : ¬ lowEnd addr offset = true := by
      rw [lowEnd_iff]
      rintro ⟨i, hi, hset⟩
      rw [hclear i hi] at hset
      cases hset
    rw [if_neg (not_le.mpr h), if_neg ho, if_neg (not_lt.mpr hs), if_neg hlow]
    by_cases hhigh : ∀ i, offset ≤ i → i < 64 * (offset / 64) + 64 → bit addr i = false
    · rw [isNext_iff_of_clear (by omega) hs hhigh, and_iff_right hhigh]
      exact scansRight_iff hr (by omega)
    · -- a set bit is passed over
      refine iff_of_false (fun hnext => hhigh fun i hi hi64 => ?_) fun hexact => hhigh hexact.1
      have hnew := hr.le (by omega)
      exact hnext.bit_eq_false hi (by omega)

/-- **Where `find_next_bit` is right**: it returns, and what it returns is the next set bit, just if the
bitmap is as `Exact` has it. -/
theorem findNextBit_exact_iff (hsize : size.toNat ≤ 64 * addr.length) :
    (∃ r, findNextBit addr size offset = some r ∧ IsNext addr offset.toNat size.toNat r.toNat) ↔
      Exact addr size.toNat offset.toNat := by
  obtain ⟨r, hr, hexit⟩ := @findNextBit_exit addr size offset hsize
  simp only [hr, Option.some.injEq, exists_eq_left']
  exact hexit.isNext_iff

/-- From the position 0 the next set bit of a whole word is found. -/
theorem findNextBit_exact_iff_wholeWord :
    ∃ r, findNextBit [0x20] 64 0 = some r ∧ IsNext [0x20] 0 64 r.toNat :=
  (findNextBit_exact_iff (by decide)).mpr (by simp [Exact, ScansRight])

/-- **Set bits are missed**: bit 5 of ten bits, and bit 63 of a word from position 1 on. -/
theorem findNextBit_misses :
    (findNextBit [0x20] 10 0 = some 0 ∧ IsNext [0x20] 0 10 5 ∧ ¬ IsNext [0x20] 0 10 0) ∧
      findNextBit [0x8000000000000000] 64 1 = some 64 ∧
      IsNext [0x8000000000000000] 1 64 63 ∧ ¬ IsNext [0x8000000000000000] 1 64 64 := by
  refine ⟨⟨by decide, .inl (by decide), fun h => ?_⟩, by decide, .inl (by decide), fun h => ?_⟩
  · exact absurd (h.bit_eq_true (by decide)) (by decide)
  · exact absurd (h.bit_eq_false (k := 63) (by decide) (by decide)) (by decide)

end NexusVM.BitSearch
