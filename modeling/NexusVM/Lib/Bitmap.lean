import Mathlib.Data.Finset.Card
import Mathlib.Data.Finset.Dedup
import Mathlib.Data.Finset.Range
import Mathlib.Data.UInt

/-!
# Bitmaps packed into 64-bit words

* `test`, `set`, `clear`: access to one bit, by the word `i / 64` and the mask `1 << (i % 64)`;
* `bit`, **`bit_set`**, **`bit_clear`**: the bit at any position, and how each store changes it;
* **`test_set`**, **`test_clear`**: the same for the positions that are words;
* `setAll`, `bit_setAll`: the bitmap in which the first `n` bits were set one after the other;
* `ones`, **`card_ones_set`**, **`card_ones_clear`**: the population count after a store;
* `positions`, `length_positions`, **`positions_drop`**: the set bits in order, and what clearing the first of
  them leaves;
* `IsNext`, **`isNext_iff_of_lt`**, **`IsNext.extend_iff`**, **`isNext_ctz`**: the next set bit of a range, and
  how a search for it is put together.
-/

namespace Bitmap

variable {w : List UInt64} {i j : UInt64}

/-- `1 << (i % 64)` -/
def mask (i : UInt64) : UInt64 := 1 <<< (i % 64)

/-- Bit `i` of the bitmap. -/
def test (w : List UInt64) (i : UInt64) : Bool := w.getD (i / 64).toNat 0 &&& mask i ≠ 0

def set (w : List UInt64) (i : UInt64) : List UInt64 := w.modify (i / 64).toNat (· ||| mask i)

def clear (w : List UInt64) (i : UInt64) : List UInt64 := w.modify (i / 64).toNat (· &&& ~~~ mask i)

/-- The bits `0, …, n - 1` are set. -/
def setAll (w : List UInt64) (n : ℕ) : List UInt64 :=
  (List.range n).foldl (fun w i => set w (UInt64.ofNat i)) w

/-! ## Words -/

theorem toNat_mask (i : UInt64) : (mask i).toNat = 2 ^ (i.toNat % 64) := by
  have hlt : 2 ^ (i.toNat % 64) < 2 ^ 64 :=
    Nat.pow_lt_pow_right (by decide) (Nat.mod_lt _ (by decide))
  rw [mask, UInt64.toNat_shiftLeft, UInt64.toNat_mod, show (64 : UInt64).toNat = 64 from rfl,
    Nat.mod_mod, UInt64.toNat_one, Nat.one_shiftLeft, Nat.mod_eq_of_lt hlt]

theorem getLsbD_mask (i : UInt64) (k : ℕ) :
    (mask i).toBitVec.getLsbD k = decide (i.toNat % 64 = k) := by
  rw [← BitVec.testBit_toNat, UInt64.toNat_toBitVec, toNat_mask, Nat.testBit_two_pow]

theorem and_mask_ne_zero (x i : UInt64) :
    x &&& mask i ≠ 0 ↔ x.toBitVec.getLsbD (i.toNat % 64) = true := by
  have hmod : i.toNat % 64 < 64 := Nat.mod_lt _ (by decide)
  have hbit : ∀ k < 64, (x &&& mask i).toBitVec.getLsbD k =
      (x.toBitVec.getLsbD k && decide (i.toNat % 64 = k)) := fun k _ => by
    rw [UInt64.toBitVec_and, BitVec.getLsbD_and, getLsbD_mask]
  constructor
  · intro hne
    by_contra hx
    apply hne
    apply UInt64.toBitVec_inj.mp
    apply BitVec.eq_of_getLsbD_eq
    intro k hk
    rw [hbit k hk]
    by_cases hik : i.toNat % 64 = k
    · subst hik
      rw [Bool.eq_false_iff.mpr hx]
      simp
    · simp [hik]
  · intro hx hzero
    have := hbit _ hmod
    rw [hzero, hx] at this
    simp at this

theorem getLsbD_or_mask (x i : UInt64) (k : ℕ) :
    (x ||| mask i).toBitVec.getLsbD k = (x.toBitVec.getLsbD k || decide (i.toNat % 64 = k)) := by
  rw [UInt64.toBitVec_or, BitVec.getLsbD_or, getLsbD_mask]

theorem getLsbD_and_not_mask (x i : UInt64) {k : ℕ} (hk : k < 64) :
    (x &&& ~~~ mask i).toBitVec.getLsbD k =
      (x.toBitVec.getLsbD k && !decide (i.toNat % 64 = k)) := by
  rw [UInt64.toBitVec_and, BitVec.getLsbD_and, UInt64.toBitVec_not, BitVec.getLsbD_not,
    getLsbD_mask]
  simp [hk]

/-! ## Bits -/

/-- The bit at a position, which need not be that of a word. -/
def bit (w : List UInt64) (k : ℕ) : Bool := (w.getD (k / 64) 0).toBitVec.getLsbD (k % 64)

theorem test_eq (w : List UInt64) (i : UInt64) : test w i = bit w i.toNat := by
  rw [Bool.eq_iff_iff, test, decide_eq_true_iff, and_mask_ne_zero, UInt64.toNat_div]
  rfl

theorem bit_replicate_zero (n k : ℕ) : bit (List.replicate n 0) k = false := by
  rw [bit, List.getD_eq_getElem?_getD, List.getElem?_replicate]
  split_ifs <;> exact BitVec.getLsbD_zero

theorem length_set (w : List UInt64) (i : UInt64) : (set w i).length = w.length :=
  List.length_modify _ _ _

theorem length_clear (w : List UInt64) (i : UInt64) : (clear w i).length = w.length :=
  List.length_modify _ _ _

/-- **A store through a word operation** that acts on one bit. -/
theorem bit_modify {f : UInt64 → UInt64} {b : Bool → Bool → Bool}
    (hf : ∀ x k, k < 64 → (f x).toBitVec.getLsbD k =
      b (x.toBitVec.getLsbD k) (decide (i.toNat % 64 = k)))
    (hb : ∀ x, b x false = x) (hi : i.toNat / 64 < w.length) (k : ℕ) :
    bit (w.modify (i / 64).toNat f) k = b (bit w k) (decide (i.toNat = k)) := by
  have hmod : k % 64 < 64 := Nat.mod_lt _ (by decide)
  rw [bit, bit, UInt64.toNat_div, show (64 : UInt64).toNat = 64 from rfl,
    List.getD_eq_getElem?_getD, List.getD_eq_getElem?_getD, List.getElem?_modify]
  by_cases hw : i.toNat / 64 = k / 64
  · simp only [if_pos hw]
    rw [← hw, List.getElem?_eq_getElem hi]
    have hik : i.toNat = k ↔ i.toNat % 64 = k % 64 := by omega
    simp only [Option.map_eq_map, Option.map_some, Option.getD_some, hik]
    exact hf _ _ hmod
  · have hik : ¬ i.toNat = k := fun hc => hw (by rw [hc])
    simp only [if_neg hw, id_map', decide_eq_false hik, hb]

/-- **Setting a bit** changes that bit only. -/
theorem bit_set (hi : i.toNat / 64 < w.length) (k : ℕ) :
    bit (set w i) k = (bit w k || decide (i.toNat = k)) :=
  bit_modify (b := or) (fun x k _ => getLsbD_or_mask x i k) Bool.or_false hi k

/-- **Clearing a bit** changes that bit only. -/
theorem bit_clear (hi : i.toNat / 64 < w.length) (k : ℕ) :
    bit (clear w i) k = (bit w k && !decide (i.toNat = k)) :=
  bit_modify (b := fun x y => x && !y) (fun x _ hk => getLsbD_and_not_mask x i hk)
    (fun x => by simp) hi k

theorem test_set (hi : i.toNat / 64 < w.length) : test (set w i) j = (test w j || decide (i = j)) := by
  simp only [test_eq, bit_set hi, UInt64.toNat_inj]

theorem test_clear (hi : i.toNat / 64 < w.length) :
    test (clear w i) j = (test w j && !decide (i = j)) := by
  simp only [test_eq, bit_clear hi, UInt64.toNat_inj]

theorem length_setAll (w : List UInt64) (n : ℕ) : (setAll w n).length = w.length := by
  induction n with
  | zero => rfl
  | succ n ih =>
    rw [setAll, List.range_succ, List.foldl_append, List.foldl_cons, List.foldl_nil, length_set]
    exact ih

/-- **The first bits are set**, and the others are as they were. -/
theorem bit_setAll {n : ℕ} (hn : (n + 63) / 64 ≤ w.length) (hlt : n < 2 ^ 64) (k : ℕ) :
    bit (setAll w n) k = (bit w k || decide (k < n)) := by
  induction n with
  | zero => simp [setAll]
  | succ n ih =>
    have hof : (UInt64.ofNat n).toNat = n := by
      rw [UInt64.toNat_ofNat', Nat.mod_eq_of_lt (by omega)]
    rw [setAll, List.range_succ, List.foldl_append, List.foldl_cons, List.foldl_nil]
    change bit (set (setAll w n) (UInt64.ofNat n)) k = _
    rw [bit_set (by rw [length_setAll, hof]; omega), hof, ih (by omega) (by omega), Bool.or_assoc,
      ← Bool.decide_or]
    congr 2
    rw [eq_iff_iff]
    omega

theorem test_setAll {n : ℕ} (hn : (n + 63) / 64 ≤ w.length) (hlt : n < 2 ^ 64) (hj : j.toNat < n) :
    test (setAll w n) j = true := by
  rw [test_eq, bit_setAll hn hlt, decide_eq_true hj, Bool.or_true]

/-! ## Population counts -/

/-- The positions below `n` at which a bit is set. -/
def ones (w : List UInt64) (n : ℕ) : Finset ℕ := (Finset.range n).filter fun k => bit w k = true

variable {n : ℕ}

theorem mem_ones {k : ℕ} : k ∈ ones w n ↔ k < n ∧ bit w k = true := by
  rw [ones, Finset.mem_filter, Finset.mem_range]

theorem card_ones_le (w : List UInt64) (n : ℕ) : (ones w n).card ≤ n :=
  (Finset.card_filter_le _ _).trans_eq (Finset.card_range n)

/-- **Setting a bit that is clear** adds one to the count. -/
theorem card_ones_set (hi : i.toNat / 64 < w.length) (hn : i.toNat < n) (hclear : test w i = false) :
    (ones (set w i) n).card = (ones w n).card + 1 := by
  rw [test_eq] at hclear
  have hnew : i.toNat ∉ ones w n := by simp [mem_ones, hclear]
  have hset : ones (set w i) n = insert i.toNat (ones w n) := by
    ext k
    rw [Finset.mem_insert, mem_ones, mem_ones, bit_set hi, Bool.or_eq_true, decide_eq_true_iff]
    constructor
    · rintro ⟨hk, hbit | rfl⟩
      · exact .inr ⟨hk, hbit⟩
      · exact .inl rfl
    · rintro (rfl | ⟨hk, hbit⟩)
      · exact ⟨hn, .inr rfl⟩
      · exact ⟨hk, .inl hbit⟩
  rw [hset, Finset.card_insert_of_notMem hnew]

/-- **Clearing a bit that is set** takes one from the count. -/
theorem card_ones_clear (hi : i.toNat / 64 < w.length) (hn : i.toNat < n) (hset : test w i = true) :
    (ones (clear w i) n).card + 1 = (ones w n).card := by
  rw [test_eq] at hset
  have hold : i.toNat ∈ ones w n := mem_ones.mpr ⟨hn, hset⟩
  have hclear : ones (clear w i) n = (ones w n).erase i.toNat := by
    ext k
    simp only [Finset.mem_erase, mem_ones, bit_clear hi, Bool.and_eq_true, Bool.not_eq_true',
      decide_eq_false_iff_not]
    constructor
    · rintro ⟨hk, hbit, hne⟩
      exact ⟨Ne.symm hne, hk, hbit⟩
    · rintro ⟨hne, hk, hbit⟩
      exact ⟨hk, hbit, Ne.symm hne⟩
  rw [hclear, Finset.card_erase_add_one hold]

/-! ## Set bits in order -/

/-- The positions below `n` at which a bit is set, in increasing order. -/
def positions (w : List UInt64) (n : ℕ) : List ℕ := (List.range n).filter (bit w)

theorem mem_positions {k : ℕ} : k ∈ positions w n ↔ k < n ∧ bit w k = true := by
  rw [positions, List.mem_filter, List.mem_range]

theorem nodup_positions (w : List UInt64) (n : ℕ) : (positions w n).Nodup := List.nodup_range.filter _

theorem length_positions (w : List UInt64) (n : ℕ) : (positions w n).length = (ones w n).card := by
  have hones : ones w n = (positions w n).toFinset := by
    ext k
    rw [List.mem_toFinset, mem_ones, mem_positions]
  rw [hones, List.toFinset_card_of_nodup (nodup_positions w n)]

/-- **The first set bits are cleared**, and the others are left. -/
theorem positions_drop {w' : List UInt64} {m : ℕ}
    (hbit : ∀ k, bit w' k = (bit w k && !decide (k ∈ (positions w n).take m))) :
    positions w' n = (positions w n).drop m := by
  have hfilter : positions w' n = (positions w n).filter fun k => !decide (k ∈ (positions w n).take m) := by
    rw [positions, funext hbit]
    conv_rhs => rw [positions, List.filter_filter]
    exact List.filter_congr fun k _ => Bool.and_comm _ _
  have hnd := nodup_positions w n
  rw [← List.take_append_drop m (positions w n), List.nodup_append] at hnd
  obtain ⟨-, -, hdisjoint⟩ := hnd
  rw [hfilter]
  conv_lhs => rw [← List.take_append_drop m (positions w n), List.filter_append]
  rw [List.filter_eq_nil_iff.mpr, List.nil_append, List.filter_eq_self]
  · intro k hk
    rw [Bool.not_eq_true', decide_eq_false_iff_not, List.take_append_drop]
    exact fun hkt => hdisjoint k hkt k hk rfl
  · intro k hk
    simpa using hk

/-! ## The next set bit -/

/-- `r` is the first set bit from `lo` on and below `hi`, or `hi` where none is set. -/
def IsNext (w : List UInt64) (lo hi r : ℕ) : Prop :=
  (lo ≤ r ∧ r < hi ∧ bit w r = true ∧ ∀ k, lo ≤ k → k < r → bit w k = false) ∨
    r = hi ∧ ∀ k, lo ≤ k → k < hi → bit w k = false

variable {lo mid hi r k : ℕ}

theorem isNext_of_le (hle : hi ≤ lo) : IsNext w lo hi hi :=
  .inr ⟨rfl, fun _ hlo hhi => absurd (hlo.trans_lt hhi) (not_lt.mpr hle)⟩

theorem IsNext.le (h : IsNext w lo hi r) (hle : lo ≤ hi) : lo ≤ r := by
  obtain ⟨hlo, -⟩ | ⟨rfl, -⟩ := h
  · exact hlo
  · exact hle

theorem IsNext.bit_eq_false (h : IsNext w lo hi r) (hlo : lo ≤ k) (hk : k < r) : bit w k = false := by
  obtain ⟨-, -, -, hclear⟩ | ⟨rfl, hclear⟩ := h
  · exact hclear k hlo hk
  · exact hclear k hlo hk

theorem IsNext.bit_eq_true (h : IsNext w lo hi r) (hr : r < hi) : bit w r = true := by
  obtain ⟨-, -, hset, -⟩ | ⟨rfl, -⟩ := h
  · exact hset
  · exact absurd hr (lt_irrefl r)

/-- **A bit inside the range** is the next one when it is set and none before it is. -/
theorem isNext_iff_of_lt (hlo : lo ≤ r) (hr : r < hi) :
    IsNext w lo hi r ↔ bit w r = true ∧ ∀ k, lo ≤ k → k < r → bit w k = false :=
  ⟨fun h => ⟨h.bit_eq_true hr, fun _ => h.bit_eq_false⟩, fun h => .inl ⟨hlo, hr, h⟩⟩

theorem isNext_self_iff (hlt : lo < hi) : IsNext w lo hi lo ↔ bit w lo = true := by
  rw [isNext_iff_of_lt le_rfl hlt]
  exact and_iff_left fun k hk hlo => absurd hk (not_le.mpr hlo)

theorem isNext_iff_of_clear (hle : lo ≤ mid) (hhi : mid ≤ hi)
    (hclear : ∀ k, lo ≤ k → k < mid → bit w k = false) : IsNext w lo hi r ↔ IsNext w mid hi r := by
  have hback : ∀ k, lo ≤ k → (mid ≤ k → bit w k = false) → bit w k = false := by
    intro k hlo hk
    by_cases hmid : k < mid
    · exact hclear k hlo hmid
    · exact hk (not_lt.mp hmid)
  constructor
  · rintro (⟨hlo, hr, hset, hbelow⟩ | ⟨rfl, hbelow⟩)
    · refine .inl ⟨?_, hr, hset, fun k hk => hbelow k (hle.trans hk)⟩
      by_contra hmid
      rw [hclear r hlo (not_le.mp hmid)] at hset
      cases hset
    · exact .inr ⟨rfl, fun k hk => hbelow k (hle.trans hk)⟩
  · rintro (⟨hlo, hr, hset, hbelow⟩ | ⟨rfl, hbelow⟩)
    · exact .inl ⟨hle.trans hlo, hr, hset, fun k hk hkr => hback k hk fun hmid => hbelow k hmid hkr⟩
    · exact .inr ⟨rfl, fun k hk hkr => hback k hk fun hmid => hbelow k hmid hkr⟩

/-- **A search that stops early** finds the next set bit if there is one up to where it stops, or the range
ends there. -/
theorem IsNext.extend_iff (h : IsNext w lo mid r) (hlo : lo ≤ mid) (hhi : mid ≤ hi) :
    IsNext w lo hi r ↔ (∃ k, lo ≤ k ∧ k < mid ∧ bit w k = true) ∨ mid = hi ∨ bit w mid = true := by
  obtain ⟨hle, hr, hset, hbelow⟩ | ⟨rfl, hclear⟩ := h
  · exact iff_of_true (.inl ⟨hle, hr.trans_le hhi, hset, hbelow⟩) (.inl ⟨r, hle, hr, hset⟩)
  · have hnone : ¬ ∃ k, lo ≤ k ∧ k < r ∧ bit w k = true := by
      rintro ⟨k, hk, hkr, hset⟩
      rw [hclear k hk hkr] at hset
      cases hset
    rw [or_iff_right hnone]
    obtain rfl | hlt := hhi.eq_or_lt
    · exact iff_of_true (.inr ⟨rfl, hclear⟩) (.inl rfl)
    · rw [or_iff_right hlt.ne, isNext_iff_of_lt hlo hlt]
      exact and_iff_left hclear

/-! ## Words of a bitmap -/

variable {x : UInt64} {p : ℕ}

theorem bit_word (hp : w[p]? = some x) (hk : k < 64) : bit w (64 * p + k) = x.toBitVec.getLsbD k := by
  have hdiv : (64 * p + k) / 64 = p := by omega
  have hmod : (64 * p + k) % 64 = k := by omega
  rw [bit, hdiv, hmod, List.getD_eq_getElem?_getD, hp, Option.getD_some]

/-- `x & ~63` -/
theorem toNat_and_not_63 (x : UInt64) : (x &&& ~~~63).toNat = 64 * (x.toNat / 64) := by
  refine Nat.eq_of_testBit_eq fun i => ?_
  have hlow : (63 : UInt64).toBitVec.getLsbD i = decide (i < 6) := by
    rw [← BitVec.testBit_toNat, show (63 : UInt64).toBitVec.toNat = 2 ^ 6 - 1 from rfl,
      Nat.testBit_two_pow_sub_one]
  have hword : (64 * (x.toNat / 64)).testBit i = (decide (6 ≤ i) && x.toNat.testBit (i - 6 + 6)) := by
    rw [show 64 = 2 ^ 6 from rfl, Nat.testBit_two_pow_mul, Nat.testBit_div_two_pow]
  rw [hword, ← UInt64.toNat_toBitVec, ← UInt64.toNat_toBitVec, BitVec.testBit_toNat, BitVec.testBit_toNat,
    UInt64.toBitVec_and, BitVec.getLsbD_and, UInt64.toBitVec_not, BitVec.getLsbD_not, hlow]
  by_cases hi : i < 6
  · simp [hi, not_le.mpr hi]
  · rw [Nat.sub_add_cancel (not_lt.mp hi)]
    by_cases h64 : i < 64
    · simp [hi, h64, not_lt.mp hi]
    · simp [h64, BitVec.getLsbD_of_ge _ _ (not_lt.mp h64)]

/-- `x & (~0 >> o)` -/
theorem getLsbD_and_shiftRight (x : UInt64) {o : UInt64} (ho : o.toNat < 64) (k : ℕ) :
    (x &&& (~~~0 >>> o)).toBitVec.getLsbD k = (x.toBitVec.getLsbD k && decide (k < 64 - o.toNat)) := by
  have hshift : (o.toBitVec % 64).toNat = o.toNat := by
    rw [BitVec.toNat_umod, UInt64.toNat_toBitVec]
    exact Nat.mod_eq_of_lt ho
  have hones : (~~~0 : UInt64).toBitVec = BitVec.allOnes 64 := rfl
  rw [UInt64.toBitVec_and, BitVec.getLsbD_and, UInt64.toBitVec_shiftRight, BitVec.ushiftRight_eq', hshift,
    BitVec.getLsbD_ushiftRight, hones, BitVec.getLsbD_allOnes]
  congr 2
  rw [eq_iff_iff]
  omega

theorem toNat_ctz_lt (hx : x ≠ 0) : x.toBitVec.ctz.toNat < 64 :=
  BitVec.ctz_lt_iff_ne_zero.mpr fun h => hx (UInt64.toBitVec_inj.mp h)

/-- **The lowest set bit of a word** is the next one of the bitmap, as far as the word is the bitmap's. -/
theorem isNext_ctz {m : ℕ} (hx : x ≠ 0)
    (hbit : ∀ k < 64, x.toBitVec.getLsbD k = (bit w (64 * p + k) && decide (k < m))) :
    IsNext w (64 * p) (64 * p + m) (64 * p + x.toBitVec.ctz.toNat) ∧ x.toBitVec.ctz.toNat < m := by
  have hlt := toNat_ctz_lt hx
  have hset : x.toBitVec.getLsbD x.toBitVec.ctz.toNat = true :=
    BitVec.getLsbD_true_ctz_of_ne_zero fun h => hx (UInt64.toBitVec_inj.mp h)
  rw [hbit _ hlt, Bool.and_eq_true, decide_eq_true_iff] at hset
  refine ⟨(isNext_iff_of_lt (by omega) (by omega)).mpr ⟨hset.1, fun k hle hk => ?_⟩, hset.2⟩
  obtain ⟨j, rfl⟩ := Nat.exists_eq_add_of_le hle
  have hj : j < x.toBitVec.ctz.toNat := by omega
  have hclear := BitVec.getLsbD_false_of_lt_ctz hj
  rw [hbit j (by omega), decide_eq_true (by omega), Bool.and_true] at hclear
  exact hclear

end Bitmap
