import Mathlib.Data.List.Basic
import Mathlib.Data.Nat.Bitwise
import Mathlib.Logic.Function.Iterate

/-!
# Cyclic redundancy checks

A shift register of `w` bits that takes in one bit at a time at its low end.

* `step`, `step_xor`, `step_eq_zero_iff`: one turn of the register is linear, and loses nothing;
* `feed`, `feed_xor`, **`feed_eq_iterate`**: taking in bits, and how up to `w` bits at once are taken in;
* **`iterate_step_eq`**: the low bits of a register decide what is added to the others;
* **`feed_ne_of_burst`**: messages that differ in `w` consecutive places at most leave different registers.
-/

namespace Crc

variable {w n : ℕ} {poly r s : BitVec w} {xs ys : List Bool}

/-! ## The register -/

/-- A turn of the register. -/
def step (poly r : BitVec w) : BitVec w := (r >>> 1) ^^^ if r.getLsbD 0 then poly else 0#w

theorem step_zero (poly : BitVec w) : step poly 0#w = 0#w := by
  simp [step]

/-- **A turn is linear.** -/
theorem step_xor (poly r s : BitVec w) : step poly (r ^^^ s) = step poly r ^^^ step poly s := by
  ext i hi
  cases hr : r.getLsbD 0 <;> cases hs : s.getLsbD 0 <;>
    simp [step, hr, hs, Bool.xor_comm, Bool.xor_left_comm]

theorem step_of_low {r : BitVec w} (hr : r.getLsbD 0 = false) : step poly r = r >>> 1 := by
  simp [step, hr]

theorem step_eq_zero_iff (hp : poly.getLsbD (w - 1) = true) : step poly r = 0#w ↔ r = 0#w := by
  constructor
  · intro h
    have hlow : r.getLsbD 0 = false := by
      cases hr : r.getLsbD 0 with
      | false => rfl
      | true =>
        have hw : r.getLsbD (1 + (w - 1)) = false := BitVec.getLsbD_of_ge _ _ (by omega)
        have htop := congrArg (BitVec.getLsbD · (w - 1)) h
        simp only [step, hr, if_true, BitVec.getLsbD_xor, BitVec.getLsbD_ushiftRight, hw, hp,
          BitVec.getLsbD_zero] at htop
        cases htop
    rw [step_of_low hlow] at h
    refine BitVec.eq_of_getLsbD_eq fun i hi => ?_
    rw [BitVec.getLsbD_zero]
    cases i with
    | zero => exact hlow
    | succ i =>
      have hbit := congrArg (BitVec.getLsbD · i) h
      simpa only [BitVec.getLsbD_ushiftRight, BitVec.getLsbD_zero, Nat.add_comm 1 i] using hbit
  · rintro rfl
    exact step_zero poly

theorem iterate_step_eq_zero_iff (hp : poly.getLsbD (w - 1) = true) :
    (step poly)^[n] r = 0#w ↔ r = 0#w := by
  induction n with
  | zero => rfl
  | succ n ih => rw [Function.iterate_succ_apply', step_eq_zero_iff hp, ih]

theorem iterate_step_xor (poly : BitVec w) (n : ℕ) (r s : BitVec w) :
    (step poly)^[n] (r ^^^ s) = (step poly)^[n] r ^^^ (step poly)^[n] s := by
  induction n with
  | zero => rfl
  | succ n ih => simp only [Function.iterate_succ_apply', ih, step_xor]

theorem iterate_step_of_low (hr : ∀ i < n, r.getLsbD i = false) : (step poly)^[n] r = r >>> n := by
  induction n with
  | zero => simp
  | succ n ih =>
    have hlow : (r >>> n).getLsbD 0 = false := by simpa using hr n n.lt_succ_self
    rw [Function.iterate_succ_apply', ih fun i hi => hr i (by omega), step_of_low hlow,
      BitVec.shiftRight_add]

/-- **The low bits decide what is added to the others.** -/
theorem iterate_step_eq (poly : BitVec w) (n : ℕ) (r : BitVec w) :
    (step poly)^[n] r = (step poly)^[n] (r &&& BitVec.ofNat w (2 ^ n - 1)) ^^^ (r >>> n) := by
  have hmask : ∀ i < w, (BitVec.ofNat w (2 ^ n - 1)).getLsbD i = decide (i < n) := fun i hi => by
    rw [BitVec.getLsbD_ofNat, Nat.testBit_two_pow_sub_one, decide_eq_true hi, Bool.true_and]
  generalize BitVec.ofNat w (2 ^ n - 1) = mask at hmask ⊢
  have hsplit : r = (r &&& mask) ^^^ (r &&& ~~~ mask) := by
    ext i hi
    rw [BitVec.getElem_xor, BitVec.getElem_and, BitVec.getElem_and, BitVec.getElem_not]
    cases r[i] <;> cases mask[i] <;> rfl
  have hlow : ∀ i < n, (r &&& ~~~ mask).getLsbD i = false := by
    intro i hi
    by_cases hw : i < w
    · rw [BitVec.getLsbD_and, BitVec.getLsbD_not, hmask i hw]
      simp [hi]
    · exact BitVec.getLsbD_of_ge _ _ (by omega)
  have hshift : (r &&& ~~~ mask) >>> n = r >>> n := by
    refine BitVec.eq_of_getLsbD_eq fun i hi => ?_
    rw [BitVec.getLsbD_ushiftRight, BitVec.getLsbD_ushiftRight]
    by_cases hw : n + i < w
    · rw [BitVec.getLsbD_and, BitVec.getLsbD_not, hmask _ hw]
      simp [hw]
    · rw [BitVec.getLsbD_of_ge _ _ (by omega), BitVec.getLsbD_of_ge _ _ (by omega)]
  conv_lhs => rw [hsplit]
  rw [iterate_step_xor, iterate_step_of_low hlow, hshift]

/-! ## Messages -/

/-- The register takes in some bits, one after the other. -/
def feed (poly : BitVec w) : BitVec w → List Bool → BitVec w
  | r, [] => r
  | r, x :: xs => feed poly (step poly (r ^^^ BitVec.setWidth w (BitVec.ofBool x))) xs

/-- Some bits as a word, the first one lowest. -/
def word (w : ℕ) : List Bool → BitVec w
  | [] => 0#w
  | x :: xs => BitVec.setWidth w (BitVec.ofBool x) ^^^ (word w xs <<< 1)

theorem getLsbD_word {i : ℕ} (hi : i < w) : (word w xs).getLsbD i = xs.getD i false := by
  induction xs generalizing i with
  | nil => simp [word]
  | cons x xs ih =>
    rw [word, BitVec.getLsbD_xor, BitVec.getLsbD_setWidth, BitVec.getLsbD_ofBool, BitVec.getLsbD_shiftLeft]
    cases i with
    | zero => simp [hi]
    | succ i => simp [hi, ih (Nat.lt_of_succ_lt hi)]

/-- A word that does not fill the register comes back from one place further up in one turn. -/
theorem step_word (hlen : xs.length < w) : step poly (word w xs <<< 1) = word w xs := by
  rw [step_of_low (by simp)]
  refine BitVec.eq_of_getLsbD_eq fun i hi => ?_
  rw [BitVec.getLsbD_ushiftRight, BitVec.getLsbD_shiftLeft]
  by_cases hout : 1 + i < w
  · simp [hout]
  · have htop : xs.length ≤ i := by omega
    simp [hout, getLsbD_word hi, htop]

/-- **Up to `w` bits** are taken in as if they had all been added before the first turn. -/
theorem feed_eq_iterate (poly r : BitVec w) (hlen : xs.length ≤ w) :
    feed poly r xs = (step poly)^[xs.length] (r ^^^ word w xs) := by
  induction xs generalizing r with
  | nil => simp [feed, word]
  | cons x xs ih =>
    rw [List.length_cons] at hlen
    have hword : step poly (word w xs <<< 1) = word w xs := step_word (Nat.lt_of_succ_le hlen)
    rw [feed, ih _ (by omega), List.length_cons, Function.iterate_succ_apply, word, ← BitVec.xor_assoc,
      step_xor poly _ (word w xs <<< 1), hword]

theorem feed_append (poly r : BitVec w) (xs ys : List Bool) :
    feed poly r (xs ++ ys) = feed poly (feed poly r xs) ys := by
  induction xs generalizing r with
  | nil => rfl
  | cons x xs ih => rw [List.cons_append, feed, ih, feed]

theorem feed_replicate (poly r : BitVec w) (n : ℕ) :
    feed poly r (List.replicate n false) = (step poly)^[n] r := by
  induction n generalizing r with
  | zero => rfl
  | succ n ih => simp [List.replicate_succ, feed, ih]

/-- **Taking in bits is linear.** -/
theorem feed_xor (poly r s : BitVec w) (hlen : xs.length = ys.length) :
    feed poly (r ^^^ s) (List.zipWith xor xs ys) = feed poly r xs ^^^ feed poly s ys := by
  induction xs generalizing r s ys with
  | nil =>
    obtain rfl := List.eq_nil_of_length_eq_zero hlen.symm
    rfl
  | cons x xs ih =>
    obtain _ | ⟨y, ys⟩ := ys
    · cases hlen
    · have hbit : BitVec.setWidth w (BitVec.ofBool (xor x y)) =
          BitVec.setWidth w (BitVec.ofBool x) ^^^ BitVec.setWidth w (BitVec.ofBool y) := by
        cases x <;> cases y <;> simp
      have hadd : r ^^^ s ^^^ BitVec.setWidth w (BitVec.ofBool (xor x y)) =
          (r ^^^ BitVec.setWidth w (BitVec.ofBool x)) ^^^ (s ^^^ BitVec.setWidth w (BitVec.ofBool y)) := by
        rw [hbit]
        ac_rfl
      rw [List.zipWith_cons_cons, feed, hadd, step_xor, ih _ _ (Nat.succ.inj hlen), feed, feed]

/-! ## Bursts -/

theorem eq_replicate_false (hxs : ∀ i : ℕ, xs[i]? ≠ some true) : xs = List.replicate xs.length false := by
  refine List.eq_replicate_of_mem fun x hx => ?_
  obtain ⟨i, hi⟩ := List.mem_iff_getElem?.mp hx
  cases x with
  | false => rfl
  | true => exact absurd hi (hxs i)

theorem feed_zero_ne (hp : poly.getLsbD (w - 1) = true) {a i : ℕ} (hi : xs[i]? = some true)
    (hburst : ∀ j : ℕ, xs[j]? = some true → a ≤ j ∧ j < a + w) : feed poly 0#w xs ≠ 0#w := by
  have hfront : xs.take a = List.replicate (xs.take a).length false := eq_replicate_false fun j hj => by
    rw [List.getElem?_take] at hj
    split_ifs at hj with hja
    exact absurd (hburst j hj).1 (by omega)
  have hback : (xs.drop a).drop w = List.replicate ((xs.drop a).drop w).length false :=
    eq_replicate_false fun j hj => by
      rw [List.getElem?_drop, List.getElem?_drop] at hj
      exact absurd (hburst _ hj).2 (by omega)
  have hparts : xs = xs.take a ++ ((xs.drop a).take w ++ (xs.drop a).drop w) := by
    rw [List.take_append_drop, List.take_append_drop]
  rw [hparts, feed_append, feed_append, hfront, hback, feed_replicate, feed_replicate,
    (iterate_step_eq_zero_iff hp).mpr rfl, Ne, iterate_step_eq_zero_iff hp,
    feed_eq_iterate _ _ (List.length_take_le _ _), iterate_step_eq_zero_iff hp, BitVec.zero_xor]
  intro hword
  -- the word has the bit that is wrong
  obtain ⟨hlow, hhigh⟩ := hburst i hi
  have hbit : (word w ((xs.drop a).take w)).getLsbD (i - a) = _ := getLsbD_word (by omega)
  have hplace : a + (i - a) = i := by omega
  have hmid : ((xs.drop a).take w)[i - a]? = some true := by
    rw [List.getElem?_take_of_lt (by omega), List.getElem?_drop, hplace, hi]
  rw [hword, BitVec.getLsbD_zero, List.getD_eq_getElem?_getD, hmid] at hbit
  cases hbit

/-- **Bursts are detected**: messages of one length that differ, but only within `w` places, leave
different registers. -/
theorem feed_ne_of_burst (hp : poly.getLsbD (w - 1) = true) (r : BitVec w) (hlen : xs.length = ys.length)
    (hne : xs ≠ ys) {a : ℕ} (hburst : ∀ i : ℕ, xs[i]? ≠ ys[i]? → a ≤ i ∧ i < a + w) :
    feed poly r xs ≠ feed poly r ys := by
  have herror : ∀ i : ℕ, (List.zipWith xor xs ys)[i]? = some true ↔ xs[i]? ≠ ys[i]? := by
    intro i
    have hzip : (List.zipWith xor xs ys).length = xs.length := by simp [hlen]
    by_cases hi : i < xs.length
    · rw [List.getElem?_eq_getElem hi, List.getElem?_eq_getElem (by omega),
        List.getElem?_eq_getElem (by omega)]
      simp
    · rw [List.getElem?_eq_none (by omega), List.getElem?_eq_none (by omega),
        List.getElem?_eq_none (by omega)]
      simp
  obtain ⟨i, hi⟩ : ∃ i : ℕ, xs[i]? ≠ ys[i]? := by
    by_contra hall
    exact hne (List.ext_getElem? fun i => not_not.mp fun hi => hall ⟨i, hi⟩)
  have hzero := feed_zero_ne hp ((herror i).mpr hi) fun j hj => hburst j ((herror j).mp hj)
  intro heq
  have hxor := feed_xor poly r r hlen
  rw [heq, BitVec.xor_self, BitVec.xor_self] at hxor
  exact hzero hxor

end Crc
