import Mathlib.Data.List.Basic
import Mathlib.Data.UInt
import Mathlib.Logic.Function.Basic

/-!
# Flags packed into bytes

* `setBit`, `clearBit`, `getLsbD_setBit`, `getLsbD_clearBit`: one bit of a byte;
* `bitAt`, `storeBit`, **`bitAt_storeBit`**: bit `i` of the bytes from an address on, and a store to a bit;
* `lastCall`, `lastCall_append`: whether the last of the calls on some names turned a flag on;
* **`lastCall_or_iff`**: a flag that two names share follows both just if the two agree.
-/

namespace Flags

/-! ## Bytes -/

/-- `x | (1 << bit)` -/
def setBit (x : UInt8) (bit : ℕ) : UInt8 := x ||| (1 <<< UInt8.ofNat bit)

/-- `x & ~(1 << bit)` -/
def clearBit (x : UInt8) (bit : ℕ) : UInt8 := x &&& ~~~ (1 <<< UInt8.ofNat bit)

/-- Turn a bit on or off. -/
def changeBit (on : Bool) (x : UInt8) (bit : ℕ) : UInt8 :=
  if on then setBit x bit else clearBit x bit

theorem getLsbD_shifted {bit k : ℕ} (hbit : bit < 8) :
    ((1 : UInt8) <<< UInt8.ofNat bit).toBitVec.getLsbD k = decide (bit = k) := by
  have hlt : 2 ^ bit < 2 ^ 8 := Nat.pow_lt_pow_right (by decide) hbit
  rw [← BitVec.testBit_toNat, UInt8.toNat_toBitVec, UInt8.toNat_shiftLeft, UInt8.toNat_ofNat',
    Nat.mod_eq_of_lt (show bit < 2 ^ 8 by omega), Nat.mod_eq_of_lt hbit, UInt8.toNat_one,
    Nat.one_shiftLeft, Nat.mod_eq_of_lt hlt, Nat.testBit_two_pow]

theorem getLsbD_setBit {bit k : ℕ} (x : UInt8) (hbit : bit < 8) :
    (setBit x bit).toBitVec.getLsbD k = (x.toBitVec.getLsbD k || decide (bit = k)) := by
  rw [setBit, UInt8.toBitVec_or, BitVec.getLsbD_or, getLsbD_shifted hbit]

theorem getLsbD_clearBit {bit k : ℕ} (x : UInt8) (hbit : bit < 8) (hk : k < 8) :
    (clearBit x bit).toBitVec.getLsbD k = (x.toBitVec.getLsbD k && !decide (bit = k)) := by
  rw [clearBit, UInt8.toBitVec_and, BitVec.getLsbD_and, UInt8.toBitVec_not, BitVec.getLsbD_not,
    getLsbD_shifted hbit, decide_eq_true hk, Bool.true_and]

theorem getLsbD_changeBit {bit k : ℕ} (on : Bool) (x : UInt8) (hbit : bit < 8) (hk : k < 8) :
    (changeBit on x bit).toBitVec.getLsbD k = if bit = k then on else x.toBitVec.getLsbD k := by
  cases on with
  | true =>
    rw [changeBit, if_pos rfl, getLsbD_setBit x hbit]
    split_ifs with h <;> simp [h]
  | false =>
    rw [changeBit, if_neg Bool.false_ne_true, getLsbD_clearBit x hbit hk]
    split_ifs with h <;> simp [h]

/-! ## Memory -/

/-- Bit `i` of the bytes from `base` on. -/
def bitAt (m : ℕ → UInt8) (base i : ℕ) : Bool := (m (base + i / 8)).toBitVec.getLsbD (i % 8)

/-- Turn a bit of the byte at `a` on or off. -/
def storeBit (m : ℕ → UInt8) (on : Bool) (a bit : ℕ) : ℕ → UInt8 :=
  Function.update m a (changeBit on (m a) bit)

variable {m : ℕ → UInt8} {on : Bool} {base a index bit i j : ℕ}

/-- **A store to a bit** changes that bit only. -/
theorem bitAt_storeBit (hbit : bit < 8) : bitAt (storeBit m on (base + index) bit) base j =
    if 8 * index + bit = j then on else bitAt m base j := by
  have hj : j % 8 < 8 := Nat.mod_lt _ (by decide)
  unfold bitAt storeBit
  by_cases hbyte : index = j / 8
  · rw [hbyte, Function.update_self, getLsbD_changeBit on _ hbit hj]
    have hij : bit = j % 8 ↔ 8 * (j / 8) + bit = j := by omega
    simp only [hij]
  · have hne : base + j / 8 ≠ base + index := by omega
    have hij : ¬ 8 * index + bit = j := by omega
    rw [Function.update_of_ne hne, if_neg hij]

theorem bitAt_storeBit_of_ne (h : base + j / 8 ≠ a) :
    bitAt (storeBit m on a bit) base j = bitAt m base j := by
  unfold bitAt storeBit
  rw [Function.update_of_ne h]

theorem bitAt_zero (h : m (base + i / 8) = 0) : bitAt m base i = false := by
  rw [bitAt, h]
  exact BitVec.getLsbD_zero

/-! ## Calls -/

variable {κ : Type} {p q r : κ → Bool}

/-- Whether the last of the calls on names in `p` turned its flag on; `false` if there is none. -/
def lastCall (p : κ → Bool) (calls : List (κ × Bool)) : Bool :=
  calls.foldl (fun b x => if p x.1 then x.2 else b) false

@[simp] theorem lastCall_nil (p : κ → Bool) : lastCall p [] = false := rfl

theorem lastCall_append (p : κ → Bool) (calls : List (κ × Bool)) (x : κ × Bool) :
    lastCall p (calls ++ [x]) = if p x.1 then x.2 else lastCall p calls := by
  rw [lastCall, List.foldl_append]
  rfl

theorem lastCall_or (h : ∀ x, p x = (q x || r x)) (calls : List (κ × Bool)) :
    lastCall p calls = lastCall q calls ∨ lastCall p calls = lastCall r calls := by
  induction calls using List.reverseRecOn with
  | nil => exact .inl rfl
  | append_singleton calls x ih =>
    rw [lastCall_append, lastCall_append, lastCall_append, h]
    cases hq : q x.1 with
    | true => exact .inl rfl
    | false =>
      cases hr : r x.1 with
      | true => exact .inr rfl
      | false => exact ih

/-- **A flag of two names** follows the calls on each just if the last calls on the two agree. -/
theorem lastCall_or_iff (h : ∀ x, p x = (q x || r x)) (calls : List (κ × Bool)) :
    lastCall p calls = lastCall q calls ∧ lastCall p calls = lastCall r calls ↔
      lastCall q calls = lastCall r calls := by
  constructor
  · rintro ⟨hq, hr⟩
    exact hq.symm.trans hr
  · intro hqr
    rcases lastCall_or h calls with hp | hp
    · exact ⟨hp, hp.trans hqr⟩
    · exact ⟨hp.trans hqr.symm, hp⟩

end Flags
