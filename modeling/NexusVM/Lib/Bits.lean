import Mathlib.Data.Nat.Bitwise
import Mathlib.Data.Set.Insert
import Mathlib.Order.Interval.Set.Defs
import Mathlib.Order.Lattice

/-!
# Numbers as sets of bits

* `ones`, `ones_or`, `ones_and`, `ones_two_pow`: the bits of a number that are set;
* `and_two_pow_ne_zero_iff`, `shift_and_one_iff`: two tests of one bit;
* `full_or`: a number all of whose bits are set;
* **`sup_inf_mem_Icc_iff`**: a request to which all that is required of what is on offer is added.
-/

namespace Bits

/-- The bits that are set. -/
def ones (x : ℕ) : Set ℕ := {i | x.testBit i = true}

variable {x y i n : ℕ}

theorem mem_ones : i ∈ ones x ↔ x.testBit i = true := Iff.rfl

theorem ones_or (x y : ℕ) : ones (x ||| y) = ones x ∪ ones y := by
  ext i
  rw [Set.mem_union, mem_ones, Nat.testBit_or, Bool.or_eq_true]
  rfl

theorem ones_and (x y : ℕ) : ones (x &&& y) = ones x ∩ ones y := by
  ext i
  rw [Set.mem_inter_iff, mem_ones, Nat.testBit_and, Bool.and_eq_true]
  rfl

theorem ones_zero : ones 0 = ∅ := by
  ext i
  simp [mem_ones]

theorem ones_two_pow (n : ℕ) : ones (2 ^ n) = {n} := by
  ext i
  rw [mem_ones, Nat.testBit_two_pow, decide_eq_true_eq, Set.mem_singleton_iff, eq_comm]

theorem ones_subset_iff : ones x ⊆ ones y ↔ x &&& y = x := by
  constructor
  · intro h
    refine Nat.eq_of_testBit_eq fun i => ?_
    rw [Nat.testBit_and]
    cases hi : x.testBit i with
    | false => rw [Bool.false_and]
    | true => rw [show y.testBit i = true from h hi, Bool.true_and]
  · intro h i hi
    rw [← h, ones_and] at hi
    exact hi.2

theorem full_or (hx : x < 2 ^ n) : (2 ^ n - 1) ||| x = 2 ^ n - 1 := by
  have hfull : 2 ^ n - 1 < 2 ^ n := Nat.sub_one_lt (Nat.two_pow_pos n).ne'
  have hlt : (2 ^ n - 1) ||| x < 2 ^ n := Nat.or_lt_two_pow hfull hx
  exact le_antisymm (Nat.le_sub_one_of_lt hlt) Nat.left_le_or

/-! ## Tests -/

theorem and_two_pow_ne_zero_iff : x &&& 2 ^ n ≠ 0 ↔ n ∈ ones x := by
  rw [Nat.and_two_pow, mem_ones]
  cases x.testBit n <;> simp

theorem shift_and_one_iff : (x >>> n) &&& 1 = 1 ↔ n ∈ ones x := by
  rw [Nat.and_one_is_mod, mem_ones, Nat.testBit_eq_decide_div_mod_eq, decide_eq_true_eq,
    Nat.shiftRight_eq_div_pow]

/-! ## What is required and what is on offer -/

/-- **A request that is granted.** Where all of the request and of what is required is on offer, a request
to which the required part of `opt` is added has all that is required if and only if the rest of it was
asked for. -/
theorem sup_inf_mem_Icc_iff {α : Type} [DistribLattice α] {must may base opt : α} (hmust : must ≤ may)
    (hbase : base ≤ may) : base ⊔ (must ⊓ opt) ∈ Set.Icc must may ↔ must ≤ base ⊔ opt := by
  have hmay : base ⊔ (must ⊓ opt) ≤ may := sup_le hbase (inf_le_left.trans hmust)
  have hsplit : base ⊔ (must ⊓ opt) = (base ⊔ must) ⊓ (base ⊔ opt) := sup_inf_left base must opt
  constructor
  · rintro ⟨h, -⟩
    exact h.trans (sup_le_sup_left inf_le_right base)
  · intro h
    exact ⟨hsplit ▸ le_inf le_sup_right h, hmay⟩

end Bits
