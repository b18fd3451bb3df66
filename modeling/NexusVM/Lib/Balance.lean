import Mathlib.Algebra.BigOperators.Group.Finset.Basic
import Mathlib.Algebra.Order.BigOperators.Group.Finset
import Mathlib.Data.Fintype.BigOperators
import Mathlib.Data.Multiset.Basic
import Mathlib.Order.OrderIsoNat
import Mathlib.Tactic.Linarith

/-!
# Balancing queues

A queue gives its first element to a shortest other one if it is longer by more than two.

* `Moves`, `sum_moved`: such a move, and what it does to a sum over all queues;
* **`Moves.elements`**, **`Moves.squares`**: the elements stay, and the sum of the squared
  lengths gets smaller;
* `exists_moves`, **`balanced_of_forall`**: with no move left, all lengths are within two of each other;
* **`finite_moves`**: a sequence has finitely many moves.
-/

namespace Balance

open Finset Function

variable {ι α : Type} [DecidableEq ι] {q q' : ι → List α} {i j : ι}

/-- The first element of queue `i` goes to the end of a shortest other queue, and queue `i` was longer than that
by more than two. -/
def Moves (q : ι → List α) (i : ι) (q' : ι → List α) : Prop :=
  ∃ j x xs, j ≠ i ∧ q i = x :: xs ∧ (∀ k, k ≠ i → (q j).length ≤ (q k).length) ∧
    (q j).length + 2 < (q i).length ∧ q' = update (update q i xs) j (q j ++ [x])

section Sums

variable [Fintype ι]

theorem sum_split {M : Type} [AddCommMonoid M] (F : List α → M) (q : ι → List α) (hij : j ≠ i) :
    ∑ k, F (q k) = F (q i) + (F (q j) + ∑ k ∈ (univ.erase i).erase j, F (q k)) := by
  rw [add_sum_erase _ (fun k => F (q k)) (mem_erase.mpr ⟨hij, mem_univ j⟩),
    add_sum_erase _ (fun k => F (q k)) (mem_univ i)]

theorem sum_moved {M : Type} [AddCommMonoid M] (F : List α → M) (q : ι → List α) (hij : j ≠ i)
    (xs ys : List α) : ∑ k, F (update (update q i xs) j ys k) =
      F xs + (F ys + ∑ k ∈ (univ.erase i).erase j, F (q k)) := by
  rw [sum_split F _ hij, update_self, update_of_ne hij.symm, update_self]
  congr 2
  refine sum_congr rfl fun k hk => ?_
  obtain ⟨hkj, hk⟩ := mem_erase.mp hk
  rw [update_of_ne hkj, update_of_ne (mem_erase.mp hk).1]

/-- **The elements stay.** -/
theorem Moves.elements (hm : Moves q i q') : ∑ k, (q' k : Multiset α) = ∑ k, (q k : Multiset α) := by
  obtain ⟨j, x, xs, hij, hq, -, -, rfl⟩ := hm
  rw [sum_moved (fun xs => (xs : Multiset α)) q hij, sum_split (fun xs => (xs : Multiset α)) q hij, hq,
    ← add_assoc, ← add_assoc, Multiset.coe_add, Multiset.coe_add]
  congr 1
  refine Multiset.coe_eq_coe.mpr ?_
  rw [← List.append_assoc]
  exact List.perm_append_singleton x (xs ++ q j)

/-- **The sum of the squared lengths gets smaller.** -/
theorem Moves.squares (hm : Moves q i q') : ∑ k, (q' k).length ^ 2 < ∑ k, (q k).length ^ 2 := by
  obtain ⟨j, x, xs, hij, hq, -, hlt, rfl⟩ := hm
  rw [sum_moved (fun xs => xs.length ^ 2) q hij, sum_split (fun xs => xs.length ^ 2) q hij, ← add_assoc,
    ← add_assoc]
  refine Nat.add_lt_add_right ?_ _
  rw [hq, List.length_cons] at hlt
  rw [hq, List.length_cons, List.length_append, List.length_singleton]
  nlinarith

theorem Moves.ne (hm : Moves q i q') : q' ≠ q := by
  rintro rfl
  exact lt_irrefl _ hm.squares

end Sums

section Fintype

variable [Fintype ι]

theorem exists_moves (hlt : (q j).length + 2 < (q i).length) : ∃ q', Moves q i q' := by
  have hij : j ≠ i := by
    rintro rfl
    omega
  obtain ⟨k, hk, hmin⟩ := exists_min_image (univ.erase i) (fun k => (q k).length)
    ⟨j, mem_erase.mpr ⟨hij, mem_univ j⟩⟩
  have hle := hmin j (mem_erase.mpr ⟨hij, mem_univ j⟩)
  cases hq : q i with
  | nil => simp [hq] at hlt
  | cons x xs =>
    refine ⟨_, k, x, xs, (mem_erase.mp hk).1, hq, fun l hl => hmin l (mem_erase.mpr ⟨hl, mem_univ l⟩), ?_, rfl⟩
    exact (Nat.add_le_add_right hle 2).trans_lt hlt

/-- **Balance**: if no queue can move an element, no two lengths differ by more than two. -/
theorem balanced_of_forall (hno : ∀ i q', ¬ Moves q i q') (i j : ι) : (q i).length ≤ (q j).length + 2 := by
  by_contra hlt
  obtain ⟨q', hm⟩ := exists_moves (not_le.mp hlt)
  exact hno i q' hm

/-- **Finitely many moves**, whichever queue has its turn. -/
theorem finite_moves (qs : ℕ → ι → List α) (hqs : ∀ k, qs (k + 1) = qs k ∨ ∃ i, Moves (qs k) i (qs (k + 1))) :
    {k | qs (k + 1) ≠ qs k}.Finite := by
  have hstep : Antitone fun k => ∑ i, (qs k i).length ^ 2 := antitone_nat_of_succ_le fun k => by
    rcases hqs k with heq | ⟨i, hm⟩
    · rw [heq]
    · exact hm.squares.le
  obtain ⟨n, hn⟩ := WellFoundedLT.antitone_chain_condition hstep
  refine (Set.finite_lt_nat n).subset fun k hk => ?_
  by_contra hge
  have hconst := (hn k (not_lt.mp hge)).symm.trans (hn (k + 1) (Nat.le_succ_of_le (not_lt.mp hge)))
  rcases hqs k with heq | ⟨i, hm⟩
  · exact hk heq
  · exact absurd hconst hm.squares.ne'

end Fintype

end Balance
