import Mathlib.Data.Int.CardIntervalMod
import Mathlib.Data.List.Rotate

/-!
# Taking turns

The one at the front of a list has its turn and goes to the end.

* `Rota.turns`, `turns_eq`: who has the next turns;
* **`turns_length`**: each has one in as many turns as there are members;
* **`count_turns`**: and in any number of turns, each has its share, rounded down or up.
-/

namespace Rota

variable {α : Type} {xs : List α} {x : α}

/-- Who has the next `k` turns. -/
def turns (xs : List α) : ℕ → List (Option α)
  | 0 => []
  | k + 1 => xs.head? :: turns (xs.rotate 1) k

theorem head?_rotate_mod (hne : xs ≠ []) (j : ℕ) : (xs.rotate j).head? = xs[j % xs.length]? := by
  rw [← List.rotate_mod, List.head?_rotate (Nat.mod_lt _ (List.length_pos_iff.mpr hne))]

theorem turns_rotate (hne : xs ≠ []) (j k : ℕ) :
    turns (xs.rotate j) k = (List.range k).map fun i => xs[(i + j) % xs.length]? := by
  induction k generalizing j with
  | zero => rfl
  | succ k ih =>
    rw [turns, List.rotate_rotate, ih, head?_rotate_mod hne, List.range_succ_eq_map, List.map_cons,
      List.map_map, Nat.zero_add]
    congr 1
    refine List.map_congr_left fun i _ => ?_
    rw [Function.comp_apply, Nat.succ_eq_add_one, show i + 1 + j = i + (j + 1) by omega]

theorem turns_eq (hne : xs ≠ []) (k : ℕ) :
    turns xs k = (List.range k).map fun i => xs[i % xs.length]? := by
  have h := turns_rotate hne 0 k
  rwa [List.rotate_zero] at h

/-- **One turn each**, in the order of the list. -/
theorem turns_length (hne : xs ≠ []) : turns xs xs.length = xs.map some := by
  rw [turns_eq hne]
  refine List.ext_getElem (by simp) fun i hi _ => ?_
  rw [List.length_map, List.length_range] at hi
  rw [List.getElem_map, List.getElem_map, List.getElem_range, Nat.mod_eq_of_lt hi, List.getElem?_eq_getElem hi]

/-- **Fair shares.** In `k` turns a member of the list has `k / n` of them, rounded down or up. -/
theorem count_turns [DecidableEq α] (hnd : xs.Nodup) (hx : x ∈ xs) (k : ℕ) :
    (turns xs k).count (some x) = k / xs.length ∨
      (turns xs k).count (some x) = (k + xs.length - 1) / xs.length := by
  obtain ⟨j, hj, rfl⟩ := List.getElem_of_mem hx
  have hpos : 0 < xs.length := by omega
  have hcount : (turns xs k).count (some xs[j]) = k.count (· ≡ j [MOD xs.length]) := by
    rw [turns_eq (List.ne_nil_of_mem hx), List.count, List.countP_map, Nat.count]
    refine List.countP_congr fun i _ => ?_
    have hi := Nat.mod_lt i hpos
    rw [Function.comp_apply, List.getElem?_eq_getElem hi, beq_iff_eq, Option.some.injEq,
      hnd.getElem_inj_iff, decide_eq_true_iff, Nat.ModEq, Nat.mod_eq_of_lt hj]
  rw [hcount, Nat.count_modEq_card k hpos]
  split_ifs with hlt
  · -- a part of a round is left, so the share is not a whole number
    right
    have hmod : k % xs.length + xs.length * (k / xs.length) = k := Nat.mod_add_div k xs.length
    rw [eq_comm, Nat.div_eq_iff hpos]
    constructor
    · rw [Nat.add_mul, Nat.mul_comm (k / xs.length)]
      omega
    · rw [Nat.add_mul, Nat.mul_comm (k / xs.length)]
      have := Nat.mod_lt k hpos
      omega
  · exact .inl rfl

end Rota
