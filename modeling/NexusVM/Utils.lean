import NexusVM.Lib.Ring
import Mathlib.Data.UInt

/-!
# Utility functions

The list macros and the string functions of `utils/log.h` and `utils/log.c`.

* `initListHead`, `listAdd`, `listAddTail`, `listDel`: the `list_head` macros, as stores to the two pointers;
* `strncpy`, `strncmp`: the string functions, which do not stop at the end of their buffers;
* `strncmp_isSome`, `strncpy_isSome`: a comparison returns where it may read as far as it is told, and a
  copy just if the source ends in time.
-/

namespace NexusVM

/-! ## Lists -/

section Lists

variable {ν : Type} [DecidableEq ν]

/-- `INIT_LIST_HEAD` -/
def initListHead (l : DList.Links ν) (list : ν) : DList.Links ν where
  next := Function.update l.next list list
  prev := Function.update l.prev list list

/-- `list_add` -/
def listAdd (l : DList.Links ν) (new head : ν) : DList.Links ν := l.insertAfter new head

/-- `list_add_tail` -/
def listAddTail (l : DList.Links ν) (new head : ν) : DList.Links ν := l.insertBefore new head

/-- `list_del` -/
def listDel (l : DList.Links ν) (entry : ν) : DList.Links ν := l.remove entry

/-- `list_empty` -/
def listEmpty (l : DList.Links ν) (head : ν) : Bool := l.next head = head

end Lists

/-! ## Strings -/

/-- The second loop of `strncpy`; `none` runs past the end of the buffer. -/
def strncpyPad (dest : List UInt8) (n : ℕ) : Option (List UInt8) :=
  if n ≤ dest.length then some (List.replicate n 0 ++ dest.drop n) else none

/-- `strncpy` into a buffer; `none` runs past the end of a buffer. -/
def strncpy : List UInt8 → List UInt8 → ℕ → Option (List UInt8)
  -- `n--` has wrapped round when the first loop used up the count
  | dest, _, 0 => strncpyPad dest (2 ^ 64 - 1)
  | _, [], _ + 1 => none
  | [], c :: _, n + 1 => if c = 0 then strncpyPad [] n else none
  | d :: dest, c :: src, n + 1 =>
    if c = 0 then strncpyPad (d :: dest) n else (strncpy dest src n).map fun xs => c :: xs

/-- `strncmp`; `none` reads past the end of a string. -/
def strncmp : List UInt8 → List UInt8 → ℕ → Option ℤ
  | _, _, 0 => some 0
  | a :: s1, b :: s2, n + 1 =>
    if a ≠ 0 ∧ b ≠ 0 ∧ a = b then strncmp s1 s2 n
    else some (a.toInt8.toInt - b.toInt8.toInt)
  | _, _, _ + 1 => none

/-- A comparison that stays within both strings comes back. -/
theorem strncmp_isSome {s1 s2 : List UInt8} {n : ℕ} (h1 : n ≤ s1.length) (h2 : n ≤ s2.length) :
    (strncmp s1 s2 n).isSome := by
  induction n generalizing s1 s2 with
  | zero => simp [strncmp]
  | succ n ih =>
    cases s1 with
    | nil => cases h1
    | cons a s1 =>
      cases s2 with
      | nil => cases h2
      | cons b s2 =>
        rw [strncmp]
        split_ifs
        · exact ih (Nat.le_of_succ_le_succ h1) (Nat.le_of_succ_le_succ h2)
        · rfl

/-- **A copy returns** just if the source ends before the count is used up. -/
theorem strncpy_isSome {dest src : List UInt8} {n : ℕ} (hdest : n ≤ dest.length)
    (hsrc : n ≤ src.length) (hlen : dest.length < 2 ^ 64 - 1) :
    (strncpy dest src n).isSome ↔ 0 ∈ src.take n := by
  induction n generalizing dest src with
  | zero =>
    rw [strncpy, strncpyPad, if_neg (by omega)]
    simp
  | succ n ih =>
    obtain ⟨d, dest, rfl⟩ := List.exists_cons_of_length_pos (Nat.lt_of_lt_of_le n.succ_pos hdest)
    obtain ⟨c, src, rfl⟩ := List.exists_cons_of_length_pos (Nat.lt_of_lt_of_le n.succ_pos hsrc)
    rw [List.length_cons] at hdest hsrc hlen
    rw [strncpy, List.take_succ_cons, List.mem_cons]
    split_ifs with hc
    · rw [strncpyPad, if_pos (by rw [List.length_cons]; omega)]
      simp [hc]
    · rw [Option.isSome_map, ih (by omega) (by omega) (by omega)]
      simp [Ne.symm hc]

end NexusVM
