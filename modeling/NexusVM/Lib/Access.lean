import NexusVM.Lib.Bytes
import NexusVM.Lib.Prog

/-!
# Programs that access bytes

Programs over a flat memory, with a record of the addresses they have read and written.

* `Accessed`, `loadByte`, `storeByte`: the memory and the record, and the two accesses;
* `IsString`: strings that end with a NUL, with `IsString.char` and **`IsString.length_lt`**.
-/

open Prog

/-- A memory, and the addresses that have been read and written, in order. -/
structure Accessed where
  mem : Bytes
  reads : List UInt64 := []
  writes : List UInt64 := []

namespace Accessed

/-- A byte has been read. -/
@[simps]
def read (t : Accessed) (a : UInt64) : Accessed := { t with reads := t.reads ++ [a] }

/-- A byte has been written. -/
@[simps]
def write (t : Accessed) (a : UInt64) (b : UInt8) : Accessed :=
  { t with mem := Function.update t.mem a b, writes := t.writes ++ [a] }

end Accessed

namespace Access

variable {t : Accessed} {a b : UInt64}

/-- `*a` -/
def loadByte (a : UInt64) : Prog Accessed UInt8 := do
  let t ← get
  set (t.read a)
  return t.mem a

/-- `*a = c` -/
def storeByte (a : UInt64) (c : UInt8) : Prog Accessed Unit := modify fun t => t.write a c

@[simp] theorem wp_loadByte {Q : UInt8 → Accessed → Prop} :
    wp (loadByte a) Q t ↔ Q (t.mem a) (t.read a) := by
  rw [loadByte, wp_bind, wp_get, wp_bind, wp_set, wp_pure]

@[simp] theorem wp_storeByte {c : UInt8} {Q : Unit → Accessed → Prop} :
    wp (storeByte a c) Q t ↔ Q () (t.write a c) := wp_modify _

/-! ## Strings -/

/-- The string at an address, without its NUL. -/
def IsString (m : Bytes) : UInt64 → List UInt8 → Prop
  | a, [] => m a = 0
  | a, c :: xs => m a = c ∧ c ≠ 0 ∧ IsString m (a + 1) xs

variable {m m' : Bytes} {xs ys : List UInt8}

theorem IsString.char {i : ℕ} (hs : IsString m a xs) (hi : i ≤ xs.length) :
    m (a + UInt64.ofNat i) = xs.getD i 0 := by
  induction xs generalizing a i with
  | nil =>
    obtain rfl := Nat.le_zero.mp hi
    exact (congrArg m (UInt64.add_zero a)).trans hs
  | cons c xs ih =>
    obtain ⟨hc, -, hs⟩ := hs
    cases i with
    | zero => exact (congrArg m (UInt64.add_zero a)).trans hc
    | succ i =>
      rw [Bytes.add_ofNat_succ, ih hs (Nat.le_of_succ_le_succ hi)]
      rfl

theorem IsString.ne_zero (hs : IsString m a xs) {c : UInt8} (hc : c ∈ xs) : c ≠ 0 := by
  induction xs generalizing a with
  | nil => cases hc
  | cons d xs ih =>
    obtain ⟨-, hd, hs⟩ := hs
    rcases List.mem_cons.mp hc with rfl | hc
    · exact hd
    · exact ih hs hc

/-- **A string ends** before it comes to its own address again. -/
theorem IsString.length_lt (hs : IsString m a xs) : xs.length < 2 ^ 64 := by
  by_contra hlen
  have hpos : xs.length - 2 ^ 64 < xs.length := by omega
  have hnul := hs.char (Nat.le_refl xs.length)
  have hchar := hs.char hpos.le
  have hwrap : UInt64.ofNat (xs.length - 2 ^ 64) = UInt64.ofNat xs.length := by
    apply UInt64.toNat_inj.mp
    rw [UInt64.toNat_ofNat', UInt64.toNat_ofNat']
    omega
  rw [hwrap, hnul, List.getD_eq_getElem?_getD, List.getD_eq_getElem?_getD, List.getElem?_eq_none le_rfl,
    List.getElem?_eq_getElem hpos, Option.getD_none, Option.getD_some] at hchar
  exact hs.ne_zero (List.getElem_mem hpos) hchar.symm

end Access
