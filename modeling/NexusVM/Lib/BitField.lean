import Mathlib.Algebra.BigOperators.Ring.List
import Mathlib.Algebra.Order.Ring.Nat

/-!
# Bit-field layout

A struct of bit-fields is laid out in storage units: each field starts at the first free bit, or
at the next unit where it would cross the end of one.

* `Slot`, `layout`, `extent`, `size`: the place of each field, and the units of the struct;
* `layout_pairwise`: fields do not overlap;
* `width_le_extent`: a struct has room for its widths;
* **`pack_extract`**: every field is read back from the packed value.
-/

namespace BitField

variable {ν : Type}

/-- A field with the bits it takes. -/
structure Slot (ν : Type) where
  name : ν
  start : ℕ
  width : ℕ
deriving DecidableEq

/-- The bit where a field of `width` bits starts, `free` being the first free one. -/
def place (unit free width : ℕ) : ℕ :=
  if free % unit + width ≤ unit then free else (free / unit + 1) * unit

/-- The fields that are declared with the given widths, from the bit `free` on. -/
def layout (unit : ℕ) : ℕ → List (ν × ℕ) → List (Slot ν)
  | _, [] => []
  | free, (name, width) :: ds =>
    ⟨name, place unit free width, width⟩ :: layout unit (place unit free width + width) ds

/-- The first bit after all fields. -/
def extent (unit : ℕ) : ℕ → List (ν × ℕ) → ℕ
  | free, [] => free
  | free, (_, width) :: ds => extent unit (place unit free width + width) ds

/-- The number of units of the struct. -/
def size (unit : ℕ) (ds : List (ν × ℕ)) : ℕ := (extent unit 0 ds + unit - 1) / unit

/-- The bits `start` to `start + width - 1` of a value. -/
def extract (x start width : ℕ) : ℕ := x / 2 ^ start % 2 ^ width

/-- The value of a struct whose fields have the values `v`. -/
def pack (v : ν → ℕ) (fs : List (Slot ν)) : ℕ := (fs.map fun f => v f.name * 2 ^ f.start).sum

/-- Every value fits into the width of its field. -/
def Fits (v : ν → ℕ) (ds : List (ν × ℕ)) : Prop := ∀ d ∈ ds, v d.1 < 2 ^ d.2

variable {unit free width : ℕ} {ds : List (ν × ℕ)} {fs : List (Slot ν)} {v : ν → ℕ}

/-! ## Places -/

section Places

variable (hu : 0 < unit)

include hu

theorem le_place : free ≤ place unit free width := by
  unfold place
  split_ifs
  · exact le_refl free
  · rw [Nat.add_one_mul]
    exact (Nat.lt_div_mul_add hu).le

theorem layout_start {f : Slot ν} (hf : f ∈ layout unit free ds) : free ≤ f.start := by
  induction ds generalizing free with
  | nil => cases hf
  | cons d ds ih =>
    obtain ⟨name, width⟩ := d
    rw [layout, List.mem_cons] at hf
    obtain rfl | hf := hf
    · exact le_place hu
    · exact le_trans (le_trans (le_place hu) (Nat.le_add_right _ _)) (ih hf)

/-- **Fields do not overlap.** -/
theorem layout_pairwise :
    (layout unit free ds).Pairwise fun f g => f.start + f.width ≤ g.start := by
  induction ds generalizing free with
  | nil => exact List.Pairwise.nil
  | cons d ds ih =>
    obtain ⟨name, width⟩ := d
    rw [layout, List.pairwise_cons]
    exact ⟨fun g hg => layout_start hu hg, ih⟩

theorem width_le_extent : free + (ds.map Prod.snd).sum ≤ extent unit free ds := by
  induction ds generalizing free with
  | nil => exact le_refl _
  | cons d ds ih =>
    obtain ⟨name, width⟩ := d
    have hrest : place unit free width + width + (ds.map Prod.snd).sum ≤ _ := ih
    have hplace : free ≤ place unit free width := le_place hu
    rw [extent, List.map_cons, List.sum_cons]
    omega

theorem one_lt_size (hw : unit < (ds.map Prod.snd).sum) : 1 < size unit ds := by
  have hext : 0 + (ds.map Prod.snd).sum ≤ extent unit 0 ds := width_le_extent hu
  rw [size, Nat.lt_div_iff_mul_lt hu]
  omega

end Places

/-! ## Values -/

theorem fits_layout (hv : Fits v ds) : ∀ f ∈ layout unit free ds, v f.name < 2 ^ f.width := by
  induction ds generalizing free with
  | nil => exact nofun
  | cons d ds ih =>
    obtain ⟨name, width⟩ := d
    intro f hf
    rw [layout, List.mem_cons] at hf
    obtain rfl | hf := hf
    · exact hv _ List.mem_cons_self
    · exact ih (fun d hd => hv d (List.mem_cons_of_mem _ hd)) f hf

theorem dvd_pack {k : ℕ} (hk : ∀ f ∈ fs, k ≤ f.start) : 2 ^ k ∣ pack v fs := by
  refine List.dvd_sum fun x hx => ?_
  obtain ⟨f, hf, rfl⟩ := List.mem_map.mp hx
  exact Dvd.dvd.mul_left (Nat.pow_dvd_pow 2 (hk f hf)) _

theorem pack_extract_of_pairwise (hs : fs.Pairwise fun f g => f.start + f.width ≤ g.start)
    (hv : ∀ f ∈ fs, v f.name < 2 ^ f.width) {f : Slot ν} (hf : f ∈ fs) :
    extract (pack v fs) f.start f.width = v f.name := by
  induction fs with
  | nil => cases hf
  | cons g fs ih =>
    rw [List.pairwise_cons] at hs
    have hg := hv g List.mem_cons_self
    -- the rest is a multiple of the first bit after `g`
    obtain ⟨q, hq⟩ := dvd_pack (v := v) hs.1
    have hpack : pack v (g :: fs) = v g.name * 2 ^ g.start + pack v fs := rfl
    rw [List.mem_cons] at hf
    obtain rfl | hf := hf
    · rw [extract, hpack, hq, Nat.pow_add, Nat.mul_assoc, Nat.mul_comm (v f.name),
        ← Nat.mul_add, Nat.mul_div_cancel_left _ (Nat.two_pow_pos _), Nat.add_mul_mod_self_left,
        Nat.mod_eq_of_lt hg]
    · rw [← ih hs.2 (fun f hf => hv f (List.mem_cons_of_mem _ hf)) hf, extract, extract, hpack]
      congr 1
      obtain ⟨k, hk⟩ := Nat.exists_eq_add_of_le (hs.1 f hf)
      have hlt : v g.name * 2 ^ g.start < 2 ^ (g.start + g.width) := by
        rw [Nat.add_comm g.start, Nat.pow_add]
        exact Nat.mul_lt_mul_of_pos_right hg (Nat.two_pow_pos _)
      rw [hk, Nat.pow_add _ (g.start + g.width), ← Nat.div_div_eq_div_mul,
        ← Nat.div_div_eq_div_mul, hq, Nat.add_mul_div_left _ _ (Nat.two_pow_pos _),
        Nat.div_eq_of_lt hlt, Nat.zero_add, Nat.mul_div_cancel_left _ (Nat.two_pow_pos _)]

/-- **A field is read back** from the packed struct. -/
theorem pack_extract (hu : 0 < unit) (hv : Fits v ds) {f : Slot ν} (hf : f ∈ layout unit free ds) :
    extract (pack v (layout unit free ds)) f.start f.width = v f.name :=
  pack_extract_of_pairwise (layout_pairwise hu) (fits_layout hv) hf

end BitField
