import Mathlib.Data.List.Nodup
import Mathlib.Order.Lattice

/-!
# The first of the least elements below a bound

A loop runs over a list, and remembers the last element that had the property `p` and a key below all
those before; its bound starts at a sentinel.

* `scan`: the loop;
* `FirstLeast`, `FirstLeast.unique`, `FirstLeast.le`: the first of the elements of `p` with the least key;
* **`scan_spec`**, `scan_eq_some_iff`, `exists_iff`: what the loop ends with, and when it is an element.
-/

namespace FirstMin

variable {α κ : Type} [LinearOrder κ] {p : α → Prop} [DecidablePred p] {key : α → κ} {top m : κ}
  {xs : List α} {x y : α}

/-- The loop: `best` is what it remembers, and `m` the bound. -/
def scan (p : α → Prop) [DecidablePred p] (key : α → κ) : List α → Option α → κ → Option α
  | [], best, _ => best
  | x :: xs, best, m => if p x ∧ key x < m then scan p key xs (some x) (key x) else scan p key xs best m

/-- `x` is the first of the elements of `p` with the least key, and its key is below `top`. -/
structure FirstLeast (p : α → Prop) (key : α → κ) (top : κ) (xs : List α) (x : α) : Prop where
  prop : p x
  lt : key x < top
  split : ∃ as bs, xs = as ++ x :: bs ∧ (∀ y ∈ as, p y → key x < key y) ∧ ∀ y ∈ bs, p y → key x ≤ key y

omit [DecidablePred p] in
theorem FirstLeast.mem (hx : FirstLeast p key top xs x) : x ∈ xs := by
  obtain ⟨as, bs, rfl, -⟩ := hx.split
  exact List.mem_append_right as List.mem_cons_self

omit [DecidablePred p] in
theorem FirstLeast.le (hx : FirstLeast p key top xs x) (hy : y ∈ xs) (hp : p y) : key x ≤ key y := by
  obtain ⟨as, bs, rfl, has, hbs⟩ := hx.split
  rcases List.mem_append.mp hy with hy | hy
  · exact (has y hy hp).le
  · rcases List.mem_cons.mp hy with rfl | hy
    · exact le_rfl
    · exact hbs y hy hp

omit [DecidablePred p] in
theorem FirstLeast.unique (hx : FirstLeast p key top xs x) (hy : FirstLeast p key top xs y) : x = y := by
  obtain ⟨as, bs, hsplit, has, -⟩ := hx.split
  obtain ⟨as', bs', hsplit', has', -⟩ := hy.split
  have hle := hx.le hy.mem hy.prop
  have hle' := hy.le hx.mem hx.prop
  rcases List.append_eq_append_iff.mp (hsplit.symm.trans hsplit') with ⟨cs, rfl, hcs⟩ | ⟨cs, rfl, hcs⟩
  · cases cs with
    | nil => exact (List.cons.inj hcs).1
    | cons z cs =>
      -- `x` comes before `y`, and its key is not larger
      obtain rfl := (List.cons.inj hcs).1
      exact absurd (has' x (by simp) hx.prop) (not_lt.mpr hle)
  · cases cs with
    | nil => exact (List.cons.inj hcs).1.symm
    | cons z cs =>
      obtain rfl := (List.cons.inj hcs).1
      exact absurd (has y (by simp) hy.prop) (not_lt.mpr hle')

omit [DecidablePred p] in
theorem FirstLeast.cons (hx : FirstLeast p key m xs x) (hy : p y → m ≤ key y) :
    FirstLeast p key m (y :: xs) x := by
  obtain ⟨as, bs, rfl, has, hbs⟩ := hx.split
  refine ⟨hx.prop, hx.lt, y :: as, bs, rfl, fun z hz hp => ?_, hbs⟩
  rcases List.mem_cons.mp hz with rfl | hz
  · exact hx.lt.trans_le (hy hp)
  · exact has z hz hp

/-- **What the loop ends with**: the first of the least elements below the bound, or what it started with. -/
theorem scan_spec (xs : List α) (best : Option α) (m : κ) :
    (scan p key xs best m = best ∧ ∀ x ∈ xs, p x → m ≤ key x) ∨
      ∃ x, scan p key xs best m = some x ∧ FirstLeast p key m xs x := by
  induction xs generalizing best m with
  | nil => exact .inl ⟨rfl, by simp⟩
  | cons y xs ih =>
    rw [scan]
    split_ifs with hy
    · obtain ⟨hp, hlt⟩ := hy
      rcases ih (some y) (key y) with ⟨heq, hall⟩ | ⟨x, heq, hx⟩
      · exact .inr ⟨y, heq, hp, hlt, [], xs, rfl, by simp, hall⟩
      · have hcons := hx.cons fun _ => le_rfl
        exact .inr ⟨x, heq, hcons.prop, hx.lt.trans hlt, hcons.split⟩
    · have hge : p y → m ≤ key y := fun hp => not_lt.mp fun hlt => hy ⟨hp, hlt⟩
      rcases ih best m with ⟨heq, hall⟩ | ⟨x, heq, hx⟩
      · refine .inl ⟨heq, fun z hz hp => ?_⟩
        rcases List.mem_cons.mp hz with rfl | hz
        · exact hge hp
        · exact hall z hz hp
      · exact .inr ⟨x, heq, hx.cons hge⟩

theorem scan_eq_some_iff : scan p key xs none top = some x ↔ FirstLeast p key top xs x := by
  have hspec : (scan p key xs none top = none ∧ _) ∨ _ := scan_spec xs none top
  rcases hspec with ⟨heq, hall⟩ | ⟨y, heq, hy⟩
  · rw [heq]
    exact ⟨fun hnone => absurd hnone.symm (Option.some_ne_none x),
      fun hx => absurd (hall x hx.mem hx.prop) (not_le.mpr hx.lt)⟩
  · rw [heq, Option.some.injEq]
    exact ⟨fun h => h ▸ hy, hy.unique⟩

theorem exists_iff : (∃ x, FirstLeast p key top xs x) ↔ ∃ x ∈ xs, p x ∧ key x < top := by
  refine ⟨fun ⟨x, hx⟩ => ⟨x, hx.mem, hx.prop, hx.lt⟩, fun ⟨x, hmem, hp, hlt⟩ => ?_⟩
  have hspec : (scan p key xs none top = none ∧ _) ∨ _ := scan_spec xs none top
  rcases hspec with ⟨-, hall⟩ | ⟨y, -, hy⟩
  · exact absurd (hall x hmem hp) (not_le.mpr hlt)
  · exact ⟨y, hy⟩

end FirstMin
