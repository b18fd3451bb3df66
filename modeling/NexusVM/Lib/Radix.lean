import Mathlib.Data.List.Basic
import Mathlib.Logic.Function.Basic

/-!
# Radix trees of tables in a flat memory

A memory of tables `m a i` (table at address `a`, entry `i`) holds radix trees of one depth: an
interior entry that is present points at the next table, an entry of a last table is a value.

* `Format`, `walk`, `look`: the entries, following interior entries, and reading a value;
* `Tree`: a ghost label gives each table its root and its path; every present interior entry
  points at the table labelled with the extended path, so no two paths share a table;
* `look_congr`, `Tree.congr`, `Tree.link`, `look_link`, `Tree.cut`, `Tree.dropRoot`: what is kept when
  fresh tables are written, an empty entry is pointed at a fresh empty table, a table is cut off or
  a root is given up;
* **`look_store`**: writing an entry of a last table changes the value at its own key only.
-/

namespace Radix

variable {α ι ε : Type}

/-- The entries of the tables. -/
structure Format (α ε : Type) where
  zero : ε
  present : ε → Bool
  target : ε → α
  /-- What every interior entry satisfies. -/
  plain : ε → Prop
  present_zero : present zero = false
  plain_zero : plain zero

variable (F : Format α ε)

/-- Follow the interior entries along a path. -/
def walk (m : α → ι → ε) : α → List ι → Option α
  | a, [] => some a
  | a, i :: is => if F.present (m a i) then walk m (F.target (m a i)) is else none

/-- The value at path `is` and last index `j` below the table `a`. -/
def look (m : α → ι → ε) (a : α) (is : List ι) (j : ι) : Option ε :=
  (walk F m a is).bind fun t => if F.present (m t j) then some (m t j) else none

/-- A label: the root of the tree a table belongs to, and the path to it. -/
abbrev Label (α ι : Type) : Type := α → Option (α × List ι)

/-- Labelled tables form trees of depth `d`. -/
structure Tree (d : ℕ) (m : α → ι → ε) (lbl : Label α ι) : Prop where
  typed : ∀ a r p i, lbl a = some (r, p) → p.length + 1 < d → F.present (m a i) →
    lbl (F.target (m a i)) = some (r, p ++ [i])
  plain : ∀ a r p i, lbl a = some (r, p) → p.length + 1 < d → F.plain (m a i)

variable {F} {d : ℕ} {m m' : α → ι → ε} {lbl : Label α ι}

theorem look_nil (a : α) (j : ι) :
    look F m a [] j = if F.present (m a j) then some (m a j) else none := rfl

theorem look_cons (a : α) (i : ι) (is : List ι) (j : ι) :
    look F m a (i :: is) j =
      if F.present (m a i) then look F m (F.target (m a i)) is j else none := by
  unfold look
  rw [walk]
  split_ifs <;> rfl

theorem present_of_look {a : α} {is : List ι} {j : ι} {e : ε} (h : look F m a is j = some e) :
    F.present e := by
  unfold look at h
  rw [Option.bind_eq_some_iff] at h
  obtain ⟨t, -, ht⟩ := h
  split_ifs at ht with hp
  cases ht
  exact hp

theorem Tree.walk_label (ht : Tree F d m lbl) {a r t : α} {p is : List ι}
    (ha : lbl a = some (r, p)) (hd : p.length + is.length < d) (hw : walk F m a is = some t) :
    lbl t = some (r, p ++ is) := by
  induction is generalizing a p with
  | nil =>
    cases hw
    rw [List.append_nil]
    exact ha
  | cons i is ih =>
    rw [walk] at hw
    split_ifs at hw with hp
    rw [List.length_cons] at hd
    have hc := ht.typed a r p i ha (by omega) hp
    have := ih hc (by rw [List.length_append, List.length_singleton]; omega) hw
    rwa [List.append_assoc, List.singleton_append] at this

theorem walk_append (a : α) (is js : List ι) :
    walk F m a (is ++ js) = (walk F m a is).bind fun t => walk F m t js := by
  induction is generalizing a with
  | nil => rfl
  | cons i is ih =>
    rw [List.cons_append, walk, walk]
    split_ifs
    · exact ih _
    · rfl

/-- Where every present entry of a labelled table is kept, walks lead where they led. -/
theorem Tree.walk_mono (ht : Tree F d m lbl)
    (hm : ∀ b i, lbl b ≠ none → F.present (m b i) → m' b i = m b i) {a r t : α} {p is : List ι}
    (ha : lbl a = some (r, p)) (hd : p.length + is.length < d) (hw : walk F m a is = some t) :
    walk F m' a is = some t := by
  induction is generalizing a p with
  | nil => exact hw
  | cons i is ih =>
    rw [walk] at hw ⊢
    split_ifs at hw with hp
    rw [List.length_cons] at hd
    rw [hm a i (by rw [ha]; exact Option.some_ne_none _) hp, if_pos hp]
    exact ih (ht.typed a r p i ha (by omega) hp)
      (by rw [List.length_append, List.length_singleton]; omega) hw

/-- **Frame rule.** What is read below a root only depends on the tables labelled with it. -/
theorem look_congr (ht : Tree F d m lbl) {r : α}
    (hm : ∀ b p, lbl b = some (r, p) → m' b = m b) {a : α} {p is : List ι} {j : ι}
    (ha : lbl a = some (r, p)) (hd : p.length + is.length + 1 = d) :
    look F m' a is j = look F m a is j := by
  induction is generalizing a p with
  | nil => rw [look_nil, look_nil, hm a p ha]
  | cons i is ih =>
    rw [look_cons, look_cons, hm a p ha]
    rw [List.length_cons] at hd
    split_ifs with hp
    · exact ih (ht.typed a r p i ha (by omega) hp)
        (by rw [List.length_append, List.length_singleton]; omega)
    · rfl

theorem Tree.congr (ht : Tree F d m lbl) (hm : ∀ b, lbl b ≠ none → m' b = m b) :
    Tree F d m' lbl := by
  have hma : ∀ a r p, lbl a = some (r, p) → m' a = m a := fun a r p ha =>
    hm a (by rw [ha]; exact Option.some_ne_none _)
  refine ⟨fun a r p i ha hp => ?_, fun a r p i ha hp => ?_⟩
  · rw [hma a r p ha]
    exact ht.typed a r p i ha hp
  · rw [hma a r p ha]
    exact ht.plain a r p i ha hp

theorem Tree.clear [DecidableEq α] (ht : Tree F d m lbl) (a : α) :
    Tree F d (Function.update m a fun _ => F.zero) lbl := by
  refine ⟨fun b r p i hb hp hpres => ?_, fun b r p i hb hp => ?_⟩
  · by_cases hba : b = a
    · subst hba
      rw [Function.update_self, F.present_zero] at hpres
      cases hpres
    · rw [Function.update_of_ne hba] at hpres ⊢
      exact ht.typed b r p i hb hp hpres
  · by_cases hba : b = a
    · subst hba
      rw [Function.update_self]
      exact F.plain_zero
    · rw [Function.update_of_ne hba]
      exact ht.plain b r p i hb hp

theorem look_empty {a : α} (ha : m a = fun _ => F.zero) (is : List ι) (j : ι) :
    look F m a is j = none := by
  cases is with
  | nil => rw [look_nil, ha, F.present_zero]; rfl
  | cons i is => rw [look_cons, ha, F.present_zero]; rfl

section Write

variable [DecidableEq α] [DecidableEq ι]

/-- Write one entry. -/
def store (m : α → ι → ε) (a : α) (i : ι) (e : ε) : α → ι → ε :=
  Function.update m a (Function.update (m a) i e)

theorem store_same (a : α) (i : ι) (e : ε) : store m a i e a i = e := by
  rw [store, Function.update_self, Function.update_self]

theorem store_of_table_ne {a b : α} (hb : b ≠ a) (i : ι) (e : ε) : store m a i e b = m b :=
  Function.update_of_ne hb _ _

theorem store_of_index_ne (a : α) {i k : ι} (hk : k ≠ i) (e : ε) :
    store m a i e a k = m a k := by
  rw [store, Function.update_self, Function.update_of_ne hk]

/-- **Cutting off.** An entry may be overwritten by one that points at no table. -/
theorem Tree.cut (ht : Tree F d m lbl) {a : α} {i : ι} {e : ε} (he : F.present e = false)
    (hplain : F.plain e) : Tree F d (store m a i e) lbl := by
  refine ⟨fun b r p k hb hp hpres => ?_, fun b r p k hb hp => ?_⟩
  · by_cases hba : b = a
    · subst hba
      by_cases hk : k = i
      · subst hk
        rw [store_same, he] at hpres
        cases hpres
      · rw [store_of_index_ne _ hk] at hpres ⊢
        exact ht.typed b r p k hb hp hpres
    · rw [store_of_table_ne hba] at hpres ⊢
      exact ht.typed b r p k hb hp hpres
  · by_cases hba : b = a
    · subst hba
      by_cases hk : k = i
      · subst hk
        rw [store_same]
        exact hplain
      · rw [store_of_index_ne _ hk]
        exact ht.plain b r p k hb hp
    · rw [store_of_table_ne hba]
      exact ht.plain b r p k hb hp

/-- The label of a table newly linked in. -/
def adopt (lbl : Label α ι) (c r : α) (p : List ι) : Label α ι :=
  Function.update lbl c (some (r, p))

omit [DecidableEq ι] in
theorem adopt_self (c r : α) (p : List ι) : adopt lbl c r p c = some (r, p) :=
  Function.update_self _ _ _

omit [DecidableEq ι] in
theorem adopt_cases {c r : α} {p : List ι} {b : α} {x : α × List ι} (h : adopt lbl c r p b = some x) :
    b = c ∧ x = (r, p) ∨ b ≠ c ∧ lbl b = some x := by
  by_cases hb : b = c
  · rw [hb, adopt_self] at h
    exact .inl ⟨hb, (Option.some.inj h).symm⟩
  · exact .inr ⟨hb, by rwa [adopt, Function.update_of_ne hb] at h⟩

omit [DecidableEq ι] in
theorem adopt_of_some {c r : α} {p : List ι} {b : α} {x : α × List ι} (hc : lbl c = none)
    (hb : lbl b = some x) : adopt lbl c r p b = some x := by
  rw [adopt, Function.update_of_ne, hb]
  rintro rfl
  rw [hc] at hb
  cases hb

/-- **Linking in a table.** An empty interior entry may be pointed at an unlabelled empty table. -/
theorem Tree.link (ht : Tree F d m lbl) {a r c : α} {p : List ι} {i : ι} {e : ε}
    (ha : lbl a = some (r, p)) (hc : lbl c = none) (hzero : m c = fun _ => F.zero)
    (htgt : F.target e = c) (hplain : F.plain e) :
    Tree F d (store m a i e) (adopt lbl c r (p ++ [i])) := by
  have hca : c ≠ a := by
    rintro rfl
    rw [hc] at ha
    cases ha
  refine ⟨fun b s q k hb hq hpres => ?_, fun b s q k hb hq => ?_⟩
  · by_cases hbc : b = c
    · subst hbc
      rw [store_of_table_ne hca, hzero, F.present_zero] at hpres
      cases hpres
    rw [adopt, Function.update_of_ne hbc] at hb
    by_cases hba : b = a
    · subst hba
      rw [ha] at hb
      cases hb
      by_cases hk : k = i
      · subst hk
        rw [store_same, htgt]
        exact adopt_self c r _
      · rw [store_of_index_ne _ hk] at hpres ⊢
        exact adopt_of_some hc (ht.typed b r p k ha hq hpres)
    · rw [store_of_table_ne hba] at hpres ⊢
      exact adopt_of_some hc (ht.typed b s q k hb hq hpres)
  · by_cases hbc : b = c
    · subst hbc
      rw [store_of_table_ne hca, hzero]
      exact F.plain_zero
    rw [adopt, Function.update_of_ne hbc] at hb
    by_cases hba : b = a
    · subst hba
      by_cases hk : k = i
      · subst hk
        rw [store_same]
        exact hplain
      · rw [store_of_index_ne _ hk]
        exact ht.plain b s q k hb hq
    · rw [store_of_table_ne hba]
      exact ht.plain b s q k hb hq

/-- **Linking in an empty table changes no value.** -/
theorem look_link (ht : Tree F d m lbl) {a r c : α} {p : List ι} {i : ι} {e : ε}
    (ha : lbl a = some (r, p)) (hp : p.length + 1 < d) (habs : F.present (m a i) = false)
    (hc : lbl c = none) (hzero : m c = fun _ => F.zero) (htgt : F.target e = c)
    {b s : α} {q is : List ι} {j : ι} (hb : lbl b = some (s, q))
    (hd : q.length + is.length + 1 = d) :
    look F (store m a i e) b is j = look F m b is j := by
  have hca : c ≠ a := by
    rintro rfl
    rw [hc] at ha
    cases ha
  have hempty : store m a i e c = fun _ => F.zero := by rw [store_of_table_ne hca, hzero]
  induction is generalizing b q with
  | nil =>
    have hba : b ≠ a := by
      rintro rfl
      rw [ha] at hb
      cases hb
      rw [List.length_nil] at hd
      omega
    rw [look_nil, look_nil, store_of_table_ne hba]
  | cons k is ih =>
    rw [List.length_cons] at hd
    -- the entry `k` of `b` is the written one, or it is what it was
    by_cases hw : b = a ∧ k = i
    · obtain ⟨rfl, rfl⟩ := hw
      rw [look_cons, look_cons, habs, store_same, htgt, look_empty hempty is j, ite_self]
      rfl
    · have hsame : store m a i e b k = m b k := by
        by_cases hba : b = a
        · subst hba
          exact store_of_index_ne b (fun hk => hw ⟨rfl, hk⟩) e
        · rw [store_of_table_ne hba]
      rw [look_cons, look_cons, hsame]
      split_ifs with hpres
      · exact ih (ht.typed b s q k hb (by omega) hpres)
          (by rw [List.length_append, List.length_singleton]; omega)
      · rfl

theorem Tree.store (ht : Tree F d m lbl) {t r : α} {p : List ι} (j : ι) (e : ε)
    (hlast : lbl t = some (r, p)) (hp : p.length + 1 = d) : Tree F d (store m t j e) lbl := by
  have hne : ∀ b s q, lbl b = some (s, q) → q.length + 1 < d → b ≠ t := by
    rintro b s q hb hq rfl
    rw [hlast] at hb
    cases hb
    omega
  refine ⟨fun b s q k hb hq hpres => ?_, fun b s q k hb hq => ?_⟩
  · rw [store_of_table_ne (hne b s q hb hq)] at hpres ⊢
    exact ht.typed b s q k hb hq hpres
  · rw [store_of_table_ne (hne b s q hb hq)]
    exact ht.plain b s q k hb hq

theorem walk_store (ht : Tree F d m lbl) {t r : α} {p : List ι} (j : ι) (e : ε)
    (hlast : lbl t = some (r, p)) (hp : p.length + 1 = d) {b s : α} {q is : List ι}
    (hb : lbl b = some (s, q)) (hd : q.length + is.length < d) :
    walk F (Radix.store m t j e) b is = walk F m b is := by
  induction is generalizing b q with
  | nil => rfl
  | cons k is ih =>
    rw [List.length_cons] at hd
    have hbt : b ≠ t := by
      rintro rfl
      rw [hlast] at hb
      cases hb
      omega
    rw [walk, walk, store_of_table_ne hbt]
    split_ifs with hpres
    · exact ih (ht.typed b s q k hb (by omega) hpres)
        (by rw [List.length_append, List.length_singleton]; omega)
    · rfl

/-- **Finite map update.** After a present value is written in the last table on the path `p` of
the root `r`, it is found at that key and every other key keeps its value. -/
theorem look_store (ht : Tree F d m lbl) {t r : α} {p : List ι} {j : ι} {e : ε}
    (hr : lbl r = some (r, [])) (hp : p.length + 1 = d) (hw : walk F m r p = some t)
    (he : F.present e) {s : α} {is : List ι} {k : ι} (hs : lbl s = some (s, []))
    (hd : is.length + 1 = d) :
    look F (Radix.store m t j e) s is k =
      if s = r ∧ is = p ∧ k = j then some e else look F m s is k := by
  have hlast : lbl t = some (r, p) := by
    have := ht.walk_label hr (by rw [List.length_nil]; omega) hw
    rwa [List.nil_append] at this
  unfold look
  rw [walk_store ht j e hlast hp hs (by rw [List.length_nil]; omega)]
  cases hws : walk F m s is with
  | none =>
    rw [if_neg]
    · rfl
    · rintro ⟨rfl, rfl, -⟩
      rw [hw] at hws
      cases hws
  | some u =>
    have hu : lbl u = some (s, is) := by
      have := ht.walk_label hs (by rw [List.length_nil]; omega) hws
      rwa [List.nil_append] at this
    by_cases hut : u = t
    · subst hut
      rw [hlast] at hu
      cases hu
      by_cases hk : k = j
      · subst hk
        simp [store_same, he]
      · simp [store_of_index_ne _ hk, hk]
    · rw [if_neg]
      · simp only [Option.bind_some, store_of_table_ne hut]
      · rintro ⟨rfl, rfl, -⟩
        rw [hw] at hws
        exact hut (Option.some.inj hws).symm

end Write

/-! ## Giving up and starting trees -/

section Roots

variable [DecidableEq α]

/-- A root may lose its label: no entry points at it. -/
theorem Tree.dropRoot (ht : Tree F d m lbl) {r : α} (hr : lbl r = some (r, [])) :
    Tree F d m (Function.update lbl r none) := by
  have hold : ∀ a x, Function.update lbl r none a = some x → lbl a = some x := by
    intro a x ha
    rw [← ha, Function.update_of_ne]
    rintro rfl
    rw [Function.update_self] at ha
    cases ha
  refine ⟨fun a s p i ha hp hpres => ?_, fun a s p i ha hp => ht.plain a s p i (hold a _ ha) hp⟩
  have hl := ht.typed a s p i (hold a _ ha) hp hpres
  rw [Function.update_of_ne, hl]
  intro hc
  rw [hc, hr] at hl
  exact List.cons_ne_nil i [] (List.append_eq_nil_iff.mp (Prod.mk.inj (Option.some.inj hl)).2.symm).2

theorem Tree.newRoot (ht : Tree F d m lbl) {r : α} (hr : lbl r = none)
    (hzero : m r = fun _ => F.zero) : Tree F d m (Function.update lbl r (some (r, []))) := by
  refine ⟨fun a s p i ha hp hpres => ?_, fun a s p i ha hp => ?_⟩
  · by_cases har : a = r
    · subst har
      rw [hzero, F.present_zero] at hpres
      cases hpres
    · rw [Function.update_of_ne har] at ha
      have hl := ht.typed a s p i ha hp hpres
      rw [Function.update_of_ne, hl]
      intro hc
      rw [hc, hr] at hl
      cases hl
  · by_cases har : a = r
    · subst har
      rw [hzero]
      exact F.plain_zero
    · rw [Function.update_of_ne har] at ha
      exact ht.plain a s p i ha hp

end Roots

end Radix
