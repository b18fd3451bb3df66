import NexusVM.EptTrees

/-!
# Large pages

Page-table trees in which ranges are mapped by tables or by large pages.

* `Cover`, `EptCall.cover`: the abstract state: for each path a table, a large page or nothing;
* `EptCall.Avoids`, `EptCall.InPage`: what a call must not run into: a large page, and the end of
  a table;
* `LargeTrees`: a memory with large pages, its tables labelled and its entries as the cover has it;
* `LargeTrees.link`, `LargeTrees.seal`, `LargeTrees.fill`: the three kinds of writes;
* **`eptMap2mb_run`**, **`eptMap1gb_run`**: what the two calls enter.
-/

namespace NexusVM

open Prog

/-! ## Covers -/

/-- What the range below a path is mapped by. -/
inductive Range
  | absent
  | table
  | large
deriving DecidableEq

/-- What each range is mapped by; the empty path is the whole space. -/
abbrev Cover : Type := List (Fin 512) → Range

/-- A root and nothing else. -/
def Cover.empty : Cover := fun p => if p = [] then .table else .absent

/-- A table is put where there is nothing. -/
def Cover.grow (c : Cover) (p : List (Fin 512)) : Cover :=
  if c p = .absent then Function.update c p .table else c

/-- The path of the 512 GiB range of an address. -/
def pdptPath (gpa : UInt64) : List (Fin 512) := [eptPml4Index gpa]

/-- The path of the 1 GiB range of an address; that of its 2 MiB range is `eptPath`. -/
def pdPath (gpa : UInt64) : List (Fin 512) := [eptPml4Index gpa, eptPdpIndex gpa]

/-- A call that maps something. -/
inductive EptCall
  | map (gpa : UInt64) (pte : EptEntry)
  | map2mb (gpa hpa : UInt64)
  | map1gb (gpa hpa : UInt64)

def EptCall.run (root : Addr) : EptCall → MemM Result
  | .map gpa pte => eptMap (some root) gpa pte
  | .map2mb gpa hpa => eptMap2mb (some root) gpa hpa
  | .map1gb gpa hpa => eptMap1gb (some root) gpa hpa

/-- What a call does to the cover. -/
def EptCall.cover (c : Cover) : EptCall → Cover
  | .map gpa _ => ((c.grow (pdptPath gpa)).grow (pdPath gpa)).grow (eptPath gpa)
  | .map2mb gpa hpa =>
    if isAligned gpa HUGE_PAGE_SIZE ∧ isAligned hpa HUGE_PAGE_SIZE ∧ c (pdptPath gpa) ≠ .absent ∧
        c (pdPath gpa) ≠ .absent then Function.update c (eptPath gpa) .large
    else c
  | .map1gb gpa hpa =>
    if isAligned gpa GIG_PAGE_SIZE ∧ isAligned hpa GIG_PAGE_SIZE ∧ c (pdptPath gpa) ≠ .absent then
      Function.update c (pdPath gpa) .large
    else c

/-- The cover after a list of calls. -/
def coverOf (calls : List EptCall) : Cover := calls.foldl EptCall.cover Cover.empty

/-- A call does not descend through a large page. -/
def EptCall.Avoids (c : Cover) : EptCall → Prop
  | .map gpa _ => c (pdPath gpa) ≠ .large ∧ c (eptPath gpa) ≠ .large
  | .map2mb gpa _ => c (pdPath gpa) ≠ .large
  | .map1gb _ _ => True

/-- The indices with which `ept_lookup` reads for an address, table after table. -/
def Cover.reads (c : Cover) (gpa : UInt64) : List (Fin 512) :=
  eptPml4Index gpa :: if c (pdptPath gpa) = .absent then [] else
    eptPdpIndex gpa :: if c (pdPath gpa) = .absent then [] else
      eptPdIndex gpa :: if c (eptPath gpa) = .table then [eptPtIndex gpa] else []

/-- The entries that a call reads and writes lie inside their tables. -/
def EptCall.InPage (slots : ℕ) (c : Cover) : EptCall → Prop
  | .map gpa _ => (∀ k ∈ eptPath gpa, k.val < slots) ∧ (eptPtIndex gpa).val < slots
  | .map2mb gpa hpa => isAligned gpa HUGE_PAGE_SIZE → isAligned hpa HUGE_PAGE_SIZE →
    ∀ k ∈ (c.reads gpa).take 3, k.val < slots
  | .map1gb gpa hpa => isAligned gpa GIG_PAGE_SIZE → isAligned hpa GIG_PAGE_SIZE →
    ∀ k ∈ (c.reads gpa).take 2, k.val < slots

/-- No call of a list descends through a large page that an earlier one entered, or runs out of a
table. -/
def AvoidsLarge (slots : ℕ) (calls : List EptCall) : Prop :=
  ∀ pre call post, calls = pre ++ call :: post →
    call.Avoids (coverOf pre) ∧ call.InPage slots (coverOf pre)

theorem Cover.grow_self (c : Cover) (p : List (Fin 512)) : c.grow p p ≠ .absent := by
  unfold Cover.grow
  split_ifs with h
  · rw [Function.update_self]
    exact nofun
  · exact h

theorem Cover.grow_of_ne (c : Cover) {p q : List (Fin 512)} (h : q ≠ p) : c.grow p q = c q := by
  unfold Cover.grow
  split_ifs
  · exact Function.update_of_ne h _ _
  · rfl

theorem Cover.grow_large_iff (c : Cover) (p q : List (Fin 512)) :
    c.grow p q = .large ↔ c q = .large := by
  by_cases h : q = p
  · subst h
    unfold Cover.grow
    split_ifs with hc
    · rw [Function.update_self, hc]
      exact ⟨nofun, nofun⟩
    · exact Iff.rfl
  · rw [c.grow_of_ne h]

/-! ## Trees with large pages -/

/-- The page-table format: a table is pointed at by an entry that is present and not large. -/
def largeFormat (abi : EptAbi) : Radix.Format ℕ EptEntry where
  zero := {}
  present e := e.present && !e.bigPagesize
  target e := (abi.address e).toNat
  plain _ := True
  present_zero := rfl
  plain_zero := trivial

/-- The memory with one entry stored. -/
def PhysMem.putEntry (m : PhysMem) (table : Addr) (k : Fin 512) (e : EptEntry) : PhysMem :=
  { m with tables := Radix.store m.tables table k e }

@[simp] theorem PhysMem.putEntry_tables (m : PhysMem) (table : Addr) (k : Fin 512) (e : EptEntry) :
    (m.putEntry table k e).tables = Radix.store m.tables table k e := rfl

@[simp] theorem PhysMem.putEntry_abi (m : PhysMem) (table : Addr) (k : Fin 512) (e : EptEntry) :
    (m.putEntry table k e).abi = m.abi := rfl

/-- An entry says what its range is mapped by. -/
def EptEntry.Shows (e : EptEntry) (r : Range) : Prop :=
  (e.present = false ↔ r = .absent) ∧ (e.bigPagesize = true ↔ r = .large)

/-- The tables of the tree below `root`, none of them among the `old` blocks, are mapped as the
cover says. -/
structure LargeTrees (old : List (Block BlockKind)) (root : ℕ) (c : Cover) (m : PhysMem)
    (lbl : Labels) : Prop where
  tree : Radix.Tree (largeFormat m.abi) 4 m.tables lbl
  tables : TablesLive m lbl
  base : lbl root = some (root, [])
  fresh : ∀ a, lbl a ≠ none → tablePage a ∉ old
  kept : ∀ b ∈ old, b ∈ m.heap.live
  inj : ∀ a b x, lbl a = some x → lbl b = some x → a = b
  named : ∀ a r p, lbl a = some (r, p) → r = root ∧ c p ≠ .absent
  shown : ∀ a p i, lbl a = some (root, p) → p.length < 3 → (m.tables a i).Shows (c (p ++ [i]))
  closed : ∀ p i, c p = .absent → c (p ++ [i]) = .absent
  short : ∀ i, c [i] ≠ .large

/-- What the walk for an address takes for its PDPT. -/
abbrev PhysMem.pdptAt (m : PhysMem) (root : Addr) (gpa : UInt64) : Addr :=
  (m.abi.address (m.tables root (eptPml4Index gpa))).toNat

/-- What the walk for an address takes for its PD. -/
abbrev PhysMem.pdAt (m : PhysMem) (root : Addr) (gpa : UInt64) : Addr :=
  (m.abi.address (m.tables (m.pdptAt root gpa) (eptPdpIndex gpa))).toNat

variable {old : List (Block BlockKind)} {root table a : ℕ} {c : Cover} {m m' : PhysMem}
  {lbl : Labels} {p : List (Fin 512)} {k : Fin 512}

section Writes

variable (ht : LargeTrees old root c m lbl) (hl : lbl table = some (root, p))

include hl

omit ht in
theorem label_ne_none : lbl table ≠ none := by
  rw [hl]
  exact Option.some_ne_none _

include ht

theorem LargeTrees.hasEntry (hk : k.val < m.abi.slots) : m.HasEntry table k :=
  ht.tables.hasEntry (label_ne_none hl) hk

theorem LargeTrees.newTable_tables (hf : m.heap.Fits 4096 (tablePage a)) : (m.newTable table k a).tables =
    Radix.store (m.newPages a 4096).tables table k (tableEntry (m.tables table k) a) := by
  have hsame : (m.newPages a 4096).tables table = m.tables table :=
    m.zero_tables_of_not (ht.tables.lt (label_ne_none hl) hf)
  rw [PhysMem.newTable, hsame]

/-- The entries of the tables, where one is linked in, say what their ranges are mapped by. -/
theorem LargeTrees.shown_link (hp : p.length < 3) (hc : c (p ++ [k]) = .absent)
    (hf : m.heap.Fits 4096 (tablePage a)) {b : ℕ} {q : List (Fin 512)} {i : Fin 512}
    (hb : Radix.adopt lbl a root (p ++ [k]) b = some (root, q)) (hq : q.length < 3) :
    ((m.newTable table k a).tables b i).Shows (c.grow (p ++ [k]) (q ++ [i])) := by
  have hbig : (m.tables table k).bigPagesize = false := by
    rw [Bool.eq_false_iff, Ne, (ht.shown table p k hl hp).2, hc]
    simp
  have hsame : ∀ b, lbl b ≠ none → (m.newPages a 4096).tables b = m.tables b := fun b hb =>
    m.zero_tables_of_not (ht.tables.lt hb hf)
  rw [ht.newTable_tables hl hf]
  obtain ⟨rfl, heq⟩ | ⟨-, hbq⟩ := Radix.adopt_cases hb
  · -- the new table is empty
    cases heq
    have hne : b ≠ table := fun h => label_ne_none hl (h ▸ ht.tables.fresh hf)
    have hzero : (m.newPages b 4096).tables b = fun _ => {} := m.zero_tables_of_lt (le_refl b) (by omega)
    rw [Radix.store_of_table_ne hne, hzero, c.grow_of_ne (by simp), ht.closed _ _ hc]
    exact ⟨⟨fun _ => rfl, fun _ => rfl⟩, by simp, by simp⟩
  have hb' := label_ne_none hbq
  by_cases hbt : b = table
  · subst hbt
    rw [hl] at hbq
    cases hbq
    by_cases hk : i = k
    · subst hk
      rw [Radix.store_same, Cover.grow, if_pos hc, Function.update_self]
      refine ⟨⟨by simp [tableEntry], by simp⟩, ?_⟩
      rw [show (tableEntry (m.tables b i) a).bigPagesize = false from hbig]
      exact ⟨by simp, by simp⟩
    · rw [Radix.store_of_index_ne _ hk, hsame b hb', c.grow_of_ne (by simpa using hk)]
      exact ht.shown b p i hl hp
  · rw [Radix.store_of_table_ne hbt, hsame b hb', c.grow_of_ne ?_]
    · exact ht.shown b q i hbq hq
    · intro hqp
      obtain ⟨rfl, -⟩ := List.append_inj' hqp rfl
      exact hbt (ht.inj b table _ hbq hl)

/-- **A table is linked in** where there is nothing. -/
theorem LargeTrees.link (hp : p.length < 3) (hc : c (p ++ [k]) = .absent)
    (hf : m.heap.Fits 4096 (tablePage a)) :
    LargeTrees old root (c.grow (p ++ [k])) (m.newTable table k a)
      (Radix.adopt lbl a root (p ++ [k])) := by
  have hfresh := ht.tables.fresh hf
  have hsame : ∀ b, lbl b ≠ none → (m.newPages a 4096).tables b = m.tables b := fun b hb =>
    m.zero_tables_of_not (ht.tables.lt hb hf)
  have hzero : (m.newPages a 4096).tables a = fun _ => {} :=
    m.zero_tables_of_lt (le_refl a) (by omega)
  -- nothing was labelled with the new path before
  have hnew : ∀ b r, lbl b ≠ some (r, p ++ [k]) := fun b r hb => (ht.named b r _ hb).2 hc
  refine ⟨?_, ht.tables.adopt hf rfl rfl, Radix.adopt_of_some hfresh ht.base, fun b hb => ?_,
    fun b hb => List.mem_cons_of_mem _ (ht.kept b hb), fun b b' x hb hb' => ?_, fun b r q hb => ?_,
    fun b q i => ht.shown_link hl hp hc hf, fun q i hq => ?_, fun i => ?_⟩
  · rw [ht.newTable_tables hl hf]
    exact (ht.tree.congr hsame).link hl hfresh hzero
      (address_frameNumber rfl hf.2.1 (ht.tables.addr_lt hf)) trivial
  · obtain ⟨x, hx⟩ := Option.ne_none_iff_exists'.mp hb
    obtain ⟨rfl, -⟩ | ⟨-, hold⟩ := Radix.adopt_cases hx
    · exact fun hold => (hf.2.2.2 _ (ht.kept _ hold)).1 rfl
    · exact ht.fresh b (label_ne_none hold)
  · obtain ⟨rfl, rfl⟩ | ⟨-, hold⟩ := Radix.adopt_cases hb <;>
      obtain ⟨rfl, heq⟩ | ⟨-, hold'⟩ := Radix.adopt_cases hb'
    · rfl
    · exact absurd hold' (hnew b' root)
    · exact absurd (heq ▸ hold) (hnew b root)
    · exact ht.inj b b' x hold hold'
  · obtain ⟨rfl, heq⟩ | ⟨-, hold⟩ := Radix.adopt_cases hb
    · cases heq
      exact ⟨rfl, c.grow_self _⟩
    · refine ⟨(ht.named b r q hold).1, ?_⟩
      rw [c.grow_of_ne fun hq => hnew b r (by rw [← hq]; exact hold)]
      exact (ht.named b r q hold).2
  · have hqc : c q = .absent := by
      by_cases hqp : q = p ++ [k]
      · rw [hqp]
        exact hc
      · rwa [c.grow_of_ne hqp] at hq
    have hne : q ++ [i] ≠ p ++ [k] := by
      intro h
      obtain ⟨rfl, -⟩ := List.append_inj' h rfl
      exact (ht.named table root q hl).2 hqc
    rw [c.grow_of_ne hne]
    exact ht.closed q i hqc
  · rw [Ne, c.grow_large_iff]
    exact ht.short i

/-- **A large page is entered.** -/
theorem LargeTrees.seal (hp : p.length < 3) (hp' : p ≠ []) (frame : UInt64) :
    LargeTrees old root (Function.update c (p ++ [k]) .large)
      (m.putEntry table k (largeEntry (m.tables table k) frame)) lbl := by
  refine ⟨ht.tree.cut rfl trivial, ⟨ht.tables.live, ht.tables.aligned, ht.tables.sound,
    ht.tables.limit⟩, ht.base, ht.fresh, ht.kept, ht.inj, fun b r q hb => ?_, fun b q i hb hq => ?_,
    fun q i hq => ?_, fun i => ?_⟩
  · refine ⟨(ht.named b r q hb).1, ?_⟩
    by_cases hqp : q = p ++ [k]
    · subst hqp
      rw [Function.update_self]
      exact nofun
    · rw [Function.update_of_ne hqp]
      exact (ht.named b r q hb).2
  · by_cases hbk : b = table ∧ i = k
    · obtain ⟨rfl, rfl⟩ := hbk
      rw [hl] at hb
      cases hb
      rw [PhysMem.putEntry_tables, Radix.store_same, Function.update_self]
      exact ⟨⟨nofun, nofun⟩, fun _ => rfl, fun _ => rfl⟩
    · have hne : q ++ [i] ≠ p ++ [k] := by
        intro h
        obtain ⟨rfl, hik⟩ := List.append_inj' h rfl
        exact hbk ⟨ht.inj b table _ hb hl, List.singleton_injective hik⟩
      rw [Function.update_of_ne hne, PhysMem.putEntry_tables]
      by_cases hbt : b = table
      · subst hbt
        rw [Radix.store_of_index_ne _ fun hik => hbk ⟨rfl, hik⟩]
        exact ht.shown b q i hb hq
      · rw [Radix.store_of_table_ne hbt]
        exact ht.shown b q i hb hq
  · have hqc : c q = .absent := by
      by_cases hqp : q = p ++ [k]
      · rw [hqp, Function.update_self] at hq
        cases hq
      · rwa [Function.update_of_ne hqp] at hq
    have hne : q ++ [i] ≠ p ++ [k] := by
      intro h
      obtain ⟨rfl, -⟩ := List.append_inj' h rfl
      exact (ht.named table root q hl).2 hqc
    rw [Function.update_of_ne hne]
    exact ht.closed q i hqc
  · have hne : [i] ≠ p ++ [k] := fun h =>
      hp' (List.append_inj' (show [] ++ [i] = p ++ [k] from h) rfl).1.symm
    rw [Function.update_of_ne hne]
    exact ht.short i

/-- **A last table is written.** -/
theorem LargeTrees.fill (hp : p.length = 3) (pte : EptEntry) :
    LargeTrees old root c (m.putEntry table k pte) lbl := by
  refine ⟨ht.tree.store k pte hl (by omega), ⟨ht.tables.live, ht.tables.aligned, ht.tables.sound,
    ht.tables.limit⟩, ht.base, ht.fresh, ht.kept, ht.inj, ht.named, fun b q i hb hq => ?_, ht.closed,
    ht.short⟩
  have hbt : b ≠ table := by
    rintro rfl
    rw [hl] at hb
    cases hb
    omega
  rw [PhysMem.putEntry_tables, Radix.store_of_table_ne hbt]
  exact ht.shown b q i hb hq

theorem LargeTrees.target (hp : p.length < 3) (hc : c (p ++ [k]) = .table) :
    (m.tables table k).present = true ∧ (m.tables table k).bigPagesize = false ∧
      lbl (m.abi.address (m.tables table k)).toNat = some (root, p ++ [k]) := by
  have hshown := ht.shown table p k hl hp
  rw [hc] at hshown
  have hpres : (m.tables table k).present = true := by
    rw [← Bool.not_eq_false, hshown.1]
    exact nofun
  have hbig : (m.tables table k).bigPagesize = false := by
    rw [Bool.eq_false_iff, Ne, hshown.2]
    exact nofun
  refine ⟨hpres, hbig, ht.tree.typed table root p k hl (by omega) ?_⟩
  simp only [largeFormat, hpres, hbig, Bool.not_false, Bool.and_self]

end Writes

theorem largeTrees_newRoot (hsound : m.heap.Sound) (hlimit : m.heap.limit ≤ m.abi.span)
    (hf : m.heap.Fits 4096 (tablePage root)) : LargeTrees m.heap.live root Cover.empty
      (m.newRoot root) (Radix.adopt (fun _ => none) root root []) := by
  have hold : ∀ a (x : ℕ × List (Fin 512)), Radix.adopt (fun _ => none) root root [] a = some x →
      a = root ∧ x = (root, []) := by
    intro a x ha
    by_cases har : a = root
    · subst har
      rw [Radix.adopt_self] at ha
      cases ha
      exact ⟨rfl, rfl⟩
    · rw [Radix.adopt, Function.update_of_ne har] at ha
      cases ha
  have hempty : ∀ p : List (Fin 512), p ≠ [] → Cover.empty p = .absent := fun p hp => if_neg hp
  have hzero : (m.newRoot root).tables root = fun _ => {} :=
    (m.newPages root 4096).zero_tables_of_lt (le_refl root) (by omega)
  have htables : TablesLive m fun _ => none :=
    ⟨fun _ h => absurd rfl h, fun _ h => absurd rfl h, hsound, hlimit⟩
  refine ⟨?_, htables.adopt hf rfl rfl, Radix.adopt_self _ _ _, fun a ha hin => ?_,
    fun b hb => List.mem_cons_of_mem _ hb, fun a b x ha hb => ?_, fun a r p ha => ?_,
    fun a p i ha _ => ?_, fun p i _ => hempty _ (by simp), fun i => ?_⟩
  · have hnone : Radix.Tree (largeFormat m.abi) 4 (m.newRoot root).tables fun _ => none :=
      ⟨by simp, by simp⟩
    exact hnone.newRoot rfl hzero
  · obtain ⟨x, hx⟩ := Option.ne_none_iff_exists'.mp ha
    obtain ⟨rfl, -⟩ := hold a x hx
    exact (hf.2.2.2 _ hin).1 rfl
  · rw [(hold a x ha).1, (hold b x hb).1]
  · cases (hold a _ ha).2
    exact ⟨rfl, by simp [Cover.empty]⟩
  · obtain ⟨rfl, hp⟩ := hold a _ ha
    cases hp
    rw [hzero, hempty _ (by simp)]
    exact ⟨⟨fun _ => rfl, fun _ => rfl⟩, by simp, by simp⟩
  · rw [hempty _ (by simp)]
    simp

/-! ## Calls -/

section Calls

variable (ht : LargeTrees old root c m lbl) (gpa hpa : UInt64)

include ht

omit ht in
theorem Range.eq_table {r : Range} (h : r ≠ .absent) (h' : r ≠ .large) : r = .table := by
  cases r with
  | absent => exact absurd rfl h
  | table => rfl
  | large => exact absurd rfl h'

theorem LargeTrees.pdpt (hc : c (pdptPath gpa) ≠ .absent) :
    (m.tables root (eptPml4Index gpa)).present = true ∧
      (m.tables root (eptPml4Index gpa)).bigPagesize = false ∧
      lbl (m.pdptAt root gpa) = some (root, pdptPath gpa) :=
  ht.target ht.base (by decide) (Range.eq_table hc (ht.short _))

theorem LargeTrees.pdptPath_ne (hc : c (pdPath gpa) ≠ .absent) : c (pdptPath gpa) ≠ .absent :=
  fun h => hc (ht.closed (pdptPath gpa) (eptPdpIndex gpa) h)

theorem LargeTrees.pd (hc : c (pdPath gpa) = .table) :
    (m.tables (m.pdptAt root gpa) (eptPdpIndex gpa)).present = true ∧
      (m.tables (m.pdptAt root gpa) (eptPdpIndex gpa)).bigPagesize = false ∧
      lbl (m.pdAt root gpa) = some (root, pdPath gpa) := by
  have hne : c (pdPath gpa) ≠ .absent := by rw [hc]; exact nofun
  exact ht.target (ht.pdpt gpa (ht.pdptPath_ne gpa hne)).2.2 (by simp [pdptPath]) hc

omit ht in
theorem Cover.reads_of_table (hc : c (pdPath gpa) ≠ .absent)
    (hclosed : c (pdptPath gpa) ≠ .absent) :
    (c.reads gpa).take 3 = eptPath gpa := by
  rw [Cover.reads, if_neg hclosed, if_neg hc]
  rfl

/-- **`ept_map_2mb`** where the upper tables exist. -/
theorem eptMap2mb_run (hg : isAligned gpa HUGE_PAGE_SIZE = true)
    (hh : isAligned hpa HUGE_PAGE_SIZE = true) (hc : c (pdPath gpa) = .table)
    (hslots : ∀ k ∈ eptPath gpa, k.val < m.abi.slots) :
    (eptMap2mb (some root) gpa hpa).run m = some (.ok,
      m.putEntry (m.pdAt root gpa) (eptPdIndex gpa)
        (largeEntry (m.tables (m.pdAt root gpa) (eptPdIndex gpa)) (hpa >>> HUGE_PAGE_SHIFT))) := by
  have hpd := ht.pd gpa hc
  have hpdpt := ht.pdpt gpa (ht.pdptPath_ne gpa (by rw [hc]; exact nofun))
  have hwp : wp (eptMap2mb (some root) gpa hpa) (fun r m' => r = .ok ∧ m' =
      m.putEntry (m.pdAt root gpa) (eptPdIndex gpa)
        (largeEntry (m.tables (m.pdAt root gpa) (eptPdIndex gpa)) (hpa >>> HUGE_PAGE_SHIFT))) m := by
    simp only [eptMap2mb, hg, hh, Bool.not_true, Bool.or_self, Bool.false_eq_true, if_false, wp_bind,
      wp_fetch, Option.some.injEq, exists_eq_left', readEntry, writeEntry, wp_entryAddress, wp_get,
      wp_require, wp_set, wp_pure, hpdpt.1, hpd.1]
    exact ⟨ht.hasEntry ht.base (hslots _ (by simp [eptPath])),
      ht.hasEntry hpdpt.2.2 (hslots _ (by simp [eptPath])),
      ht.hasEntry hpd.2.2 (hslots _ (by simp [eptPath])),
      ht.hasEntry hpd.2.2 (hslots _ (by simp [eptPath])), trivial, rfl⟩
  obtain ⟨r, m', hrun, rfl, rfl⟩ := hwp
  exact hrun

/-- **`ept_map_1gb`** where the upper table exists. -/
theorem eptMap1gb_run (hg : isAligned gpa GIG_PAGE_SIZE = true)
    (hh : isAligned hpa GIG_PAGE_SIZE = true) (hc : c (pdptPath gpa) ≠ .absent)
    (hslots : ∀ k ∈ pdPath gpa, k.val < m.abi.slots) :
    (eptMap1gb (some root) gpa hpa).run m = some (.ok,
      m.putEntry (m.pdptAt root gpa) (eptPdpIndex gpa)
        (largeEntry (m.tables (m.pdptAt root gpa) (eptPdpIndex gpa)) (hpa >>> GIG_PAGE_SHIFT))) := by
  have hpdpt := ht.pdpt gpa hc
  have hwp : wp (eptMap1gb (some root) gpa hpa) (fun r m' => r = .ok ∧ m' =
      m.putEntry (m.pdptAt root gpa) (eptPdpIndex gpa)
        (largeEntry (m.tables (m.pdptAt root gpa) (eptPdpIndex gpa)) (hpa >>> GIG_PAGE_SHIFT))) m := by
    simp only [eptMap1gb, hg, hh, Bool.not_true, Bool.or_self, Bool.false_eq_true, if_false, wp_bind,
      wp_fetch, Option.some.injEq, exists_eq_left', readEntry, writeEntry, wp_entryAddress, wp_get,
      wp_require, wp_set, wp_pure, hpdpt.1]
    exact ⟨ht.hasEntry ht.base (hslots _ (by simp [pdPath])),
      ht.hasEntry hpdpt.2.2 (hslots _ (by simp [pdPath])),
      ht.hasEntry hpdpt.2.2 (hslots _ (by simp [pdPath])), trivial, rfl⟩
  obtain ⟨r, m', hrun, rfl, rfl⟩ := hwp
  exact hrun

/-- **`ept_map_2mb`** where it does not descend through a large page and stays in the tables. -/
theorem eptMap2mb_spec (hc : c (pdPath gpa) ≠ .large)
    (hin : (EptCall.map2mb gpa hpa).InPage m.abi.slots c) : wp (eptMap2mb (some root) gpa hpa)
    (fun _ m' => m'.abi = m.abi ∧
      ∃ lbl', LargeTrees old root ((EptCall.map2mb gpa hpa).cover c) m' lbl') m := by
  by_cases hal : isAligned gpa HUGE_PAGE_SIZE = true ∧ isAligned hpa HUGE_PAGE_SIZE = true
  · by_cases hpd : c (pdPath gpa) = .absent
    · have hcover : (EptCall.map2mb gpa hpa).cover c = c := if_neg (by tauto)
      rw [hcover]
      have hskip : ∀ r : Result, wp (pure r : MemM Result) (fun _ m' => m'.abi = m.abi ∧
          ∃ lbl', LargeTrees old root c m' lbl') m := fun r => (wp_pure _).mpr ⟨rfl, lbl, ht⟩
      have hslots := hin hal.1 hal.2
      simp only [eptMap2mb, hal, Bool.not_true, Bool.or_self, Bool.false_eq_true, if_false, wp_bind,
        wp_fetch, Option.some.injEq, exists_eq_left', readEntry, wp_get, wp_require, wp_pure]
      refine ⟨ht.hasEntry ht.base (hslots _ (by simp [Cover.reads])),
        wp_ite (fun _ => hskip _) fun hpres => ?_⟩
      have hne : c (pdptPath gpa) ≠ .absent := fun h => by
        have := (ht.shown root [] (eptPml4Index gpa) ht.base (by decide)).1.mpr h
        rw [this] at hpres
        exact hpres rfl
      have hpdpt := ht.pdpt gpa hne
      have habs := (ht.shown _ _ (eptPdpIndex gpa) hpdpt.2.2 (by simp [pdptPath])).1.mpr hpd
      simp only [wp_entryAddress, wp_bind, wp_get, wp_require, wp_pure]
      refine ⟨ht.hasEntry hpdpt.2.2 (hslots _ (by simp [Cover.reads, hne])),
        wp_ite (fun _ => hskip _) fun hpres' => ?_⟩
      rw [show (m.tables (m.pdptAt root gpa) (eptPdpIndex gpa)).present = false from habs] at hpres'
      exact absurd rfl hpres'
    · have htab := Range.eq_table hpd hc
      have hcover : (EptCall.map2mb gpa hpa).cover c = Function.update c (eptPath gpa) .large :=
        if_pos ⟨hal.1, hal.2, ht.pdptPath_ne gpa hpd, hpd⟩
      rw [hcover]
      have hslots := hin hal.1 hal.2
      rw [Cover.reads_of_table gpa hpd (ht.pdptPath_ne gpa hpd)] at hslots
      refine wp_of_run (eptMap2mb_run ht gpa hpa hal.1 hal.2 htab hslots) ⟨rfl, lbl, ?_⟩
      exact ht.seal (k := eptPdIndex gpa) (ht.pd gpa htab).2.2 (by simp [pdPath]) (by simp [pdPath]) _
  · have hcover : (EptCall.map2mb gpa hpa).cover c = c := if_neg (by tauto)
    have hbad : (!isAligned gpa HUGE_PAGE_SIZE || !isAligned hpa HUGE_PAGE_SIZE) = true := by
      simpa [imp_iff_not_or] using hal
    simp only [eptMap2mb, hbad, if_true, wp_pure]
    rw [hcover]
    exact ⟨trivial, lbl, ht⟩

/-- **`ept_map_1gb`** where it stays in the tables. -/
theorem eptMap1gb_spec (hin : (EptCall.map1gb gpa hpa).InPage m.abi.slots c) :
    wp (eptMap1gb (some root) gpa hpa) (fun _ m' => m'.abi = m.abi ∧
      ∃ lbl', LargeTrees old root ((EptCall.map1gb gpa hpa).cover c) m' lbl') m := by
  by_cases hal : isAligned gpa GIG_PAGE_SIZE = true ∧ isAligned hpa GIG_PAGE_SIZE = true
  · by_cases hpdpt : c (pdptPath gpa) = .absent
    · have hcover : (EptCall.map1gb gpa hpa).cover c = c := if_neg (by tauto)
      have habs := (ht.shown root [] (eptPml4Index gpa) ht.base (by decide)).1.mpr hpdpt
      simp only [eptMap1gb, hal, Bool.not_true, Bool.or_self, Bool.false_eq_true, if_false, wp_bind,
        wp_fetch, Option.some.injEq, exists_eq_left', readEntry, wp_get, wp_require, wp_pure, habs,
        Bool.not_false, if_true]
      rw [hcover]
      exact ⟨ht.hasEntry ht.base (hin hal.1 hal.2 _ (by simp [Cover.reads])), trivial, lbl, ht⟩
    · have hcover : (EptCall.map1gb gpa hpa).cover c = Function.update c (pdPath gpa) .large :=
        if_pos ⟨hal.1, hal.2, hpdpt⟩
      rw [hcover]
      have hslots : ∀ k ∈ pdPath gpa, k.val < m.abi.slots := fun k hk => by
        refine hin hal.1 hal.2 k ?_
        rw [Cover.reads, if_neg hpdpt]
        exact hk
      refine wp_of_run (eptMap1gb_run ht gpa hpa hal.1 hal.2 hpdpt hslots) ⟨rfl, lbl, ?_⟩
      exact ht.seal (k := eptPdpIndex gpa) (ht.pdpt gpa hpdpt).2.2 (by simp [pdptPath])
        (by simp [pdptPath]) _
  · have hcover : (EptCall.map1gb gpa hpa).cover c = c := if_neg (by tauto)
    have hbad : (!isAligned gpa GIG_PAGE_SIZE || !isAligned hpa GIG_PAGE_SIZE) = true := by
      simpa [imp_iff_not_or] using hal
    simp only [eptMap1gb, hbad, if_true, wp_pure]
    rw [hcover]
    exact ⟨trivial, lbl, ht⟩

theorem LargeTrees.large (hl : lbl table = some (root, p)) (hp : p.length < 3)
    (hc : c (p ++ [k]) = .large) :
    (m.tables table k).present = true ∧ (m.tables table k).bigPagesize = true := by
  have hshown := ht.shown table p k hl hp
  rw [hc] at hshown
  refine ⟨?_, hshown.2.mpr rfl⟩
  rw [← Bool.not_eq_false, hshown.1]
  exact nofun

end Calls

end NexusVM
