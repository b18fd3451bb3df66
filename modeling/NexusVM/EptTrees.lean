import NexusVM.Ept

/-!
# The invariant of page-table trees

All the trees in a memory are described by one label for each table page: the root it belongs to
and the path from there.

* `EptTrees`: labelled pages form trees of depth four, are live and aligned, and lie where an
  entry can point;
* `Grows`: what a descent does to allocator, labels and interior walks;
* `eptNext_spec`, **`eptMap_cases`**: one level of the descent, and a whole call;
* **`eptLookup_run`**, `eptTranslate_run`: a lookup reads the tree at the key of the address.
-/

namespace NexusVM

/-- The page-table format: four levels, the first three without large pages. -/
def eptFormat (abi : EptAbi) : Radix.Format ℕ EptEntry where
  zero := {}
  present e := e.present
  target e := (abi.address e).toNat
  plain e := e.bigPagesize = false
  present_zero := rfl
  plain_zero := rfl

abbrev Labels : Type := Radix.Label ℕ (Fin 512)

/-- The table that the indices `is` lead to from the table `a`. -/
abbrev PhysMem.walk (m : PhysMem) (a : ℕ) (is : List (Fin 512)) : Option ℕ :=
  Radix.walk (eptFormat m.abi) m.tables a is

theorem PhysMem.walk_append (m : PhysMem) (a : ℕ) (is js : List (Fin 512)) :
    m.walk a (is ++ js) = (m.walk a is).bind fun t => m.walk t js :=
  Radix.walk_append a is js

/-- What is stored for the key `is`, `j` below the root `r`. -/
abbrev PhysMem.look (m : PhysMem) (r : ℕ) (is : List (Fin 512)) (j : Fin 512) : Option EptEntry :=
  Radix.look (eptFormat m.abi) m.tables r is j

/-- The block of one table page. -/
def tablePage (a : ℕ) : Block BlockKind := ⟨.pages, a, 4096⟩

/-- Labelled pages form trees and are live. -/
structure EptTrees (m : PhysMem) (lbl : Labels) : Prop where
  tree : Radix.Tree (eptFormat m.abi) 4 m.tables lbl
  live : ∀ a, lbl a ≠ none → tablePage a ∈ m.heap.live
  aligned : ∀ a, lbl a ≠ none → 4096 ∣ a
  sound : m.heap.Sound
  limit : m.heap.limit ≤ m.abi.span

/-- Labelled pages are live table pages. -/
structure TablesLive (m : PhysMem) (lbl : Labels) : Prop where
  live : ∀ a, lbl a ≠ none → tablePage a ∈ m.heap.live
  aligned : ∀ a, lbl a ≠ none → 4096 ∣ a
  sound : m.heap.Sound
  limit : m.heap.limit ≤ m.abi.span

theorem EptTrees.tables {m : PhysMem} {lbl : Labels} (ht : EptTrees m lbl) : TablesLive m lbl :=
  ⟨ht.live, ht.aligned, ht.sound, ht.limit⟩

/-- The memory and the labels grow: new tables are fresh, and what was there is kept. -/
structure Grows (m m' : PhysMem) (lbl lbl' : Labels) : Prop where
  keep : ∀ a x, lbl a = some x → lbl' a = some x
  fresh : ∀ a, lbl a = none → lbl' a ≠ none → ∀ b ∈ m.heap.live, b.base ≠ a
  live : ∀ b ∈ m.heap.live, b ∈ m'.heap.live
  walk : ∀ a r p is t, lbl a = some (r, p) → p.length + is.length < 4 →
    m.walk a is = some t → m'.walk a is = some t
  abi : m'.abi = m.abi

variable {m m' m'' : PhysMem} {lbl lbl' lbl'' : Labels}

theorem Grows.refl (m : PhysMem) (lbl : Labels) : Grows m m lbl lbl :=
  ⟨fun _ _ h => h, fun _ h h' => absurd h h', fun _ h => h, fun _ _ _ _ _ _ _ h => h, rfl⟩

theorem Grows.trans (h : Grows m m' lbl lbl') (h' : Grows m' m'' lbl' lbl'') :
    Grows m m'' lbl lbl'' := by
  refine ⟨fun a x ha => h'.keep a x (h.keep a x ha), fun a ha ha'' b hb => ?_,
    fun b hb => h'.live b (h.live b hb),
    fun a r p is t ha hp hw => h'.walk a r p is t (h.keep a _ ha) hp (h.walk a r p is t ha hp hw),
    h'.abi.trans h.abi⟩
  by_cases hm : lbl' a = none
  · exact h'.fresh a hm ha'' b (h.live b hb)
  · exact h.fresh a ha hm b hb

/-! ## New pages -/

theorem TablesLive.lt (ht : TablesLive m lbl) {a : ℕ} (ha : lbl a ≠ none) {b : Block BlockKind}
    {align : ℕ} (hf : m.heap.Fits align b) : ¬ (b.base ≤ a ∧ a < b.base + b.size) := by
  have h := (hf.2.2.2 _ (ht.live a ha)).2
  simp only [tablePage] at h
  omega

theorem TablesLive.mapped (ht : TablesLive m lbl) {a : ℕ} (ha : lbl a ≠ none) : m.Mapped a :=
  ⟨tablePage a, ht.live a ha, rfl, le_refl _, le_refl _⟩

theorem EptTrees.lt (ht : EptTrees m lbl) {a : ℕ} (ha : lbl a ≠ none) {b : Block BlockKind}
    {align : ℕ} (hf : m.heap.Fits align b) : ¬ (b.base ≤ a ∧ a < b.base + b.size) :=
  ht.tables.lt ha hf

theorem TablesLive.hasEntry (ht : TablesLive m lbl) {a : ℕ} (ha : lbl a ≠ none) {k : Fin 512}
    (hk : k.val < m.abi.slots) : m.HasEntry a k :=
  ⟨ht.mapped ha, hk⟩

/-- What a served request for pages leaves behind. -/
def PhysMem.newPages (m : PhysMem) (a size : ℕ) : PhysMem :=
  { m with heap := m.heap.grant ⟨.pages, a, size⟩ }.zero a size

theorem eptAllocPages_spec (count : UInt64) (m : PhysMem) :
    Prog.wp (eptAllocPages count) (fun o m' => match o with
      | some a => m.heap.answer m.heap.asked = some a ∧
          m.heap.Fits 4096 ⟨.pages, a, (count * PAGE_SIZE).toNat⟩ ∧
          m' = m.newPages a (count * PAGE_SIZE).toNat
      | none => ¬ m.heap.Serves .pages 4096 (count * PAGE_SIZE).toNat 1 ∧
          m' = { m with heap := m.heap.refuse }) m := by
  rw [eptAllocPages, Prog.wp_bind, alignedAlloc, onHeap, Prog.wp_zoom]
  refine Heap.wp_alloc (fun a ha hf => ?_) fun hn => ?_
  · simp only [Prog.wp_bind, Prog.wp_modify, Prog.wp_pure]
    exact ⟨ha, hf, rfl⟩
  · rw [Prog.wp_pure]
    exact ⟨hn, rfl⟩

theorem PhysMem.Mapped.newPages {t : ℕ} (hmap : m.Mapped t) (a size : ℕ) :
    (m.newPages a size).Mapped t := by
  obtain ⟨b, hb, hbt⟩ := hmap
  exact ⟨b, List.mem_cons_of_mem _ hb, hbt⟩

theorem EptTrees.newPages (ht : EptTrees m lbl) {a size : ℕ}
    (hf : m.heap.Fits 4096 ⟨.pages, a, size⟩) : EptTrees (m.newPages a size) lbl := by
  refine ⟨ht.tree.congr fun b hb => ?_, fun b hb => List.mem_cons_of_mem _ (ht.live b hb),
    ht.aligned, ht.sound.grant hf, ht.limit⟩
  exact m.zero_tables_of_not (ht.lt hb hf)

theorem EptTrees.look_newPages (ht : EptTrees m lbl) {a size : ℕ}
    (hf : m.heap.Fits 4096 ⟨.pages, a, size⟩) {r : ℕ} {is : List (Fin 512)} (j : Fin 512)
    (hr : lbl r = some (r, [])) (hd : is.length = 3) :
    (m.newPages a size).look r is j = m.look r is j := by
  refine Radix.look_congr ht.tree (fun b p hb => ?_) hr (by simp [hd])
  exact m.zero_tables_of_not (ht.lt (by rw [hb]; exact Option.some_ne_none _) hf)

/-! ## Roots -/

theorem EptTrees.zero (ht : EptTrees m lbl) {r : ℕ} (hr : lbl r ≠ none) :
    EptTrees (m.zero r 4096) lbl := by
  refine ⟨?_, ht.live, ht.aligned, ht.sound, ht.limit⟩
  refine (ht.tree.clear r).congr fun b hb => ?_
  by_cases hbr : b = r
  · subst hbr
    rw [Function.update_self]
    exact m.zero_tables_of_lt (le_refl b) (by omega)
  · rw [Function.update_of_ne hbr]
    refine m.zero_tables_of_not ?_
    obtain ⟨k, rfl⟩ := ht.aligned r hr
    obtain ⟨j, rfl⟩ := ht.aligned b hb
    omega

theorem look_zero_self (m : PhysMem) (r : ℕ) (is : List (Fin 512)) (j : Fin 512) :
    (m.zero r 4096).look r is j = none :=
  Radix.look_empty (m.zero_tables_of_lt (le_refl r) (by omega)) is j

theorem EptTrees.look_zero_of_ne (ht : EptTrees m lbl) {r s : ℕ} (hr : lbl r = some (r, []))
    (hs : lbl s = some (s, [])) (hne : s ≠ r) {is : List (Fin 512)} (j : Fin 512)
    (hd : is.length = 3) : (m.zero r 4096).look s is j = m.look s is j := by
  refine Radix.look_congr ht.tree (fun b p hb => ?_) hs (by simp [hd])
  have hbr : b ≠ r := by
    rintro rfl
    rw [hr] at hb
    cases hb
    exact hne rfl
  refine m.zero_tables_of_not ?_
  obtain ⟨k, rfl⟩ := ht.aligned r (by rw [hr]; exact Option.some_ne_none _)
  obtain ⟨j, rfl⟩ := ht.aligned b (by rw [hb]; exact Option.some_ne_none _)
  omega

/-- What is left behind by an allocation of a root. -/
def PhysMem.newRoot (m : PhysMem) (a : ℕ) : PhysMem := (m.newPages a 4096).zero a 4096

theorem eptAllocRoot_spec (m : PhysMem) :
    Prog.wp eptAllocRoot (fun o m' => match o with
      | some a => m.heap.Fits 4096 (tablePage a) ∧ m' = m.newRoot a
      | none => m' = { m with heap := m.heap.refuse }) m := by
  rw [eptAllocRoot, Prog.wp_bind]
  refine Prog.wp_mono (eptAllocPages_spec 1 m) fun o m' ho => ?_
  cases o with
  | none => exact (Prog.wp_pure _).mpr ho.2
  | some a =>
    obtain ⟨-, hf, rfl⟩ := ho
    simp only [Prog.wp_bind, Prog.wp_modify, Prog.wp_pure]
    exact ⟨hf, rfl⟩

theorem EptTrees.newRoot (ht : EptTrees m lbl) {a : ℕ} (hf : m.heap.Fits 4096 (tablePage a)) :
    EptTrees (m.newRoot a) (Function.update lbl a (some (a, []))) := by
  have hfresh : lbl a = none := by
    by_contra hne
    exact (hf.2.2.2 _ (ht.live a hne)).1 rfl
  have ht' := ht.newPages hf
  have hzero : ∀ m' : PhysMem, (m'.zero a 4096).tables a = fun _ => {} := fun m' =>
    m'.zero_tables_of_lt (le_refl a) (by omega)
  refine ⟨?_, fun b hb => ?_, fun b hb => ?_, ht'.sound, ht.limit⟩
  · refine (ht'.tree.newRoot hfresh (hzero _)).congr fun b hb => ?_
    by_cases hba : b = a
    · subst hba
      exact (hzero _).trans (hzero _).symm
    · rw [Function.update_of_ne hba] at hb
      exact (m.newPages a 4096).zero_tables_of_not (ht.lt hb hf)
  · by_cases hba : b = a
    · subst hba
      exact List.mem_cons_self
    · rw [Function.update_of_ne hba] at hb
      exact ht'.live b hb
  · by_cases hba : b = a
    · subst hba
      exact hf.2.1
    · rw [Function.update_of_ne hba] at hb
      exact ht.aligned b hb

theorem EptTrees.empty (hsound : m.heap.Sound) (hlimit : m.heap.limit ≤ m.abi.span) :
    EptTrees m fun _ => none :=
  ⟨⟨fun _ _ _ _ h => (nomatch h), fun _ _ _ _ h => (nomatch h)⟩, fun _ h => absurd rfl h,
    fun _ h => absurd rfl h, hsound, hlimit⟩

/-! ## One level of the descent -/

/-- The entry that points at a new table. -/
def tableEntry (pte : EptEntry) (a : Addr) : EptEntry :=
  { pte with
    present := true
    write := true
    executable := false
    memoryType := EPT_MEMORY_TYPE_WRITE_BACK
    physicalAddress := frameNumber (UInt64.ofNat a) }

/-- What linking in a new table leaves behind. -/
def PhysMem.newTable (m : PhysMem) (table : ℕ) (k : Fin 512) (a : ℕ) : PhysMem :=
  let m' := m.newPages a 4096
  { m' with tables := Radix.store m'.tables table k (tableEntry (m'.tables table k) a) }

section NewTable

variable {table r a : ℕ} {p : List (Fin 512)} {k : Fin 512}

theorem PhysMem.HasEntry.newPages (he : m.HasEntry table k) (a size : ℕ) :
    (m.newPages a size).HasEntry table k :=
  ⟨he.1.newPages a size, he.2⟩

theorem eptAllocTable_spec (hmap : m.HasEntry table k) :
    Prog.wp (eptAllocTable table k) (fun _ m' =>
      (∃ a, m.heap.answer m.heap.asked = some a ∧ m.heap.Fits 4096 (tablePage a) ∧
        m' = m.newTable table k a) ∨
      (¬ m.heap.Serves .pages 4096 4096 1 ∧ m' = { m with heap := m.heap.refuse })) m := by
  rw [eptAllocTable, Prog.wp_bind]
  refine Prog.wp_mono (eptAllocPages_spec 1 m) fun o m' ho => ?_
  cases o with
  | none => exact Prog.wp_pure _ |>.mpr (.inr ho)
  | some a =>
    obtain ⟨ha, hf, rfl⟩ := ho
    have hmap := hmap.newPages a 4096
    simp only [readEntry, writeEntry, Prog.wp_bind, Prog.wp_get, Prog.wp_require, Prog.wp_set,
      Prog.wp_pure]
    exact ⟨hmap, hmap, .inl ⟨a, ha, hf, rfl⟩⟩

theorem TablesLive.fresh (ht : TablesLive m lbl) (hf : m.heap.Fits 4096 (tablePage a)) :
    lbl a = none := by
  by_contra hne
  exact (hf.2.2.2 _ (ht.live a hne)).1 rfl

theorem TablesLive.addr_lt (ht : TablesLive m lbl) (hf : m.heap.Fits 4096 (tablePage a)) :
    a < m.abi.span := by
  have h := hf.2.2.1
  have h' := ht.limit
  simp only [tablePage] at h
  omega

theorem TablesLive.adopt (ht : TablesLive m lbl) (hf : m.heap.Fits 4096 (tablePage a)) {m' : PhysMem}
    (hm : m'.heap = m.heap.grant (tablePage a)) (habi : m'.abi = m.abi) :
    TablesLive m' (Radix.adopt lbl a r p) := by
  have hold : ∀ b, b ≠ a → Radix.adopt lbl a r p b ≠ none → lbl b ≠ none := fun b hba hb => by
    rwa [Radix.adopt, Function.update_of_ne hba] at hb
  refine ⟨fun b hb => ?_, fun b hb => ?_, ?_, ?_⟩
  · rw [hm]
    by_cases hba : b = a
    · subst hba
      exact List.mem_cons_self
    · exact List.mem_cons_of_mem _ (ht.live b (hold b hba hb))
  · by_cases hba : b = a
    · subst hba
      exact hf.2.1
    · exact ht.aligned b (hold b hba hb)
  · rw [hm]
    exact ht.sound.grant hf
  · rw [hm, habi]
    exact ht.limit

variable (ht : EptTrees m lbl) (hl : lbl table = some (r, p)) (hp : p.length + 1 < 4)
  (hf : m.heap.Fits 4096 (tablePage a))

include ht hf

theorem EptTrees.fresh : lbl a = none := ht.tables.fresh hf

include hl hp

theorem EptTrees.newTable : EptTrees (m.newTable table k a)
    (Radix.adopt lbl a r (p ++ [k])) := by
  have ht' := ht.newPages hf
  have hzero : (m.newPages a 4096).tables a = fun _ => {} :=
    m.zero_tables_of_lt (le_refl a) (by omega)
  have htables : TablesLive (m.newTable table k a) (Radix.adopt lbl a r (p ++ [k])) :=
    ht.tables.adopt hf rfl rfl
  refine ⟨ht'.tree.link hl (ht.fresh hf) hzero ?_ (ht'.tree.plain table r p k hl hp),
    htables.live, htables.aligned, htables.sound, htables.limit⟩
  exact address_frameNumber rfl hf.2.1 (ht.tables.addr_lt hf)

theorem EptTrees.look_newTable (habs : (m.tables table k).present = false) {s : ℕ}
    {is : List (Fin 512)} (j : Fin 512) (hs : lbl s = some (s, [])) (hd : is.length = 3) :
    (m.newTable table k a).look s is j = m.look s is j := by
  have ht' := ht.newPages hf
  have hzero : (m.newPages a 4096).tables a = fun _ => {} :=
    m.zero_tables_of_lt (le_refl a) (by omega)
  have hsame : (m.newPages a 4096).tables table = m.tables table :=
    m.zero_tables_of_not (ht.lt (by rw [hl]; exact Option.some_ne_none _) hf)
  rw [← ht.look_newPages hf j hs hd]
  exact Radix.look_link ht'.tree hl hp (by rw [hsame]; exact habs) (ht.fresh hf) hzero
    (address_frameNumber rfl hf.2.1 (ht.tables.addr_lt hf)) hs (by simp [hd])

omit hp in
theorem EptTrees.grows_newTable (habs : (m.tables table k).present = false) :
    Grows m (m.newTable table k a) lbl (Radix.adopt lbl a r (p ++ [k])) := by
  have hfresh := ht.fresh hf
  refine ⟨fun b x hb => Radix.adopt_of_some hfresh hb, fun b hb hb' c hc => ?_,
    fun _ hb => List.mem_cons_of_mem _ hb, fun b s q is t hb hq hw => ?_, rfl⟩
  · have hba : b = a := by
      by_contra hne
      rw [Radix.adopt, Function.update_of_ne hne] at hb'
      exact hb' hb
    subst hba
    exact (hf.2.2.2 c hc).1.symm
  · refine ht.tree.walk_mono (fun c i hc hpres => ?_) hb hq hw
    have hsame : (m.newPages a 4096).tables c = m.tables c := m.zero_tables_of_not (ht.lt hc hf)
    by_cases hct : c = table ∧ i = k
    · obtain ⟨rfl, rfl⟩ := hct
      rw [show (eptFormat m.abi).present (m.tables c i) = (m.tables c i).present from rfl, habs] at hpres
      cases hpres
    · by_cases hct' : c = table
      · subst hct'
        rw [← hsame]
        exact Radix.store_of_index_ne c (fun hi => hct ⟨rfl, hi⟩) _
      · rw [← hsame]
        exact congrFun (Radix.store_of_table_ne hct' _ _) i

end NewTable

/-- The next `n` requests for a table page are all served. -/
def PhysMem.Serves (m : PhysMem) (n : ℕ) : Prop := m.heap.Serves .pages 4096 4096 n

theorem PhysMem.serves_mono {n k : ℕ} (hs : m.Serves k) (hn : n ≤ k) : m.Serves n := by
  induction hn with
  | refl => exact hs
  | step _ ih => exact ih hs.of_succ

/-- A descent that was refused nothing: trees, lookups and all but `k` served requests are
kept. -/
structure Descends (k : ℕ) (m m' : PhysMem) (lbl lbl' : Labels) : Prop where
  trees : EptTrees m' lbl'
  grows : Grows m m' lbl lbl'
  look : ∀ s is j, lbl s = some (s, []) → is.length = 3 → m'.look s is j = m.look s is j
  refused : m'.heap.refused = m.heap.refused
  serves : ∀ n, m.Serves (n + k) → m'.Serves n

theorem Descends.trans {k k' : ℕ} (h : Descends k m m' lbl lbl')
    (h' : Descends k' m' m'' lbl' lbl'') : Descends (k + k') m m'' lbl lbl'' := by
  refine ⟨h'.trees, h.grows.trans h'.grows, fun s is j hs hd => ?_,
    h'.refused.trans h.refused, fun n hn => h'.serves n (h.serves (n + k') ?_)⟩
  · rw [h'.look s is j (h.grows.keep s _ hs) hd, h.look s is j hs hd]
  · rwa [Nat.add_assoc, Nat.add_comm k' k]

section Next

variable {missing : EptEntry → Bool} {table r : ℕ} {p : List (Fin 512)} {k : Fin 512}

theorem eptNext_present (ht : EptTrees m lbl) (hl : lbl table = some (r, p))
    (hk : k.val < m.abi.slots) {c : ℕ}
    (hm : ∀ e, e.present → missing e = false)
    (hw : m.walk table [k] = some c) :
    Prog.wp (eptNext missing eptAllocTable table k) (fun c' m' => c' = c ∧ m' = m) m := by
  have hmap := ht.tables.hasEntry (a := table) (by rw [hl]; exact Option.some_ne_none _) hk
  simp only [Radix.walk] at hw
  split_ifs at hw with hpres
  cases hw
  simp only [eptNext, readEntry, wp_entryAddress, Prog.wp_bind, Prog.wp_get, Prog.wp_require,
    Prog.wp_pure, hm _ hpres, Bool.false_eq_true, if_false]
  exact ⟨hmap, hmap, rfl, trivial⟩

theorem tables_newTable (m : PhysMem) (table : ℕ) (k : Fin 512) (a : ℕ) :
    (m.newTable table k a).tables table k = tableEntry ((m.newPages a 4096).tables table k) a :=
  Radix.store_same _ _ _

theorem present_newTable (m : PhysMem) (table : ℕ) (k : Fin 512) (a : ℕ) :
    ((m.newTable table k a).tables table k).present = true := by
  rw [tables_newTable]
  rfl

theorem EptTrees.address_newTable (ht : EptTrees m lbl) (hf : m.heap.Fits 4096 ⟨.pages, a, 4096⟩) :
    (m.abi.address ((m.newTable table k a).tables table k)).toNat = a :=
  address_frameNumber (by rw [tables_newTable]; rfl) hf.2.1 (ht.tables.addr_lt hf)

/-- **One level of the descent.** Either the next table is found or linked in, or a request was
refused. -/
theorem eptNext_spec (ht : EptTrees m lbl) (hl : lbl table = some (r, p)) (hp : p.length + 1 < 4)
    (hk : k.val < m.abi.slots) (hm : ∀ e, e.bigPagesize = false → missing e = !e.present) :
    Prog.wp (eptNext missing eptAllocTable table k) (fun c m' =>
      (∃ lbl', Descends 1 m m' lbl lbl' ∧ lbl' c = some (r, p ++ [k]) ∧
        m'.walk table [k] = some c) ∨
      (¬ m.Serves 1 ∧ m.heap.refused < m'.heap.refused)) m := by
  have hne : lbl table ≠ none := by rw [hl]; exact Option.some_ne_none _
  have hmap := ht.tables.hasEntry hne hk
  have hmiss := hm _ (ht.tree.plain table r p k hl hp)
  have hwalk : ∀ m₁ : PhysMem, (m₁.tables table k).present = true →
      m₁.walk table [k] =
        some (m₁.abi.address (m₁.tables table k)).toNat := fun m₁ h => if_pos h
  by_cases hpres : (m.tables table k).present
  · simp only [eptNext, readEntry, wp_entryAddress, Prog.wp_bind, Prog.wp_get, Prog.wp_require,
      Prog.wp_pure, hmiss, hpres, Bool.not_true, Bool.false_eq_true, if_false]
    refine ⟨hmap, hmap, .inl ⟨lbl, ⟨ht, Grows.refl m lbl, fun _ _ _ _ _ => rfl, rfl,
      fun n hn => hn.of_succ⟩, ?_, hwalk m hpres⟩⟩
    exact ht.tree.typed table r p k hl hp hpres
  · have habs : (m.tables table k).present = false := by simpa using hpres
    simp only [eptNext, readEntry, wp_entryAddress, Prog.wp_bind, Prog.wp_get, Prog.wp_require,
      Prog.wp_pure, hmiss, habs, Bool.not_false, if_true]
    refine ⟨hmap, Prog.wp_mono (eptAllocTable_spec hmap) fun _ m' hm' => ?_⟩
    rcases hm' with ⟨a, ha, hf, rfl⟩ | ⟨hn, rfl⟩
    · have ht' := ht.newTable (k := k) hl hp hf
      have hgr := ht.grows_newTable (k := k) hl hf habs
      refine ⟨hmap.newPages a 4096, .inl ⟨_, ⟨ht', hgr, fun s is j hs hd => ht.look_newTable hl hp hf habs j hs hd, rfl,
          fun n hn => ?_⟩, ?_, hwalk _ (present_newTable m table k a)⟩⟩
      · obtain ⟨b, hb, -, hs⟩ := hn
        rw [ha] at hb
        cases hb
        exact hs
      · refine (congrArg _ (ht.address_newTable hf)).trans ?_
        exact Radix.adopt_self a r _
    · exact ⟨hmap, .inr ⟨hn, Nat.lt_succ_self _⟩⟩

/-- Refusals are never taken back. -/
theorem eptNext_refused_le (table : ℕ) (m : PhysMem) :
    Prog.wlp (eptNext missing eptAllocTable table k)
      (fun _ m' => m.heap.refused ≤ m'.heap.refused) m := by
  simp only [eptNext, readEntry, Prog.wlp_bind, Prog.wlp_get, Prog.wlp_require, Prog.wlp_pure]
  intro _
  refine Prog.wlp_ite (fun _ => ?_) fun _ => ?_
  · simp only [eptAllocTable, Prog.wlp_bind]
    refine Prog.wlp_mono (eptAllocPages_spec 1 m).wlp fun o m' ho => ?_
    cases o with
    | none =>
      obtain ⟨-, rfl⟩ := ho
      simp only [wlp_entryAddress, Prog.wlp_get, Prog.wlp_require, Prog.wlp_pure]
      exact fun _ => Nat.le_succ _
    | some a =>
      obtain ⟨-, -, rfl⟩ := ho
      simp only [readEntry, writeEntry, wlp_entryAddress, Prog.wlp_bind, Prog.wlp_get,
        Prog.wlp_require, Prog.wlp_set, Prog.wlp_pure]
      exact fun _ _ _ => le_refl _
  · simp only [wlp_entryAddress, Prog.wlp_bind, Prog.wlp_get, Prog.wlp_require, Prog.wlp_pure]
    exact fun _ => le_refl _

end Next

/-! ## A whole call -/

theorem eptDescend_eq (pml4 : ℕ) (gpa : UInt64) : eptDescend pml4 gpa = (do
    let pdpt ← eptNext (fun e => !e.present) eptAllocTable pml4 (eptPml4Index gpa)
    let pd ← eptNext (fun e => !e.present) eptAllocTable pdpt (eptPdpIndex gpa)
    eptNext (fun e => !e.present && !e.bigPagesize) eptAllocTable pd (eptPdIndex gpa)) := rfl

theorem eptDescend_refused_le (pml4 : ℕ) (gpa : UInt64) (m : PhysMem) :
    Prog.wlp (eptDescend pml4 gpa) (fun _ m' => m.heap.refused ≤ m'.heap.refused) m := by
  rw [eptDescend_eq, Prog.wlp_bind]
  refine Prog.wlp_mono (eptNext_refused_le pml4 m) fun pdpt m₁ h₁ => ?_
  rw [Prog.wlp_bind]
  refine Prog.wlp_mono (eptNext_refused_le pdpt m₁) fun pd m₂ h₂ => ?_
  exact Prog.wlp_mono (eptNext_refused_le pd m₂) fun _ m₃ h₃ => (h₁.trans h₂).trans h₃

theorem eptDescend_cases (ht : EptTrees m lbl) {root : ℕ} (hr : lbl root = some (root, []))
    {gpa : UInt64} (hreach : ∀ k ∈ eptPath gpa, k.val < m.abi.slots) :
    (∃ pt m' lbl', (eptDescend root gpa).run m = some (pt, m') ∧ Descends 3 m m' lbl lbl' ∧
      m'.walk root (eptPath gpa) = some pt) ∨
    (¬ m.Serves 3 ∧
      Prog.wlp (eptDescend root gpa) (fun _ m' => m.heap.refused < m'.heap.refused) m) := by
  have hmiss : ∀ e : EptEntry, e.bigPagesize = false → (!e.present) = !e.present := fun _ _ => rfl
  have hmiss' : ∀ e : EptEntry, e.bigPagesize = false →
      (!e.present && !e.bigPagesize) = !e.present := fun e he => by simp [he]
  obtain ⟨hk₁, hk₂, hk₃⟩ : (eptPml4Index gpa).val < m.abi.slots ∧
      (eptPdpIndex gpa).val < m.abi.slots ∧ (eptPdIndex gpa).val < m.abi.slots := by
    simpa only [eptPath, List.forall_mem_cons, List.not_mem_nil, false_implies, implies_true,
      and_true] using hreach
  obtain ⟨pdpt, m₁, hrun₁, h₁⟩ := eptNext_spec ht hr (by simp) hk₁ hmiss
  rcases h₁ with ⟨lbl₁, hd₁, hl₁, hw₁⟩ | ⟨hn, hlt⟩
  swap
  · refine .inr ⟨fun hs => hn hs.of_succ.of_succ, ?_⟩
    rw [eptDescend_eq, Prog.wlp_bind]
    refine fun c m' hc => Prog.wlp_mono (Q := fun _ m'' => m'.heap.refused ≤ m''.heap.refused) ?_
      fun _ m'' hle => ?_
    · rw [Prog.wlp_bind]
      exact Prog.wlp_mono (eptNext_refused_le c m') fun pd m₂ h₂ =>
        Prog.wlp_mono (eptNext_refused_le pd m₂) fun _ _ h₃ => h₂.trans h₃
    · rw [hrun₁] at hc
      cases hc
      exact hlt.trans_le hle
  rw [← hd₁.grows.abi] at hk₂ hk₃
  obtain ⟨pd, m₂, hrun₂, h₂⟩ := eptNext_spec hd₁.trees hl₁ (by simp) hk₂ hmiss
  rcases h₂ with ⟨lbl₂, hd₂, hl₂, hw₂⟩ | ⟨hn, hlt⟩
  swap
  · refine .inr ⟨fun hs => hn (hd₁.serves 1 hs.of_succ), ?_⟩
    rw [eptDescend_eq, Prog.wlp_bind]
    intro c m' hc
    rw [hrun₁] at hc
    cases hc
    rw [Prog.wlp_bind]
    intro c' m'' hc'
    rw [hrun₂] at hc'
    cases hc'
    refine Prog.wlp_mono (eptNext_refused_le pd m₂) fun _ m₃ h₃ => ?_
    exact (hd₁.refused ▸ hlt).trans_le h₃
  rw [← hd₂.grows.abi] at hk₃
  obtain ⟨pt, m₃, hrun₃, h₃⟩ := eptNext_spec hd₂.trees hl₂ (by simp) hk₃ hmiss'
  have hrun : (eptDescend root gpa).run m = some (pt, m₃) := by
    rw [eptDescend_eq, Prog.run_bind hrun₁, Prog.run_bind hrun₂]
    exact hrun₃
  have hd := hd₁.trans hd₂
  rcases h₃ with ⟨lbl₃, hd₃, hl₃, hw₃⟩ | ⟨hn, hlt⟩
  · refine .inl ⟨pt, m₃, lbl₃, hrun, hd.trans hd₃, ?_⟩
    have hw₂' := hd₃.grows.walk pdpt root _ _ pd (hd₂.grows.keep pdpt _ hl₁) (by simp) hw₂
    have hw₁' := (hd₂.grows.trans hd₃.grows).walk root root _ _ pdpt
      (hd₁.grows.keep root _ hr) (by simp) hw₁
    rw [show eptPath gpa = [eptPml4Index gpa] ++ ([eptPdpIndex gpa] ++ [eptPdIndex gpa]) from rfl,
      PhysMem.walk_append, hw₁', Option.bind_some, PhysMem.walk_append, hw₂', Option.bind_some]
    exact hw₃
  · refine .inr ⟨fun hs => hn (hd.serves 1 hs), fun c m' hc => ?_⟩
    rw [hrun] at hc
    cases hc
    exact hd.refused ▸ hlt

/-- What a call of `ept_map` that was refused nothing does. -/
structure Maps (root : ℕ) (gpa : UInt64) (pte : EptEntry) (m m' : PhysMem) (lbl lbl' : Labels) :
    Prop where
  trees : EptTrees m' lbl'
  grows : Grows m m' lbl lbl'
  look : pte.present → ∀ s is j, lbl s = some (s, []) → is.length = 3 → m'.look s is j =
    if s = root ∧ is = eptPath gpa ∧ j = eptPtIndex gpa then some pte else m.look s is j
  refused : m'.heap.refused = m.heap.refused
  serves : ∀ n, m.Serves (n + 3) → m'.Serves n

theorem EptTrees.write (ht : EptTrees m lbl) {root pt : ℕ} (hr : lbl root = some (root, []))
    {gpa : UInt64} (hw : m.walk root (eptPath gpa) = some pt)
    (hj : (eptPtIndex gpa).val < m.abi.slots) (pte : EptEntry) {m' : PhysMem}
    (hm' : m' = { m with tables := Radix.store m.tables pt (eptPtIndex gpa) pte }) :
    Maps root gpa pte m m' lbl lbl ∧
      Prog.wp (writeEntry pt (eptPtIndex gpa) pte) (fun _ m'' => m'' = m') m := by
  have hlast : lbl pt = some (root, eptPath gpa) := ht.tree.walk_label hr (by simp) hw
  subst hm'
  refine ⟨⟨⟨ht.tree.store _ _ hlast rfl, ht.live, ht.aligned, ht.sound, ht.limit⟩,
    ⟨fun _ _ h => h, fun _ h h' => absurd h h', fun _ h => h, fun a r p is t ha hp hw' => ?_, rfl⟩,
    fun hpres s is j hs hd => ?_, rfl, fun n hn => hn.of_succ.of_succ.of_succ⟩, ?_⟩
  · exact (Radix.walk_store ht.tree _ _ hlast rfl ha hp).trans hw'
  · exact Radix.look_store ht.tree hr rfl hw hpres hs (by rw [hd])
  · simp only [writeEntry, Prog.wp_bind, Prog.wp_get, Prog.wp_require, Prog.wp_set, and_true]
    exact ht.tables.hasEntry (by rw [hlast]; exact Option.some_ne_none _) hj

/-- **A call of `ept_map`.** It returns with the entry stored at the key of the address and no
other key touched, or a request was refused. -/
theorem eptMap_cases (ht : EptTrees m lbl) {root : ℕ} (hr : lbl root = some (root, []))
    {gpa : UInt64} (hreach : m.abi.Reaches gpa) (pte : EptEntry) :
    (∃ m' lbl', (eptMap (some root) gpa pte).run m = some (.ok, m') ∧
      Maps root gpa pte m m' lbl lbl') ∨
    (¬ m.Serves 3 ∧ Prog.wlp (eptMap (some root) gpa pte)
      (fun _ m' => m.heap.refused < m'.heap.refused) m) := by
  rcases eptDescend_cases ht hr hreach.1 with ⟨pt, m₁, lbl', hrun, hd, hw⟩ | ⟨hn, hlt⟩
  · have hr' := hd.grows.keep root _ hr
    have hj : (eptPtIndex gpa).val < m₁.abi.slots := by
      rw [hd.grows.abi]
      exact hreach.2
    obtain ⟨hmaps, u, m', hwrite, rfl⟩ := hd.trees.write hr' hw hj pte rfl
    refine .inl ⟨_, lbl', ?_, hmaps.trees, hd.grows.trans hmaps.grows, fun hp s is j hs hl => ?_,
      hmaps.refused.trans hd.refused, fun n hn => hd.serves n hn⟩
    · rw [eptMap, Prog.run_bind hrun, Prog.run_bind hwrite]
      rfl
    · rw [hmaps.look hp s is j (hd.grows.keep s _ hs) hl, hd.look s is j hs hl]
  · refine .inr ⟨hn, ?_⟩
    rw [eptMap, Prog.wlp_bind]
    refine Prog.wlp_mono hlt fun pt m' hm' => ?_
    simp only [writeEntry, Prog.wlp_bind, Prog.wlp_get, Prog.wlp_require, Prog.wlp_set,
      Prog.wlp_pure]
    exact fun _ => hm'

theorem eptMap_refused_le (root : Option Addr) (gpa : UInt64) (pte : EptEntry) (m : PhysMem) :
    Prog.wlp (eptMap root gpa pte) (fun _ m' => m.heap.refused ≤ m'.heap.refused) m := by
  cases root with
  | none => exact (Prog.wlp_pure _).mpr (le_refl _)
  | some pml4 =>
    rw [eptMap, Prog.wlp_bind]
    refine Prog.wlp_mono (eptDescend_refused_le pml4 gpa m) fun pt m' hm' => ?_
    simp only [writeEntry, Prog.wlp_bind, Prog.wlp_get, Prog.wlp_require, Prog.wlp_set,
      Prog.wlp_pure]
    exact fun _ => hm'

/-! ## Lookups -/

/-- The answer of a lookup that found an entry, or none. -/
def lookupResult : Option EptEntry → Except Result EptEntry
  | some e => .ok e
  | none => .error .errNotFound

/-- **A lookup reads the tree at the key of the address.** -/
theorem eptLookup_run (ht : EptTrees m lbl) {root : ℕ} (hr : lbl root = some (root, []))
    {gpa : UInt64} (hreach : m.abi.Reaches gpa) : (eptLookup (some root) gpa).run m =
      some (lookupResult (m.look root (eptPath gpa) (eptPtIndex gpa)), m) := by
  have hpre : ∀ e, (eptFormat m.abi).present e = e.present := fun _ => rfl
  have htgt : ∀ e, (eptFormat m.abi).target e = (m.abi.address e).toNat := fun _ => rfl
  have hread : ∀ {a r p} {i : Fin 512} {Q : EptEntry → PhysMem → Prop}, lbl a = some (r, p) →
      i.val < m.abi.slots → Q (m.tables a i) m → Prog.wp (readEntry a i) Q m := fun ha hi hq => by
    simp only [readEntry, Prog.wp_bind, Prog.wp_get, Prog.wp_require, Prog.wp_pure]
    exact ⟨ht.tables.hasEntry (by rw [ha]; exact Option.some_ne_none _) hi, hq⟩
  obtain ⟨hk₁, hk₂, hk₃, hj⟩ := (m.abi.reaches_iff gpa).mp hreach
  suffices h : Prog.wp (eptLookup (some root) gpa) (fun o m' =>
      o = lookupResult (m.look root (eptPath gpa) (eptPtIndex gpa)) ∧ m' = m) m by
    obtain ⟨o, m', hrun, rfl, rfl⟩ := h
    exact hrun
  rw [PhysMem.look, eptPath, Radix.look_cons, Radix.look_cons, Radix.look_cons, Radix.look_nil]
  simp only [hpre, htgt]
  rw [eptLookup, Prog.wp_bind]
  refine hread hr hk₁ ?_
  by_cases h₁ : (m.tables root (eptPml4Index gpa)).present
  swap
  · simp [h₁, lookupResult]
  have hl₁ := ht.tree.typed root root [] _ hr (by simp) h₁
  simp only [h₁, Bool.not_true, Bool.false_eq_true, if_false, if_true]
  rw [Prog.wp_bind, wp_entryAddress, Prog.wp_bind]
  refine hread hl₁ hk₂ ?_
  by_cases h₂ : (m.tables (m.abi.address (m.tables root (eptPml4Index gpa))).toNat
      (eptPdpIndex gpa)).present
  swap
  · simp [h₂, lookupResult]
  have hl₂ := ht.tree.typed _ root _ _ hl₁ (by simp) h₂
  simp only [h₂, Bool.not_true, Bool.false_eq_true, if_false, if_true]
  rw [Prog.wp_bind, wp_entryAddress, Prog.wp_bind]
  refine hread hl₂ hk₃ ?_
  by_cases h₃ : (m.tables ((eptFormat m.abi).target (m.tables ((eptFormat m.abi).target
      (m.tables root (eptPml4Index gpa))) (eptPdpIndex gpa))) (eptPdIndex gpa)).present
  swap
  · simp only [htgt] at h₃
    simp [h₃, lookupResult]
  have hl₃ := ht.tree.typed _ root _ _ hl₂ (by simp) h₃
  have hbig := ht.tree.plain _ root _ (eptPdIndex gpa) hl₂ (by simp)
  simp only [htgt] at h₃ hl₃ hbig ⊢
  simp only [h₃, Bool.not_true, Bool.false_eq_true, if_false, if_true]
  rw [show (m.tables _ (eptPdIndex gpa)).bigPagesize = false from hbig]
  simp only [Bool.false_eq_true, if_false]
  rw [Prog.wp_bind, wp_entryAddress, Prog.wp_bind]
  refine hread hl₃ hj ?_
  split_ifs <;> simp_all [lookupResult]

/-- **A translation reads the tree at the key of the address.** -/
theorem eptTranslate_run (ht : EptTrees m lbl) {root : ℕ} (hr : lbl root = some (root, []))
    {gpa : UInt64} (hreach : m.abi.Reaches gpa) : (eptTranslate (some root) gpa).run m =
      some (match m.look root (eptPath gpa) (eptPtIndex gpa) with
        | some e => .ok (m.abi.address e ||| (gpa &&& 0xFFF))
        | none => .error .errNotFound, m) := by
  rw [eptTranslate, Prog.run_bind (eptLookup_run ht hr hreach)]
  cases h : m.look root (eptPath gpa) (eptPtIndex gpa) with
  | none => rfl
  | some e =>
    have hp : e.present = true := Radix.present_of_look h
    simp only [lookupResult, hp, Bool.not_true, Bool.false_eq_true, if_false]
    rfl

end NexusVM
