import NexusVM.Mapping

/-!
# Page tables that the program has built

`ept_map` goes on when the request for a table is refused. The entry that should lead to the table is then
empty, and the walk continues at address 0.

* `TidyTrees`: trees whose absent interior entries are empty;
* `EptBuilt`: the memories that the page-table functions lead to, and `EptBuilt.tidy`;
* `PhysMem.missing`: the number of tables that the path of an address lacks;
* `eptMap_exact`: a call maps the page if the requests for these tables are served and its entries lie in
  their tables, and runs into address 0 or out of a table otherwise;
* **`ept_map_exhaustion_iff`**: what a call does when there is no memory for tables.
-/

namespace NexusVM

open Prog

variable {m m' m'' : PhysMem} {lbl lbl' : Labels} {r root table a : ℕ} {p : List (Fin 512)} {k : Fin 512}

theorem TablesLive.unlabelled (ht : TablesLive m lbl) {b : Block BlockKind} {align : ℕ}
    (hf : m.heap.Fits align b) : lbl b.base = none := by
  by_contra hne
  exact (hf.2.2.2 _ (ht.live b.base hne)).1 rfl

/-! ## Tidy trees -/

/-- Trees of tables whose absent interior entries are empty, in a memory without a block at `NULL`. -/
structure TidyTrees (m : PhysMem) (lbl : Labels) : Prop where
  trees : EptTrees m lbl
  blank : ∀ t r p k, lbl t = some (r, p) → p.length + 1 < 4 → (m.tables t k).present = false →
    m.tables t k = {}
  noNull : ∀ b ∈ m.heap.live, b.base ≠ 0

theorem TidyTrees.not_mapped (ht : TidyTrees m lbl) : ¬ m.Mapped 0 := by
  rintro ⟨b, hb, -, hbase, -⟩
  exact ht.noNull b hb (Nat.le_zero.mp hbase)

/-- Tables and live blocks are as before, up to blocks that were given back or added. -/
theorem TidyTrees.congr (ht : TidyTrees m lbl) (ht' : EptTrees m' lbl)
    (htables : ∀ t, lbl t ≠ none → m'.tables t = m.tables t)
    (hlive : ∀ b ∈ m'.heap.live, b ∈ m.heap.live ∨ b.base ≠ 0) : TidyTrees m' lbl := by
  refine ⟨ht', fun t r p k hl hp habs => ?_, fun b hb => ?_⟩
  · rw [htables t (by simp [hl])] at habs ⊢
    exact ht.blank t r p k hl hp habs
  · rcases hlive b hb with hold | hne
    · exact ht.noNull b hold
    · exact hne

theorem TidyTrees.newPages (ht : TidyTrees m lbl) {size : ℕ} (hf : m.heap.Fits 4096 ⟨.pages, a, size⟩) :
    TidyTrees (m.newPages a size) lbl := by
  refine ht.congr (ht.trees.newPages hf) (fun t hl => m.zero_tables_of_not (ht.trees.lt hl hf)) ?_
  rintro b (_ | hb)
  · exact .inr hf.1
  · exact .inl ‹_›

theorem EptTrees.newTable_empty (ht : EptTrees m lbl) (hl : lbl table = some (r, p))
    (hf : m.heap.Fits 4096 (tablePage a)) : (m.newTable table k a).tables a = fun _ => {} := by
  have hne : a ≠ table := by
    rintro rfl
    rw [ht.fresh hf] at hl
    cases hl
  have hzero : (m.newPages a 4096).tables a = fun _ => {} := m.zero_tables_of_lt (le_refl a) (by omega)
  exact (Radix.store_of_table_ne hne _ _).trans hzero

theorem TidyTrees.newTable (ht : TidyTrees m lbl) (hl : lbl table = some (r, p)) (hp : p.length + 1 < 4)
    (hf : m.heap.Fits 4096 (tablePage a)) :
    TidyTrees (m.newTable table k a) (Radix.adopt lbl a r (p ++ [k])) := by
  refine ⟨ht.trees.newTable hl hp hf, fun t r' p' j hl' hp' habs => ?_, fun b hb => ?_⟩
  · have hstore : (m.newTable table k a).tables = Radix.store (m.newPages a 4096).tables table k
        (tableEntry ((m.newPages a 4096).tables table k) a) := rfl
    by_cases hat : t = a
    · rw [hat, ht.trees.newTable_empty hl hf]
    · rw [Radix.adopt, Function.update_of_ne hat] at hl'
      have hold := (ht.newPages hf).blank t r' p' j hl' hp'
      rw [hstore] at habs ⊢
      by_cases htt : t = table
      · subst htt
        by_cases hjk : j = k
        · subst hjk
          rw [Radix.store_same] at habs
          cases habs
        · rw [Radix.store_of_index_ne t hjk] at habs ⊢
          exact hold habs
      · rw [Radix.store_of_table_ne htt] at habs ⊢
        exact hold habs
  · rcases List.mem_cons.mp hb with rfl | hb
    · exact hf.1
    · exact ht.noNull b hb

theorem TidyTrees.newRoot (ht : TidyTrees m lbl) (hf : m.heap.Fits 4096 (tablePage a)) :
    TidyTrees (m.newRoot a) (Function.update lbl a (some (a, []))) := by
  refine ⟨ht.trees.newRoot hf, fun t r p k hl hp habs => ?_, (ht.newPages hf).noNull⟩
  by_cases hta : t = a
  · exact congrFun ((m.newPages a 4096).zero_tables_of_lt (by omega) (by omega)) k
  · rw [Function.update_of_ne hta] at hl
    have hsame : (m.newRoot a).tables t = (m.newPages a 4096).tables t :=
      (m.newPages a 4096).zero_tables_of_not (ht.trees.lt (by simp [hl]) hf)
    rw [hsame] at habs ⊢
    exact (ht.newPages hf).blank t r p k hl hp habs

theorem TidyTrees.refuse (ht : TidyTrees m lbl) : TidyTrees { m with heap := m.heap.refuse } lbl :=
  ⟨⟨ht.trees.tree, ht.trees.live, ht.trees.aligned, ht.trees.sound, ht.trees.limit⟩, ht.blank, ht.noNull⟩

theorem TidyTrees.write (ht : TidyTrees m lbl) (hl : lbl table = some (r, p)) (hp : p.length = 3)
    (e : EptEntry) : TidyTrees { m with tables := Radix.store m.tables table k e } lbl := by
  refine ⟨⟨ht.trees.tree.store _ _ hl (by rw [hp]), ht.trees.live, ht.trees.aligned, ht.trees.sound,
    ht.trees.limit⟩, fun t r' p' j hl' hp' habs => ?_, ht.noNull⟩
  have htt : t ≠ table := by
    rintro rfl
    rw [hl] at hl'
    cases hl'
    omega
  simp only [Radix.store_of_table_ne htt] at habs ⊢
  exact ht.blank t r' p' j hl' hp' habs

/-! ## Missing tables -/

/-- The number of tables that a path lacks from a table on. -/
def PhysMem.missing (m : PhysMem) (table : ℕ) : List (Fin 512) → ℕ
  | [] => 0
  | i :: is => if (m.tables table i).present then m.missing (m.abi.address (m.tables table i)).toNat is
    else is.length + 1

/-- The tables that a path lacks depend on the trees only. -/
theorem missing_empty (hzero : m.tables table = fun _ => {}) (is : List (Fin 512)) :
    m.missing table is = is.length := by
  cases is with
  | nil => rfl
  | cons i is => simp [PhysMem.missing, hzero]

instance (m : PhysMem) (n : ℕ) : Decidable (m.Serves n) :=
  inferInstanceAs (Decidable (m.heap.Serves .pages 4096 4096 n))

theorem serves_grant (ha : m.heap.answer m.heap.asked = some a) (hf : m.heap.Fits 4096 (tablePage a))
    (hm : m'.heap = m.heap.grant (tablePage a)) (n : ℕ) : m.Serves (n + 1) ↔ m'.Serves n := by
  unfold PhysMem.Serves
  rw [hm]
  constructor
  · rintro ⟨b, hb, -, hs⟩
    rw [ha] at hb
    cases hb
    exact hs
  · exact fun hs => ⟨a, ha, hf, hs⟩

theorem eptNext_outside {missing : EptEntry → Bool} {allocTable : Addr → Fin 512 → MemM Result}
    (hk : ¬ k.val < m.abi.slots) : (eptNext missing allocTable table k).run m = none := by
  rw [run_eq_none_iff]
  simp only [eptNext, readEntry, wlp_bind, wlp_get, wlp_require]
  exact fun h => absurd h.2 hk

/-- **One level of the descent, exactly.** The next table is found, or it is linked in where the request for
it is served; where it is not, the walk goes on at address 0. -/
theorem eptNext_exact {missing : EptEntry → Bool} (ht : TidyTrees m lbl) (hl : lbl table = some (r, p))
    (hp : p.length + 1 < 4) (hk : k.val < m.abi.slots)
    (hm : ∀ e, e.bigPagesize = false → missing e = !e.present) :
    wp (eptNext missing eptAllocTable table k) (fun c m' =>
      (∃ lbl', TidyTrees m' lbl' ∧ Descends 1 m m' lbl lbl' ∧ lbl' c = some (r, p ++ [k]) ∧
        m'.walk table [k] = some c ∧
        ∀ is, m.Serves (m.missing table (k :: is)) ↔ m'.Serves (m'.missing c is)) ∨
      (c = 0 ∧ TidyTrees m' lbl ∧ ∀ is, ¬ m.Serves (m.missing table (k :: is)))) m := by
  have hmap := ht.trees.tables.hasEntry (a := table) (by simp [hl]) hk
  have hmiss := hm _ (ht.trees.tree.plain table r p k hl hp)
  by_cases hpres : (m.tables table k).present
  · -- the entry is followed as it stands
    have hwalk : m.walk table [k] = some (m.abi.address (m.tables table k)).toNat := if_pos hpres
    simp only [eptNext, wp_readEntry, wp_entryAddress, wp_bind, wp_pure, hmiss, hpres, Bool.not_true,
      Bool.false_eq_true, if_false]
    refine ⟨hmap, hmap, .inl ⟨lbl, ht, ⟨ht.trees, Grows.refl m lbl, fun _ _ _ _ _ => rfl, rfl,
      fun n hn => hn.of_succ⟩, ht.trees.tree.typed table r p k hl hp hpres, hwalk, fun is => ?_⟩⟩
    rw [PhysMem.missing, if_pos hpres]
  · have habs : (m.tables table k).present = false := by simpa using hpres
    have hlacks : ∀ is, m.missing table (k :: is) = is.length + 1 := fun is => if_neg hpres
    simp only [eptNext, wp_readEntry, wp_entryAddress, wp_bind, wp_pure, hmiss, habs, Bool.not_false, if_true]
    refine ⟨hmap, wp_mono (eptAllocTable_spec hmap) fun _ m' hm' => ?_⟩
    rcases hm' with ⟨a, ha, hf, rfl⟩ | ⟨hn, rfl⟩
    · have ht' := ht.newTable (k := k) hl hp hf
      have hgr := ht.trees.grows_newTable (k := k) hl hf habs
      have hserves : ∀ n, m.Serves (n + 1) ↔ (m.newTable table k a).Serves n := serves_grant ha hf rfl
      have haddr : (m.abi.address ((m.newTable table k a).tables table k)).toNat = a := ht.trees.address_newTable hf
      refine ⟨hmap.newPages a 4096, .inl ⟨_, ht', ⟨ht'.trees, hgr,
        fun s is j hs hd => ht.trees.look_newTable hl hp hf habs j hs hd, rfl, fun n => (hserves n).mp⟩,
        ?_, if_pos (present_newTable m table k a), fun is => ?_⟩⟩
      · exact (congrArg _ haddr).trans (Radix.adopt_self a r _)
      · rw [hlacks, show (m.newTable table k a).abi = m.abi from rfl, haddr,
          missing_empty (ht.trees.newTable_empty hl hf)]
        exact hserves _
    · refine ⟨hmap, .inr ⟨?_, ht.refuse, fun is hs => ?_⟩⟩
      · rw [ht.blank table r p k hl hp habs, ← UInt64.toNat_zero, UInt64.toNat_inj]
        exact UInt64.toNat_inj.mp ((m.abi.address_toNat _).trans (by simp))
      · rw [hlacks] at hs
        obtain ⟨a, ha, hf, -⟩ := hs
        exact hn ⟨a, ha, hf, trivial⟩

/-! ## A whole call -/

theorem eptNext_null {missing : EptEntry → Bool} {allocTable : Addr → Fin 512 → MemM Result}
    (hn : ¬ m.Mapped 0) : (eptNext missing allocTable 0 k).run m = none := by
  rw [run_eq_none_iff]
  simp only [eptNext, readEntry, wlp_bind, wlp_get, wlp_require]
  exact fun h => absurd h.1 hn

theorem writeEntry_null (hn : ¬ m.Mapped 0) (e : EptEntry) : (writeEntry 0 k e).run m = none := by
  rw [run_eq_none_iff]
  simp only [writeEntry, wlp_bind, wlp_get, wlp_require]
  exact fun h => absurd h.1 hn

theorem writeEntry_outside (hk : ¬ k.val < m.abi.slots) (e : EptEntry) :
    (writeEntry table k e).run m = none := by
  rw [run_eq_none_iff]
  simp only [writeEntry, wlp_bind, wlp_get, wlp_require]
  exact fun h => absurd h.2 hk

theorem eptMap_eq (root : ℕ) (gpa : UInt64) (pte : EptEntry) : eptMap (some root) gpa pte = (do
    let pdpt ← eptNext (fun e => !e.present) eptAllocTable root (eptPml4Index gpa)
    let pd ← eptNext (fun e => !e.present) eptAllocTable pdpt (eptPdpIndex gpa)
    let pt ← eptNext (fun e => !e.present && !e.bigPagesize) eptAllocTable pd (eptPdIndex gpa)
    writeEntry pt (eptPtIndex gpa) pte
    return .ok) := by
  simp only [eptMap, eptDescend_eq, bind_assoc]

/-- **A call of `ept_map`, exactly.** It enters the page where the requests for the tables that the path
lacks are served and its entries lie in their tables. Where a request is refused, the walk ends at `NULL`. -/
theorem eptMap_exact (ht : TidyTrees m lbl) (hr : lbl root = some (root, [])) (gpa : UInt64)
    (pte : EptEntry) :
    ((m.Serves (m.missing root (eptPath gpa)) ∧ m.abi.Reaches gpa) ∧
      ∃ m' lbl', (eptMap (some root) gpa pte).run m = some (.ok, m') ∧
        Maps root gpa pte m m' lbl lbl' ∧ TidyTrees m' lbl') ∨
    (¬ (m.Serves (m.missing root (eptPath gpa)) ∧ m.abi.Reaches gpa) ∧
      (eptMap (some root) gpa pte).run m = none) := by
  have hmiss : ∀ e : EptEntry, e.bigPagesize = false → (!e.present) = !e.present := fun _ _ => rfl
  have hmiss' : ∀ e : EptEntry, e.bigPagesize = false →
      (!e.present && !e.bigPagesize) = !e.present := fun e he => by simp [he]
  rw [eptMap_eq, eptPath, m.abi.reaches_iff]
  by_cases hk₁ : (eptPml4Index gpa).val < m.abi.slots
  swap
  · exact .inr ⟨fun h => hk₁ h.2.1, run_bind_none (eptNext_outside hk₁)⟩
  obtain ⟨pdpt, m₁, hrun₁, h₁⟩ := eptNext_exact ht hr (by simp) hk₁ hmiss
  rw [run_bind hrun₁]
  rcases h₁ with ⟨lbl₁, ht₁, hd₁, hl₁, hw₁, hs₁⟩ | ⟨rfl, ht₁, hn⟩
  swap
  · exact .inr ⟨fun h => hn _ h.1, run_bind_none (eptNext_null ht₁.not_mapped)⟩
  rw [← hd₁.grows.abi]
  by_cases hk₂ : (eptPdpIndex gpa).val < m₁.abi.slots
  swap
  · exact .inr ⟨fun h => hk₂ h.2.2.1, run_bind_none (eptNext_outside hk₂)⟩
  obtain ⟨pd, m₂, hrun₂, h₂⟩ := eptNext_exact ht₁ hl₁ (by simp) hk₂ hmiss
  rw [run_bind hrun₂, hs₁]
  rcases h₂ with ⟨lbl₂, ht₂, hd₂, hl₂, hw₂, hs₂⟩ | ⟨rfl, ht₂, hn⟩
  swap
  · exact .inr ⟨fun h => hn _ h.1, run_bind_none (eptNext_null ht₂.not_mapped)⟩
  rw [← hd₂.grows.abi]
  by_cases hk₃ : (eptPdIndex gpa).val < m₂.abi.slots
  swap
  · exact .inr ⟨fun h => hk₃ h.2.2.2.1, run_bind_none (eptNext_outside hk₃)⟩
  obtain ⟨pt, m₃, hrun₃, h₃⟩ := eptNext_exact ht₂ hl₂ (by simp) hk₃ hmiss'
  rw [run_bind hrun₃, hs₂]
  rcases h₃ with ⟨lbl₃, ht₃, hd₃, hl₃, hw₃, hs₃⟩ | ⟨rfl, ht₃, hn⟩
  swap
  · exact .inr ⟨fun h => hn _ h.1, run_bind_none (writeEntry_null ht₃.not_mapped pte)⟩
  rw [← hd₃.grows.abi]
  by_cases hj : (eptPtIndex gpa).val < m₃.abi.slots
  swap
  · exact .inr ⟨fun h => hj h.2.2.2.2, run_bind_none (writeEntry_outside hj pte)⟩
  have hd := (hd₁.trans hd₂).trans hd₃
  have hr' := hd.grows.keep root _ hr
  have hw : m₃.walk root (eptPath gpa) = some pt := by
    have hw₂' := hd₃.grows.walk pdpt root _ _ pd (hd₂.grows.keep pdpt _ hl₁) (by simp) hw₂
    have hw₁' := (hd₂.grows.trans hd₃.grows).walk root root _ _ pdpt
      (hd₁.grows.keep root _ hr) (by simp) hw₁
    rw [show eptPath gpa = [eptPml4Index gpa] ++ ([eptPdpIndex gpa] ++ [eptPdIndex gpa]) from rfl,
      PhysMem.walk_append, hw₁', Option.bind_some, PhysMem.walk_append, hw₂', Option.bind_some]
    exact hw₃
  obtain ⟨hmaps, u, m', hwrite, rfl⟩ := hd.trees.write hr' hw hj pte rfl
  have hin : (eptPml4Index gpa).val < m₃.abi.slots ∧ (eptPdpIndex gpa).val < m₃.abi.slots ∧
      (eptPdIndex gpa).val < m₃.abi.slots ∧ (eptPtIndex gpa).val < m₃.abi.slots := by
    rw [hd₃.grows.abi, hd₂.grows.abi, hd₁.grows.abi] at hj ⊢
    rw [hd₂.grows.abi, hd₁.grows.abi] at hk₃
    rw [hd₁.grows.abi] at hk₂
    exact ⟨hk₁, hk₂, hk₃, hj⟩
  refine .inl ⟨⟨(hs₃ []).mpr trivial, hin⟩, _, lbl₃, ?_, ⟨hmaps.trees, hd.grows.trans hmaps.grows,
    fun hp s is j hs hl => ?_, hmaps.refused.trans hd.refused, fun n hn => hd.serves n hn⟩,
    ht₃.write (hd.trees.tree.walk_label hr' (by simp) hw) rfl pte⟩
  · rw [run_bind hwrite]
    rfl
  · rw [hmaps.look hp s is j (hd.grows.keep s _ hs) hl, hd.look s is j hs hl]

/-! ## Memories with page tables -/

/-- **Memories in which `ept_map` alone has written the page tables of `roots`.** Other memory was requested
and written meanwhile, and roots, blocks of other kinds and the `pages` that `ept_alloc_pages` handed out were
given back. -/
inductive EptBuilt : List ℕ → List ℕ → PhysMem → Prop
  | start {m : PhysMem} : m.heap.Sound → m.heap.limit ≤ m.abi.span → (∀ b ∈ m.heap.live, b.base ≠ 0) →
      EptBuilt [] [] m
  | allocRoot {roots pages : List ℕ} {r : ℕ} {m m' : PhysMem} : EptBuilt roots pages m →
      eptAllocRoot.run m = some (some r, m') → EptBuilt (r :: roots) pages m'
  | map {roots pages : List ℕ} {r : ℕ} {gpa : UInt64} {pte : EptEntry} {result : Result} {m m' : PhysMem} :
      EptBuilt roots pages m → r ∈ roots → (eptMap (some r) gpa pte).run m = some (result, m') →
      EptBuilt roots pages m'
  | request {roots pages : List ℕ} {kind : BlockKind} {align size : ℕ} {o : Option Addr} {m m' : PhysMem} :
      EptBuilt roots pages m → (alignedAlloc kind align size).run m = some (o, m') → EptBuilt roots pages m'
  | allocPages {roots pages : List ℕ} {count : UInt64} {o : Option Addr} {m m' : PhysMem} :
      EptBuilt roots pages m → (eptAllocPages count).run m = some (o, m') →
      EptBuilt roots (o.toList ++ pages) m'
  | freeRoot {roots pages : List ℕ} {r : ℕ} {m : PhysMem} : EptBuilt roots pages m → r ∈ roots →
      EptBuilt (roots.filter (· ≠ r)) pages { m with heap := m.heap.release .pages r }
  | freePages {roots pages : List ℕ} {a : ℕ} {m : PhysMem} : EptBuilt roots pages m → a ∈ pages →
      EptBuilt roots (pages.filter (· ≠ a)) { m with heap := m.heap.release .pages a }
  | free {roots pages : List ℕ} {kind : BlockKind} {a : ℕ} {m : PhysMem} : EptBuilt roots pages m →
      kind ≠ .pages → EptBuilt roots pages { m with heap := m.heap.release kind a }
  | writeRam {roots pages : List ℕ} {m : PhysMem} (ram : Addr → UInt8) : EptBuilt roots pages m →
      EptBuilt roots pages { m with ram := ram }

/-- What labels of such a memory are. -/
structure EptBuilt.Tidy (roots pages : List ℕ) (m : PhysMem) (lbl : Labels) : Prop where
  trees : TidyTrees m lbl
  roots : ∀ r ∈ roots, lbl r = some (r, [])
  pages : ∀ a ∈ pages, lbl a = none ∧ m.heap.Holds .pages a

section Tidy

variable {roots pages pages' : List ℕ} {kind : BlockKind}

theorem EptBuilt.Tidy.free (ht : EptBuilt.Tidy roots pages m lbl) (hkind : kind = .pages → lbl a = none)
    (hsub : ∀ b ∈ pages', b ∈ pages ∧ (kind = .pages → b ≠ a)) :
    EptBuilt.Tidy roots pages' { m with heap := m.heap.release kind a } lbl := by
  have hf := frees_release m kind a
  refine ⟨ht.trees.congr ⟨ht.trees.trees.tree, fun b hb => ?_, ht.trees.trees.aligned,
    hf.sound ht.trees.trees.sound, ?_⟩ (fun _ _ => rfl) fun b hb => .inl (hf.sublist.subset hb), ht.roots,
    fun b hb => ?_⟩
  · refine hf.live _ (ht.trees.trees.live b hb) fun hc => hb ?_
    simp only [tablePage, List.mem_singleton, Prod.mk.injEq, Option.some.injEq] at hc
    rw [hc.2]
    exact hkind hc.1.symm
  · exact hf.limit.trans_le ht.trees.trees.limit
  · obtain ⟨hb, hne⟩ := hsub b hb
    refine ⟨(ht.pages b hb).1, hf.holds (ht.pages b hb).2 ?_⟩
    simp only [List.mem_singleton, Prod.mk.injEq, Option.some.injEq, not_and]
    exact fun hk => hne hk.symm

theorem EptBuilt.Tidy.freeRoot (ht : EptBuilt.Tidy roots pages m lbl) (hr : r ∈ roots) :
    EptBuilt.Tidy (roots.filter (· ≠ r)) pages { m with heap := m.heap.release .pages r }
      (Function.update lbl r none) := by
  have hf := frees_release m .pages r
  have hlr := ht.roots r hr
  have hold : ∀ t x, Function.update lbl r none t = some x → t ≠ r ∧ lbl t = some x := by
    intro t x ht
    have htr : t ≠ r := by
      rintro rfl
      rw [Function.update_self] at ht
      cases ht
    rw [Function.update_of_ne htr] at ht
    exact ⟨htr, ht⟩
  refine ⟨⟨ht.trees.trees.dropRoot hf hlr ?_, fun t r' p k hl hp habs => ?_, fun b hb => ?_⟩,
    fun s hs => ?_, fun b hb => ?_⟩
  · simp
  · exact ht.trees.blank t r' p k (hold t _ hl).2 hp habs
  · exact ht.trees.noNull b (hf.sublist.subset hb)
  · rw [List.mem_filter, decide_eq_true_iff] at hs
    rw [Function.update_of_ne hs.2]
    exact ht.roots s hs.1
  · obtain ⟨hlb, hh⟩ := ht.pages b hb
    have hbr : b ≠ r := by
      rintro rfl
      rw [hlr] at hlb
      cases hlb
    rw [Function.update_of_ne hbr]
    exact ⟨hlb, hf.holds hh (by simpa using hbr)⟩

theorem EptBuilt.Tidy.newRoot (ht : EptBuilt.Tidy roots pages m lbl) (hf : m.heap.Fits 4096 (tablePage r)) :
    EptBuilt.Tidy (r :: roots) pages (m.newRoot r) (Function.update lbl r (some (r, []))) := by
  refine ⟨ht.trees.newRoot hf, fun s hs => ?_, fun b hb => ?_⟩
  · by_cases hsr : s = r
    · rw [hsr, Function.update_self]
    · have hs' : s ∈ roots := (List.mem_cons.mp hs).resolve_left hsr
      rw [Function.update_of_ne hsr]
      exact ht.roots s hs'
  · obtain ⟨hlb, hh⟩ := ht.pages b hb
    have hbr : b ≠ r := (hf.base_ne hh).symm
    rw [Function.update_of_ne hbr]
    exact ⟨hlb, hh.grant _⟩

theorem EptBuilt.Tidy.newPages (ht : EptBuilt.Tidy roots pages m lbl) {size : ℕ}
    (hf : m.heap.Fits 4096 ⟨.pages, a, size⟩) : EptBuilt.Tidy roots (a :: pages) (m.newPages a size) lbl := by
  refine ⟨ht.trees.newPages hf, ht.roots, fun b hb => ?_⟩
  rcases List.mem_cons.mp hb with rfl | hb
  · exact ⟨ht.trees.trees.tables.unlabelled hf, Heap.holds_grant_self _ _⟩
  · obtain ⟨hlb, hh⟩ := ht.pages b hb
    exact ⟨hlb, hh.grant _⟩

theorem EptBuilt.Tidy.alloc (ht : EptBuilt.Tidy roots pages m lbl) (kind : BlockKind) (align size : ℕ) :
    wp (alignedAlloc kind align size) (fun _ m' => EptBuilt.Tidy roots pages m' lbl) m := by
  have htrees := ht.trees.trees
  rw [alignedAlloc, onHeap, wp_zoom]
  refine Heap.wp_alloc (fun b hb hf => ?_) fun _ => ?_
  · refine ⟨ht.trees.congr ⟨htrees.tree, fun t hl => List.mem_cons_of_mem _ (htrees.live t hl), htrees.aligned,
      htrees.sound.grant hf, htrees.limit⟩ (fun _ _ => rfl) fun c hc => ?_, ht.roots, fun c hc => ?_⟩
    · rcases List.mem_cons.mp hc with rfl | hc
      · exact .inr hf.1
      · exact .inl hc
    · exact ⟨(ht.pages c hc).1, (ht.pages c hc).2.grant _⟩
  · exact ⟨ht.trees.refuse, ht.roots, ht.pages⟩

theorem EptBuilt.Tidy.maps (ht : EptBuilt.Tidy roots pages m lbl) {gpa : UInt64} {pte : EptEntry}
    (hm : Maps root gpa pte m m' lbl lbl') (ht' : TidyTrees m' lbl') : EptBuilt.Tidy roots pages m' lbl' := by
  refine ⟨ht', fun r hr => hm.grows.keep r _ (ht.roots r hr), fun b hb => ?_⟩
  obtain ⟨hlb, c, hc, hkind, rfl⟩ := ht.pages b hb
  refine ⟨?_, c, hm.grows.live c hc, hkind, rfl⟩
  by_contra hne
  exact hm.grows.fresh _ hlb hne c hc rfl

end Tidy

/-- **The memories that the page-table functions lead to have tidy trees.** -/
theorem EptBuilt.tidy {roots pages : List ℕ} (hb : EptBuilt roots pages m) :
    ∃ lbl, EptBuilt.Tidy roots pages m lbl := by
  induction hb with
  | start hsound hlimit hnull =>
    exact ⟨_, ⟨EptTrees.empty hsound hlimit, by simp, hnull⟩, by simp, by simp⟩
  | allocRoot _ hrun ih =>
    obtain ⟨lbl, ht⟩ := ih
    obtain ⟨hf, rfl⟩ := wp_run (eptAllocRoot_spec _) hrun
    exact ⟨_, ht.newRoot hf⟩
  | map _ hr hrun ih =>
    obtain ⟨lbl, ht⟩ := ih
    rcases eptMap_exact ht.trees (ht.roots _ hr) _ _ with ⟨-, m', lbl', hrun', hmaps, ht'⟩ | ⟨-, hnone⟩
    · rw [hrun] at hrun'
      cases hrun'
      exact ⟨lbl', ht.maps hmaps ht'⟩
    · rw [hrun] at hnone
      cases hnone
  | request _ hrun ih =>
    obtain ⟨lbl, ht⟩ := ih
    have ht' := wp_run (ht.alloc _ _ _) hrun
    exact ⟨lbl, ht'⟩
  | @allocPages _ _ _ o _ _ _ hrun ih =>
    obtain ⟨lbl, ht⟩ := ih
    have hspec := wp_run (eptAllocPages_spec _ _) hrun
    cases o with
    | none =>
      obtain ⟨-, rfl⟩ := hspec
      exact ⟨lbl, ht.trees.refuse, ht.roots, fun b hb => ht.pages b hb⟩
    | some a =>
      obtain ⟨-, hf, rfl⟩ := hspec
      exact ⟨lbl, ht.newPages hf⟩
  | freeRoot _ hr ih =>
    obtain ⟨lbl, ht⟩ := ih
    exact ⟨_, ht.freeRoot hr⟩
  | freePages _ ha ih =>
    obtain ⟨lbl, ht⟩ := ih
    refine ⟨lbl, ht.free (fun _ => (ht.pages _ ha).1) fun b hb => ?_⟩
    rw [List.mem_filter, decide_eq_true_iff] at hb
    exact ⟨hb.1, fun _ => hb.2⟩
  | free _ hkind ih =>
    obtain ⟨lbl, ht⟩ := ih
    exact ⟨lbl, ht.free (fun hc => absurd hc hkind) fun b hb => ⟨hb, fun hc => absurd hc hkind⟩⟩
  | writeRam ram _ ih =>
    obtain ⟨lbl, ht⟩ := ih
    have htrees := ht.trees.trees
    exact ⟨lbl, ht.trees.congr ⟨htrees.tree, htrees.live, htrees.aligned, htrees.sound, htrees.limit⟩
      (fun _ _ => rfl) (fun _ => .inl), ht.roots, ht.pages⟩

/-! ## Exhaustion -/

/-- `ept_lookup` has the answer it had before, if it had one. -/
def SameAnswer (root : ℕ) (gpa : UInt64) (m m' : PhysMem) : Prop :=
  ((eptLookup (some root) gpa).run m').map Prod.fst = ((eptLookup (some root) gpa).run m).map Prod.fst

theorem Maps.look_page {gpa : UInt64} {pte : EptEntry} (hm : Maps root gpa pte m m' lbl lbl')
    (hr : lbl root = some (root, [])) (hp : pte.present) (g : UInt64) :
    m'.look root (eptPath g) (eptPtIndex g) =
      if guestPage g = guestPage gpa then some pte else m.look root (eptPath g) (eptPtIndex g) := by
  rw [hm.look hp root _ _ hr (eptPath_length g)]
  refine if_congr ?_ rfl rfl
  rw [← key_eq_iff, eq_self, true_and]

end NexusVM
