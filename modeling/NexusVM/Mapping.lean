import NexusVM.Runs
import NexusVM.VmMemory

/-!
# Mapping a range of pages

* `EptTrees.allocates`, `EptTrees.addRoot`, `EptTrees.dropRoot`: page-table trees under requests and
  frees of other memory;
* `Covers`, `PhysMem.Confined`: entries that lead into a block, and trees all of whose entries do;
* `pageCount_le`: the pages that `vm_ept_map` maps fit into what `vm_alloc_memory` allocated, but
  for one size;
* `mapPages_succ_cases`, **`mapPages_spec`**: the loop of `vm_ept_map` adds entries into one block to one
  tree.
-/

namespace NexusVM

open Prog

variable {m m' m'' : PhysMem} {lbl lbl' lbl'' : Labels}

/-! ## Trees under other requests -/

theorem EptTrees.tables_allocates (ht : EptTrees m lbl) (ha : Allocates m m') {b : ℕ}
    (hb : lbl b ≠ none) : m'.tables b = m.tables b :=
  ha.tables _ (ht.live b hb) b (le_refl b) (by simp [tablePage])

theorem EptTrees.allocates (ht : EptTrees m lbl) (ha : Allocates m m') : EptTrees m' lbl := by
  refine ⟨?_, fun b hb => ha.live _ (ht.live b hb), ht.aligned, ha.sound ht.sound, ?_⟩
  · rw [ha.abi]
    exact ht.tree.congr fun b hb => ht.tables_allocates ha hb
  · rw [ha.limit, ha.abi]
    exact ht.limit

theorem EptTrees.look_allocates (ht : EptTrees m lbl) (ha : Allocates m m') {r : ℕ}
    {is : List (Fin 512)} (j : Fin 512) (hr : lbl r = some (r, [])) (hd : is.length = 3) :
    m'.look r is j = m.look r is j := by
  rw [PhysMem.look, ha.abi]
  refine Radix.look_congr ht.tree (fun b p hb => ?_) hr (by simp [hd])
  exact ht.tables_allocates ha (by rw [hb]; exact Option.some_ne_none _)

theorem EptTrees.addRoot (ht : EptTrees m lbl) {r : ℕ} (hr : lbl r = none) (hd : 4096 ∣ r)
    (hlive : tablePage r ∈ m.heap.live) (hz : m.tables r = fun _ => {}) :
    EptTrees m (Function.update lbl r (some (r, []))) := by
  refine ⟨ht.tree.newRoot hr hz, fun b hb => ?_, fun b hb => ?_, ht.sound, ht.limit⟩
  · by_cases hbr : b = r
    · exact hbr ▸ hlive
    · rw [Function.update_of_ne hbr] at hb
      exact ht.live b hb
  · by_cases hbr : b = r
    · exact hbr ▸ hd
    · rw [Function.update_of_ne hbr] at hb
      exact ht.aligned b hb

theorem EptTrees.dropRoot (ht : EptTrees m lbl) {l : List (BlockKind × Option Addr)}
    (hf : Frees l m m') {r : ℕ} (hr : lbl r = some (r, []))
    (hl : ∀ x, (BlockKind.pages, some x) ∈ l → x = r) :
    EptTrees m' (Function.update lbl r none) := by
  have hold : ∀ b, Function.update lbl r none b ≠ none → b ≠ r ∧ lbl b ≠ none := by
    intro b hb
    by_cases hbr : b = r
    · subst hbr
      exact absurd (Function.update_self _ _ _) hb
    · rw [Function.update_of_ne hbr] at hb
      exact ⟨hbr, hb⟩
  refine ⟨?_, fun b hb => ?_, fun b hb => ht.aligned b (hold b hb).2, hf.sound ht.sound, ?_⟩
  · rw [hf.abi]
    exact (ht.tree.dropRoot hr).congr fun b _ => congrFun hf.tables b
  · exact hf.live _ (ht.live b (hold b hb).2) fun hc => (hold b hb).1 (hl b hc)
  · rw [hf.limit, hf.abi]
    exact ht.limit

/-! ## Entries that lead into a block -/

/-- The page that an entry leads to lies in the block. -/
def Covers (abi : EptAbi) (b : Block BlockKind) (e : EptEntry) : Prop :=
  b.base ≤ (abi.address e).toNat ∧ (abi.address e).toNat + 4096 ≤ b.base + b.size

/-- Every entry found below the root leads into one of the blocks. -/
def PhysMem.Confined (m : PhysMem) (r : ℕ) (bs : List (Block BlockKind)) : Prop :=
  ∀ is j e, is.length = 3 → m.look r is j = some e → ∃ b ∈ bs, Covers m.abi b e

theorem PhysMem.Confined.mono {r : ℕ} {bs cs : List (Block BlockKind)} (hc : m.Confined r bs)
    (habi : m'.abi = m.abi) (hlook : ∀ is j e, is.length = 3 → m'.look r is j = some e →
      m.look r is j = some e ∨ ∃ b ∈ cs, Covers m.abi b e) (hsub : ∀ b ∈ bs, b ∈ cs) :
    m'.Confined r cs := by
  intro is j e hd he
  rw [habi]
  rcases hlook is j e hd he with h | h
  · obtain ⟨b, hb, hcov⟩ := hc is j e hd h
    exact ⟨b, hsub b hb, hcov⟩
  · exact h

/-- The size for which the request of `vm_alloc_memory` wraps to zero bytes and the page count of
`vm_ept_map` does not. -/
def WRAPPING_SIZE : UInt64 := 0xFFFFFFFFFFFFF000

/-- **The mapped pages fit into the allocation**, for all sizes but one. -/
theorem pageCount_le {size : UInt64} (h : size ≠ WRAPPING_SIZE) :
    (pageCount size).toNat * 4096 ≤ (allocSize size).toNat := by
  have hne : size.toNat ≠ 0xFFFFFFFFFFFFF000 := fun hc => h (UInt64.toNat_inj.mp hc)
  have hlt := size.toNat_lt
  rw [pageCount, allocSize, UInt64.toNat_shiftRight, UInt64.toNat_sub, UInt64.toNat_add,
    UInt64.toNat_mul, UInt64.toNat_add, UInt64.toNat_div, Nat.shiftRight_eq_div_pow]
  simp only [PAGE_SIZE, PAGE_SHIFT, UInt64.reduceToNat, Nat.reduceMod]
  omega

theorem makePte_covers {abi : EptAbi} {b : Block BlockKind} {hostPhys i : UInt64}
    (write execute : Bool) (hbase : hostPhys.toNat = b.base) (hd : 4096 ∣ b.base)
    (hlimit : b.base + b.size ≤ abi.span) (hi : i.toNat * 4096 + 4096 ≤ b.size) :
    Covers abi b (makePte (hostPhys + (i <<< PAGE_SHIFT)) write execute) := by
  have h52 := abi.span_le
  have haddr : (hostPhys + (i <<< PAGE_SHIFT)).toNat = b.base + i.toNat * 4096 := by
    rw [UInt64.toNat_add, UInt64.toNat_shiftLeft, hbase, show PAGE_SHIFT.toNat % 64 = 12 from rfl,
      Nat.shiftLeft_eq]
    omega
  have hentry : (abi.address (makePte (hostPhys + (i <<< PAGE_SHIFT)) write execute)).toNat =
      b.base + i.toNat * 4096 := by
    refine address_frameNumber ?_ (by omega) (by omega)
    rw [← haddr, UInt64.ofNat_toNat]
    rfl
  rw [Covers, hentry]
  omega

/-! ## The loop -/

/-- Entries that lead into the block `b` were added to the tree of `root`, and nothing else. -/
structure MapsInto (root : ℕ) (b : Block BlockKind) (m m' : PhysMem) (lbl lbl' : Labels) :
    Prop where
  trees : EptTrees m' lbl'
  grows : Grows m m' lbl lbl'
  other : ∀ s is j, lbl s = some (s, []) → s ≠ root → is.length = 3 →
    m'.look s is j = m.look s is j
  own : ∀ is j e, is.length = 3 → m'.look root is j = some e →
    m.look root is j = some e ∨ Covers m.abi b e

theorem MapsInto.refl (root : ℕ) (b : Block BlockKind) (ht : EptTrees m lbl) :
    MapsInto root b m m lbl lbl :=
  ⟨ht, Grows.refl m lbl, fun _ _ _ _ _ _ => rfl, fun _ _ _ _ => .inl⟩

theorem MapsInto.trans {root : ℕ} {b : Block BlockKind} (h : MapsInto root b m m' lbl lbl')
    (h' : MapsInto root b m' m'' lbl' lbl'') : MapsInto root b m m'' lbl lbl'' := by
  refine ⟨h'.trees, h.grows.trans h'.grows, fun s is j hs hne hd => ?_, fun is j e hd he => ?_⟩
  · rw [h'.other s is j (h.grows.keep s _ hs) hne hd, h.other s is j hs hne hd]
  · rcases h'.own is j e hd he with he' | hcov
    · exact h.own is j e hd he'
    · rw [h.grows.abi] at hcov
      exact .inr hcov

theorem Maps.mapsInto {root : ℕ} {b : Block BlockKind} {gpa : UInt64} {pte : EptEntry}
    (h : Maps root gpa pte m m' lbl lbl') (hr : lbl root = some (root, [])) (hp : pte.present)
    (hcov : Covers m.abi b pte) : MapsInto root b m m' lbl lbl' := by
  refine ⟨h.trees, h.grows, fun s is j hs hne hd => ?_, fun is j e hd he => ?_⟩
  · rw [h.look hp s is j hs hd, if_neg fun hc => hne hc.1]
  · rw [h.look hp root is j hr hd] at he
    split_ifs at he
    · cases he
      exact .inr hcov
    · exact .inl he

theorem mapPages_refused_le (root : Option Addr) (guestPhys hostPhys : UInt64)
    (write execute : Bool) (n : ℕ) (i : UInt64) (m : PhysMem) :
    wlp (mapPages root guestPhys hostPhys write execute n i)
      (fun _ m' => m.heap.refused ≤ m'.heap.refused) m := by
  induction n generalizing i m with
  | zero =>
    rw [mapPages, wlp_pure]
  | succ n ih =>
    rw [mapPages, wlp_bind]
    refine wlp_mono (eptMap_refused_le root _ _ m) fun r m₁ h₁ => ?_
    refine wlp_ite (fun _ => (wlp_pure _).mpr h₁) fun _ => ?_
    exact wlp_mono (ih (i + 1) m₁) fun _ m₂ h₂ => h₁.trans h₂

/-- **One round of the loop of `vm_ept_map`.** It maps a page and goes on, or a request is refused, which is
never forgotten. -/
theorem mapPages_succ_cases (ht : EptTrees m lbl) (hslots : m.abi.slots = 512) {root : ℕ}
    (hr : lbl root = some (root, [])) (guestPhys hostPhys : UInt64) (write execute : Bool) (n : ℕ) (i : UInt64) :
    (∃ m₁ lbl₁, Maps root (guestPhys + (i <<< PAGE_SHIFT))
        (makePte (hostPhys + (i <<< PAGE_SHIFT)) write execute) m m₁ lbl lbl₁ ∧
      (mapPages (some root) guestPhys hostPhys write execute (n + 1) i).run m =
        (mapPages (some root) guestPhys hostPhys write execute n (i + 1)).run m₁) ∨
    wlp (mapPages (some root) guestPhys hostPhys write execute (n + 1) i)
      (fun _ m' => m.heap.refused < m'.heap.refused) m := by
  rcases eptMap_cases ht hr (EptAbi.reaches_of_slots hslots (guestPhys + (i <<< PAGE_SHIFT)))
    (makePte (hostPhys + (i <<< PAGE_SHIFT)) write execute) with ⟨m₁, lbl₁, hrun, hmaps⟩ | ⟨-, hlt⟩
  · refine .inl ⟨m₁, lbl₁, hmaps, ?_⟩
    rw [mapPages, run_bind hrun, if_neg (not_not.mpr rfl)]
  · refine .inr ?_
    rw [mapPages, wlp_bind]
    refine wlp_mono hlt fun r m₁ h₁ => ?_
    refine wlp_ite (fun _ => (wlp_pure _).mpr h₁) fun _ => ?_
    exact wlp_mono (mapPages_refused_le _ _ _ _ _ n _ m₁) fun _ m₂ h₂ => h₁.trans_le h₂

/-- **The loop of `vm_ept_map`.** Where nothing is refused, it maps its pages into the block. -/
theorem mapPages_spec {root : ℕ} {b : Block BlockKind} {guestPhys hostPhys : UInt64}
    (write execute : Bool) (hbase : hostPhys.toNat = b.base) (hd : 4096 ∣ b.base)
    {n : ℕ} {i : UInt64} (hn : (i.toNat + n) * 4096 ≤ b.size) (ht : EptTrees m lbl)
    (hslots : m.abi.slots = 512) (hlimit : b.base + b.size ≤ m.abi.span)
    (hr : lbl root = some (root, [])) :
    wlp (mapPages (some root) guestPhys hostPhys write execute n i) (fun r m' =>
      m'.heap.refused = m.heap.refused →
        r = .ok ∧ ∃ lbl', MapsInto root b m m' lbl lbl') m := by
  induction n generalizing i m lbl with
  | zero =>
    rw [mapPages, wlp_pure]
    exact fun _ => ⟨rfl, lbl, MapsInto.refl root b ht⟩
  | succ n ih =>
    have hcov := makePte_covers write execute hbase hd hlimit
      (show i.toNat * 4096 + 4096 ≤ b.size by omega)
    have h52 := m.abi.span_le
    have hnext : (i + 1).toNat = i.toNat + 1 := by
      rw [UInt64.toNat_add, show (1 : UInt64).toNat = 1 from rfl]
      omega
    have hn' : ((i + 1).toNat + n) * 4096 ≤ b.size := by
      rw [hnext, Nat.add_assoc, Nat.add_comm 1 n]
      exact hn
    rcases mapPages_succ_cases ht hslots hr guestPhys hostPhys write execute n i with
      ⟨m₁, lbl₁, hmaps, hstep⟩ | hlt
    · intro r m₂ hrun heq
      rw [hstep] at hrun
      rw [← hmaps.refused] at heq
      have hinto := hmaps.mapsInto hr rfl hcov
      rw [← hmaps.grows.abi] at hslots hlimit
      obtain ⟨hok, lbl₂, hinto₂⟩ :=
        ih hn' hmaps.trees hslots hlimit (hmaps.grows.keep root _ hr) r m₂ hrun heq
      exact ⟨hok, lbl₂, hinto.trans hinto₂⟩
    · exact wlp_mono hlt fun _ m₂ h₂ heq => absurd heq h₂.ne'

end NexusVM
