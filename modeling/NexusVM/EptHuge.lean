import NexusVM.EptWalks

/-!
# Translations through large pages

What `ept_translate` makes of an entry that `ept_map_2mb` or `ept_map_1gb` entered.

* `eptPath_offset`, `eptUpper_offset`: the walk for an address inside a large page;
* `eptTranslate_ok_iff`, `eptTranslate_huge`: a page of 2 MiB is translated like one of 4096 bytes;
* `MapsGib`, `eptTranslate_gig`: the walk from the page that a 1 GiB entry is taken to point at;
* **`large_pages_agree_iff`**: when a large page is translated to itself.
-/

namespace NexusVM

open Prog

variable {old : List (Block BlockKind)} {root : ℕ} {c : Cover} {m : PhysMem} {lbl : Labels}
  {gpa hpa off : UInt64}

/-! ## Aligned addresses -/

theorem isAligned_iff {x : UInt64} {k : ℕ} {a : UInt64} (ha : a.toNat = 2 ^ k) :
    isAligned x a = true ↔ 2 ^ k ∣ x.toNat := by
  have hpos : 1 ≤ a.toNat := by rw [ha]; exact Nat.one_le_two_pow
  have hmask : (a - 1).toNat = 2 ^ k - 1 := by
    have hle : (1 : UInt64) ≤ a := UInt64.le_iff_toNat_le.mpr hpos
    rw [UInt64.toNat_sub_of_le _ _ hle, ha]
    rfl
  rw [isAligned, decide_eq_true_eq, ← UInt64.toNat_inj, UInt64.toNat_and, hmask,
    Nat.and_two_pow_sub_one_eq_mod, Nat.dvd_iff_mod_eq_zero]
  exact Iff.rfl

theorem isAligned_huge {x : UInt64} : isAligned x HUGE_PAGE_SIZE = true ↔ 2 ^ 21 ∣ x.toNat :=
  isAligned_iff rfl

theorem isAligned_gig {x : UInt64} : isAligned x GIG_PAGE_SIZE = true ↔ 2 ^ 30 ∣ x.toNat :=
  isAligned_iff rfl

theorem toNat_add_offset {k : ℕ} (hk : k ≤ 64) (hx : 2 ^ k ∣ gpa.toNat) (ho : off.toNat < 2 ^ k) :
    (gpa + off).toNat = gpa.toNat + off.toNat := by
  rw [UInt64.toNat_add]
  refine Nat.mod_eq_of_lt ?_
  obtain ⟨q, hq⟩ := hx
  obtain ⟨r, hr⟩ := Nat.pow_dvd_pow 2 hk
  have hlt := gpa.toNat_lt
  rw [hq, hr] at hlt
  have hqr : q + 1 ≤ r := Nat.lt_of_mul_lt_mul_left hlt
  calc gpa.toNat + off.toNat < 2 ^ k * q + 2 ^ k := by omega
    _ = 2 ^ k * (q + 1) := by rw [Nat.mul_add, Nat.mul_one]
    _ ≤ 2 ^ k * r := Nat.mul_le_mul_left _ hqr
    _ = 2 ^ 64 := hr.symm

theorem eptPath_offset (hg : 2 ^ 21 ∣ gpa.toNat) (ho : off.toNat < 2 ^ 21) :
    eptPath (gpa + off) = eptPath gpa := by
  have hsum := toNat_add_offset (by decide) hg ho
  simp only [eptPath, List.cons.injEq, and_true, Fin.ext_iff, eptPml4Index, eptPdpIndex, eptPdIndex,
    tableIndex_val, hsum, UInt64.reduceToNat, Nat.reduceMod]
  omega

/-- Inside 1 GiB the first two indices are the same and the others are those of the offset. -/
theorem eptUpper_offset (hg : 2 ^ 30 ∣ gpa.toNat) (ho : off.toNat < 2 ^ 30) :
    pdPath (gpa + off) = pdPath gpa ∧ (eptPdIndex (gpa + off)).val = off.toNat / 2 ^ 21 ∧
      (eptPtIndex (gpa + off)).val = off.toNat / 2 ^ 12 % 512 := by
  have hsum := toNat_add_offset (by decide) hg ho
  simp only [pdPath, List.cons.injEq, and_true, Fin.ext_iff, eptPml4Index, eptPdpIndex, eptPdIndex,
    eptPtIndex, tableIndex_val, hsum, UInt64.reduceToNat, Nat.reduceMod]
  omega

theorem largeEntry_address (abi : EptAbi) (e : EptEntry) {k : UInt64} {j : ℕ}
    (hk : k.toNat % 64 = j) (hp : hpa.toNat / 2 ^ j < 2 ^ 40) :
    (abi.address (largeEntry e (hpa >>> k))).toNat =
      hpa.toNat / 2 ^ j * 4096 % 2 ^ abi.shiftBits := by
  rw [EptAbi.address_toNat]
  congr 2
  change (BitVec.ofNat 40 ((hpa >>> k) &&& 0xFFFFFFFFFF).toNat).toNat = _
  rw [BitVec.toNat_ofNat, UInt64.toNat_and, UInt64.toNat_shiftRight, hk,
    show (0xFFFFFFFFFF : UInt64).toNat = 2 ^ 40 - 1 from rfl, Nat.and_two_pow_sub_one_eq_mod,
    Nat.mod_mod, Nat.shiftRight_eq_div_pow]
  exact Nat.mod_eq_of_lt hp

/-! ## Translations -/

/-- From the page `pd` on, taken for a page directory, `gpa` is translated to `y`. -/
def PhysMem.Translates (m : PhysMem) (pd : Addr) (gpa y : UInt64) : Prop :=
  let pue := m.tables pd (eptPdIndex gpa)
  let pt := (m.abi.address pue).toNat
  let pte := m.tables pt (eptPtIndex gpa)
  m.HasEntry pd (eptPdIndex gpa) ∧ pue.present = true ∧
    (pue.bigPagesize = true ∧ y = m.abi.address pue ||| (gpa &&& (PAGE_SIZE - 1)) ∨
      pue.bigPagesize = false ∧ m.HasEntry pt (eptPtIndex gpa) ∧ pte.present = true ∧
        y = m.abi.address pte ||| (gpa &&& (PAGE_SIZE - 1)))

/-- **When a translation succeeds.** -/
theorem eptTranslate_ok_iff {y : UInt64} (hroot : m.HasEntry root (eptPml4Index gpa))
    (hpml4e : (m.tables root (eptPml4Index gpa)).present = true)
    (hpdpt : m.HasEntry (m.pdptAt root gpa) (eptPdpIndex gpa))
    (hpdpe : (m.tables (m.pdptAt root gpa) (eptPdpIndex gpa)).present = true) :
    (eptTranslate (some root) gpa).run m = some (.ok y, m) ↔
      m.Translates (m.pdAt root gpa) gpa y := by
  rw [← wp_eq_iff, PhysMem.Translates]
  simp only [eptTranslate, eptLookup, wp_readEntry, wp_entryAddress, wp_bind, hpml4e, hpdpe,
    Bool.not_true, Bool.false_eq_true, if_false, hroot, hpdpt, true_and]
  refine and_congr_right fun _ => ?_
  generalize m.tables (m.pdAt root gpa) (eptPdIndex gpa) = pue
  by_cases hpres : pue.present = true
  · by_cases hbig : pue.bigPagesize = true
    · simp only [hpres, hbig, Bool.not_true, Bool.false_eq_true, if_false, if_true, wp_pure,
        wp_bind, wp_entryAddress, true_and, and_true, Except.ok.injEq, false_and, or_false,
        Bool.true_eq_false]
      exact eq_comm
    · simp only [hpres, hbig, Bool.not_true, Bool.false_eq_true, if_false, wp_bind, wp_readEntry,
        wp_entryAddress, true_and, false_and, false_or]
      refine and_congr_right fun _ => ?_
      generalize m.tables (m.abi.address pue).toNat (eptPtIndex gpa) = pte
      by_cases hpres' : pte.present = true
      · simp only [hpres', Bool.not_true, Bool.false_eq_true, if_false, wp_pure, wp_entryAddress,
          wp_bind, and_true, Except.ok.injEq, true_and]
        exact eq_comm
      · simp only [hpres', Bool.not_false, if_true, wp_pure, reduceCtorEq, false_and]
  · simp only [hpres, Bool.not_false, if_true, wp_pure, reduceCtorEq, false_and]

/-! ## Pages of 2 MiB -/

theorem LargeTrees.pdAt_eq {m' : PhysMem} {c' : Cover} (ht : LargeTrees old root c m lbl)
    (ht' : LargeTrees old root c' m' lbl) {gpa' : UInt64} (hp : pdPath gpa' = pdPath gpa)
    (hc : c (pdPath gpa) = .table) (hc' : c' (pdPath gpa) = .table) :
    m'.pdAt root gpa' = m.pdAt root gpa := by
  have hl := (ht.pd gpa hc).2.2
  have hl' := (ht'.pd gpa' (by rw [hp]; exact hc')).2.2
  rw [hp] at hl'
  exact ht.inj _ _ _ hl' hl

theorem LargeTrees.hasEntry_of_slots (ht : LargeTrees old root c m lbl) (hslots : m.abi.slots = 512)
    {table : ℕ} {p : List (Fin 512)} (hl : lbl table = some (root, p)) (k : Fin 512) :
    m.HasEntry table k :=
  ht.hasEntry hl (k.isLt.trans_eq hslots.symm)

/-- **A page of 2 MiB is translated to 4096 bytes of other memory.** -/
theorem eptTranslate_huge (ht : LargeTrees old root c m lbl) (hslots : m.abi.slots = 512)
    (hg : isAligned gpa HUGE_PAGE_SIZE = true) (hh : isAligned hpa HUGE_PAGE_SIZE = true)
    (hc : c (pdPath gpa) = .table) (hp : hpa.toNat + 2 ^ 21 ≤ 2 ^ 52) : ∃ m',
      (eptMap2mb (some root) gpa hpa).run m = some (.ok, m') ∧
      ∀ off : UInt64, off.toNat < 2 ^ 21 → ∃ y : UInt64,
        (eptTranslate (some root) (gpa + off)).run m' = some (.ok y, m') ∧
        y.toNat = hpa.toNat / 2 ^ 21 * 4096 % 2 ^ m.abi.shiftBits + off.toNat % 4096 := by
  refine ⟨_, eptMap2mb_run ht gpa hpa hg hh hc (EptAbi.reaches_of_slots hslots gpa).1,
    fun off ho => ?_⟩
  rw [isAligned_huge] at hg
  have hpath := eptPath_offset hg ho
  obtain ⟨hp₁, hp₂⟩ : pdPath (gpa + off) = pdPath gpa ∧ eptPdIndex (gpa + off) = eptPdIndex gpa := by
    simpa [eptPath, pdPath, and_assoc] using hpath
  have hpd := ht.pd gpa hc
  have ht' := ht.seal (k := eptPdIndex gpa) hpd.2.2 (by simp [pdPath]) (by simp [pdPath])
    (hpa >>> HUGE_PAGE_SHIFT)
  set e := largeEntry (m.tables (m.pdAt root gpa) (eptPdIndex gpa)) (hpa >>> HUGE_PAGE_SHIFT)
  have hkeep : Function.update c (pdPath gpa ++ [eptPdIndex gpa]) .large (pdPath gpa) = .table := by
    rw [Function.update_of_ne (by simp)]
    exact hc
  have hat := ht.pdAt_eq ht' hp₁ hc hkeep
  have hkeep' : Function.update c (pdPath gpa ++ [eptPdIndex gpa]) .large (pdPath (gpa + off)) =
      .table := by
    rw [hp₁]
    exact hkeep
  have hpdpt' := ht'.pdpt (gpa + off) (ht'.pdptPath_ne _ (by rw [hkeep']; simp))
  have hpd' := ht'.pd (gpa + off) hkeep'
  have hin : ∀ {table p}, lbl table = some (root, p) → ∀ k,
      (m.putEntry (m.pdAt root gpa) (eptPdIndex gpa) e).HasEntry table k :=
    fun hl => ht'.hasEntry_of_slots hslots hl
  refine ⟨m.abi.address e ||| ((gpa + off) &&& (PAGE_SIZE - 1)),
    (eptTranslate_ok_iff (hin ht'.base _) hpdpt'.1 (hin hpdpt'.2.2 _) hpd'.1).mpr ?_, ?_⟩
  · refine ⟨hin hpd'.2.2 _, ?_⟩
    rw [hat, hp₂, PhysMem.putEntry_tables, Radix.store_same]
    exact ⟨rfl, .inl ⟨rfl, rfl⟩⟩
  · have he : (m.abi.address e).toNat = hpa.toNat / 2 ^ 21 * 4096 % 2 ^ m.abi.shiftBits :=
      largeEntry_address (j := 21) _ _ rfl (by omega)
    have hpage : (gpa.toNat + off.toNat) % 4096 = off.toNat % 4096 := by omega
    rw [page_or_offset, he, toNat_add_offset (by decide) hg ho, hpage]

/-! ## Pages of 1 GiB -/

/-- The page `pd` is a page directory that maps the 1 GiB from `hpa` on by small pages. -/
def PhysMem.MapsGib (m : PhysMem) (pd : Addr) (hpa : UInt64) : Prop :=
  m.Mapped pd ∧ ∀ k : Fin 512, (m.tables pd k).present = true ∧ (m.tables pd k).bigPagesize = false ∧
    m.Mapped (m.abi.address (m.tables pd k)).toNat ∧ ∀ j : Fin 512,
      (m.tables (m.abi.address (m.tables pd k)).toNat j).present = true ∧
      (m.abi.address (m.tables (m.abi.address (m.tables pd k)).toNat j)).toNat =
        hpa.toNat + k.val * 2 ^ 21 + j.val * 2 ^ 12

/-- **A page directory that translates 1 GiB to itself** maps it by small pages. -/
theorem mapsGib_iff {pd : Addr} (hslots : m.abi.slots = 512) (hg : 2 ^ 30 ∣ gpa.toNat)
    (hh : 2 ^ 30 ∣ hpa.toNat) :
    (∀ off : UInt64, off.toNat < 2 ^ 30 → m.Translates pd (gpa + off) (hpa + off)) ↔
      m.MapsGib pd hpa := by
  constructor
  · intro h
    -- the offset of the small page `j` of the 2 MiB range `k`
    have hpage : ∀ k j : Fin 512, m.Mapped pd ∧ (m.tables pd k).present = true ∧
        ((m.tables pd k).bigPagesize = true ∧
            (m.abi.address (m.tables pd k)).toNat = hpa.toNat + k.val * 2 ^ 21 + j.val * 2 ^ 12 ∨
          (m.tables pd k).bigPagesize = false ∧ m.Mapped (m.abi.address (m.tables pd k)).toNat ∧
            (m.tables (m.abi.address (m.tables pd k)).toNat j).present = true ∧
            (m.abi.address (m.tables (m.abi.address (m.tables pd k)).toNat j)).toNat =
              hpa.toNat + k.val * 2 ^ 21 + j.val * 2 ^ 12) := by
      intro k j
      have hoff : (UInt64.ofNat (k.val * 2 ^ 21 + j.val * 2 ^ 12)).toNat =
          k.val * 2 ^ 21 + j.val * 2 ^ 12 := by
        rw [UInt64.toNat_ofNat']
        exact Nat.mod_eq_of_lt (by omega)
      generalize UInt64.ofNat (k.val * 2 ^ 21 + j.val * 2 ^ 12) = off at hoff
      have hlt : off.toNat < 2 ^ 30 := by omega
      obtain ⟨-, hk, hj⟩ := eptUpper_offset hg hlt
      have hk : eptPdIndex (gpa + off) = k := Fin.ext (by omega)
      have hj : eptPtIndex (gpa + off) = j := Fin.ext (by omega)
      have hzero : (gpa + off).toNat % 4096 = 0 := by
        rw [toNat_add_offset (by decide) hg hlt]
        omega
      have hsum : ∀ e : EptEntry,
          hpa + off = m.abi.address e ||| ((gpa + off) &&& (PAGE_SIZE - 1)) →
          (m.abi.address e).toNat = hpa.toNat + k.val * 2 ^ 21 + j.val * 2 ^ 12 := by
        intro e he
        have := congrArg UInt64.toNat he
        rw [page_or_offset, hzero, toNat_add_offset (by decide) hh hlt] at this
        omega
      have ht := h off hlt
      rw [PhysMem.Translates, hk, hj] at ht
      obtain ⟨hpd, hpres, ⟨hbig, hy⟩ | ⟨hbig, hpt, hpres', hy⟩⟩ := ht
      · exact ⟨hpd.1, hpres, .inl ⟨hbig, hsum _ hy⟩⟩
      · exact ⟨hpd.1, hpres, .inr ⟨hbig, hpt.1, hpres', hsum _ hy⟩⟩
    refine ⟨(hpage 0 0).1, fun k => ?_⟩
    obtain ⟨-, hpres, ⟨hbig, hfirst⟩ | ⟨hbig, hpt, -⟩⟩ := hpage k 0
    · -- a large page would be translated to one frame throughout
      obtain ⟨-, -, ⟨-, hsecond⟩ | ⟨hbig', -⟩⟩ := hpage k 1
      · rw [hfirst] at hsecond
        simp at hsecond
      · rw [hbig] at hbig'
        cases hbig'
    · refine ⟨hpres, hbig, hpt, fun j => ?_⟩
      obtain ⟨-, -, ⟨hbig', -⟩ | ⟨-, -, hpte⟩⟩ := hpage k j
      · rw [hbig] at hbig'
        cases hbig'
      · exact hpte
  · rintro ⟨hpd, hall⟩ off hlt
    obtain ⟨-, hk, hj⟩ := eptUpper_offset hg hlt
    obtain ⟨hpres, hbig, hpt, hptes⟩ := hall (eptPdIndex (gpa + off))
    obtain ⟨hpres', haddr⟩ := hptes (eptPtIndex (gpa + off))
    have hin : ∀ k : Fin 512, k.val < m.abi.slots := fun k => k.isLt.trans_eq hslots.symm
    refine ⟨⟨hpd, hin _⟩, hpres, .inr ⟨hbig, ⟨hpt, hin _⟩, hpres', ?_⟩⟩
    rw [← UInt64.toNat_inj, page_or_offset, haddr, hk, hj, toNat_add_offset (by decide) hh hlt,
      toNat_add_offset (by decide) hg hlt]
    omega

/-- **A page of 1 GiB is walked through**, from the address that its frame number gives. -/
theorem eptTranslate_gig (ht : LargeTrees old root c m lbl) (hslots : m.abi.slots = 512)
    (hshift : 40 ≤ m.abi.shiftBits)
    (hg : isAligned gpa GIG_PAGE_SIZE = true) (hh : isAligned hpa GIG_PAGE_SIZE = true)
    (hc : c (pdptPath gpa) ≠ .absent) (hp : hpa.toNat + 2 ^ 30 ≤ 2 ^ 52) : ∃ m',
      (eptMap1gb (some root) gpa hpa).run m = some (.ok, m') ∧
      m' = m.putEntry (m.pdptAt root gpa) (eptPdpIndex gpa)
        (largeEntry (m.tables (m.pdptAt root gpa) (eptPdpIndex gpa)) (hpa >>> GIG_PAGE_SHIFT)) ∧
      ∀ off : UInt64, off.toNat < 2 ^ 30 → ∀ y,
        (eptTranslate (some root) (gpa + off)).run m' = some (.ok y, m') ↔
          m'.Translates (hpa.toNat / 2 ^ 18) (gpa + off) y := by
  have hall := (EptAbi.reaches_of_slots hslots gpa).1
  refine ⟨_, eptMap1gb_run ht gpa hpa hg hh hc fun k hk => hall k ?_, rfl, fun off ho y => ?_⟩
  · exact List.mem_append_left [eptPdIndex gpa] hk
  rw [isAligned_gig] at hg hh
  obtain ⟨hp₁, -, -⟩ := eptUpper_offset hg ho
  obtain ⟨hp₂, hp₃⟩ : eptPml4Index (gpa + off) = eptPml4Index gpa ∧
      eptPdpIndex (gpa + off) = eptPdpIndex gpa := by
    simpa [pdPath] using hp₁
  have hpdpt := ht.pdpt gpa hc
  have ht' := ht.seal (k := eptPdpIndex gpa) hpdpt.2.2 (by simp [pdptPath]) (by simp [pdptPath])
    (hpa >>> GIG_PAGE_SHIFT)
  set e := largeEntry (m.tables (m.pdptAt root gpa) (eptPdpIndex gpa)) (hpa >>> GIG_PAGE_SHIFT) with hedef
  -- the root is another table, so the walk arrives at the PDPT as before
  have hne : root ≠ m.pdptAt root gpa := by
    intro h
    have hsame := ht.base.symm.trans ((congrArg lbl h).trans hpdpt.2.2)
    simp [pdptPath] at hsame
  have hroot : (m.putEntry (m.pdptAt root gpa) (eptPdpIndex gpa) e).tables root = m.tables root := by
    rw [PhysMem.putEntry_tables, Radix.store_of_table_ne hne]
  have hat : (m.putEntry (m.pdptAt root gpa) (eptPdpIndex gpa) e).pdptAt root (gpa + off) =
      m.pdptAt root gpa := by
    rw [PhysMem.pdptAt, hroot, hp₂]
    rfl
  have hentry : (m.putEntry (m.pdptAt root gpa) (eptPdpIndex gpa) e).tables (m.pdptAt root gpa)
      (eptPdpIndex (gpa + off)) = e := by
    rw [hp₃, PhysMem.putEntry_tables, Radix.store_same]
  have haddr : (m.abi.address e).toNat = hpa.toNat / 2 ^ 18 := by
    have hlt : hpa.toNat / 2 ^ 30 * 4096 < 2 ^ 40 := by omega
    have hfits := hlt.trans_le (Nat.pow_le_pow_right (show 0 < 2 by decide) hshift)
    rw [hedef, largeEntry_address (j := 30) _ _ rfl (by omega), Nat.mod_eq_of_lt hfits]
    omega
  rw [eptTranslate_ok_iff (ht'.hasEntry_of_slots hslots ht'.base _)
    (by rw [hroot, hp₂]; exact hpdpt.1)
    (by rw [hat]; exact ht'.hasEntry_of_slots hslots hpdpt.2.2 _) (by rw [hat, hentry]; rfl)]
  rw [PhysMem.pdAt, hat, hentry, PhysMem.putEntry_abi, haddr]

/-- **When large pages agree with small ones.** Take each table as 512 entries, and the shift of an
address in 40 bits or more. In a tree whose upper tables for `gpa` exist, both calls return `NEXUSVM_OK`.
After `ept_map_2mb` an offset is translated as it should only if `hpa` is 0 and it is below 4096. After
`ept_map_1gb` every offset is translated as it should just if the host page at `hpa / 2¹⁸` is a page
directory that maps the 1 GiB from `hpa` on by small pages. -/
theorem large_pages_agree_iff (hslots : m.abi.slots = 512) (hshift : 40 ≤ m.abi.shiftBits)
    (ht : LargeTrees old root c m lbl) (gpa hpa : UInt64) :
    (isAligned gpa HUGE_PAGE_SIZE = true → isAligned hpa HUGE_PAGE_SIZE = true →
      hpa.toNat + 2 ^ 21 ≤ 2 ^ 52 → c (pdPath gpa) = .table →
      ∃ m', (eptMap2mb (some root) gpa hpa).run m = some (.ok, m') ∧
        ∀ off : UInt64, off.toNat < 2 ^ 21 →
          ((eptTranslate (some root) (gpa + off)).run m' = some (.ok (hpa + off), m') ↔
            hpa = 0 ∧ off.toNat < 4096)) ∧
    (isAligned gpa GIG_PAGE_SIZE = true → isAligned hpa GIG_PAGE_SIZE = true →
      hpa.toNat + 2 ^ 30 ≤ 2 ^ 52 → c (pdptPath gpa) ≠ .absent →
      ∃ m', (eptMap1gb (some root) gpa hpa).run m = some (.ok, m') ∧
        m' = m.putEntry (m.pdptAt root gpa) (eptPdpIndex gpa)
          (largeEntry (m.tables (m.pdptAt root gpa) (eptPdpIndex gpa)) (hpa >>> GIG_PAGE_SHIFT)) ∧
        ((∀ off : UInt64, off.toNat < 2 ^ 30 →
            (eptTranslate (some root) (gpa + off)).run m' = some (.ok (hpa + off), m')) ↔
          m'.MapsGib (hpa.toNat / 2 ^ 18) hpa)) := by
  constructor
  · intro hg hh hp hc
    obtain ⟨m', hrun, htrans⟩ := eptTranslate_huge ht hslots hg hh hc hp
    rw [isAligned_huge] at hh
    refine ⟨m', hrun, fun off ho => ?_⟩
    obtain ⟨y, hy, hval⟩ := htrans off ho
    have hsum := toNat_add_offset (by decide) hh ho
    have hiff : y = hpa + off ↔ hpa = 0 ∧ off.toNat < 4096 := by
      have hle := Nat.mod_le (hpa.toNat / 2 ^ 21 * 4096) (2 ^ m.abi.shiftBits)
      rw [← UInt64.toNat_inj, hval, hsum, ← UInt64.toNat_inj, UInt64.toNat_zero]
      generalize hpa.toNat / 2 ^ 21 * 4096 % 2 ^ m.abi.shiftBits = a at hle
      omega
    rw [← hiff, hy]
    simp
  · intro hg hh hp hc
    obtain ⟨m', hrun, hm', htrans⟩ := eptTranslate_gig ht hslots hshift hg hh hc hp
    rw [isAligned_gig] at hg hh
    refine ⟨m', hrun, hm', ?_⟩
    have hslots' : m'.abi.slots = 512 := by rw [hm']; exact hslots
    rw [← mapsGib_iff hslots' hg hh]
    exact forall₂_congr fun off ho => htrans off ho (hpa + off)

/-- A tree with one small page, and a large page of 2 MiB in its place. -/
theorem large_pages_agree_iff_small_page : ∃ m m', (runOps (EptCall.run 16384)
      [.map 0 { present := true, physicalAddress := 5 }]).run (bumpMem.newRoot 16384) =
        some ((), m) ∧
      (eptMap2mb (some 16384) 0 0x800000).run m = some (.ok, m') ∧
      ∀ off : UInt64, off.toNat < 2 ^ 21 →
        ((eptTranslate (some 16384) (0 + off)).run m' = some (.ok (0x800000 + off), m') ↔
          (0x800000 : UInt64) = 0 ∧ off.toNat < 4096) := by
  have hf : bumpMem.heap.Fits 4096 (tablePage 16384) := by decide
  have hsound : bumpMem.heap.Sound := List.Pairwise.nil
  have havoid : AvoidsLarge 512 [.map 0 { present := true, physicalAddress := 5 }] :=
    avoidsLarge_concat avoidsLarge_nil (by simp only [EptCall.Avoids, EptCall.InPage]; decide +kernel)
  have hfull : (bumpMem.newRoot 16384).abi = .full := rfl
  obtain ⟨⟨⟩, m, hrun, habi, lbl, ht⟩ := eptCalls_spec havoid [.map 0 { present := true, physicalAddress := 5 }] [] _ _
    rfl hfull
    (largeTrees_newRoot hsound (by decide) hf)
    ⟨⟨32768, rfl, by decide, 49152, rfl, by decide, 65536, rfl, by decide, trivial⟩,
      fun _ _ _ => trivial⟩
  obtain ⟨m', hmap, hiff⟩ := (large_pages_agree_iff (by rw [habi]; rfl) (by rw [habi]; decide) ht 0
    0x800000).1 (by decide) (by decide) (by decide) (by decide)
  exact ⟨m, m', hrun, hmap, hiff⟩

/-- **A large page leads elsewhere.** `ept_map_2mb` maps the guest address 0 to host memory at 8 MiB,
and `ept_translate` gives 16 KiB for it. -/
theorem large_page_translated_elsewhere : ∃ m m' m'', (runOps (EptCall.run 16384)
      [.map 0 { present := true, physicalAddress := 5 }]).run (bumpMem.newRoot 16384) =
        some ((), m) ∧
      (eptMap2mb (some 16384) 0 0x800000).run m = some (.ok, m') ∧
      (eptTranslate (some 16384) 0).run m' = some (.ok 0x4000, m'') := by
  have hres : ((runOps (EptCall.run 16384)
      [.map 0 { present := true, physicalAddress := 5 }]).run (bumpMem.newRoot 16384)).any (fun r =>
        ((eptMap2mb (some 16384) 0 0x800000).run r.2).any fun q => q.1 = .ok &&
          ((eptTranslate (some 16384) 0).run q.2).any fun t => t.1.toOption = some 0x4000) = true := by
    decide +kernel
  obtain ⟨⟨⟨⟩, m⟩, hrun, hres⟩ := (Option.any_eq_true _ _).mp hres
  obtain ⟨⟨r, m'⟩, hmap, hres⟩ := (Option.any_eq_true _ _).mp hres
  rw [Bool.and_eq_true, decide_eq_true_eq, Option.any_eq_true] at hres
  obtain ⟨hok, ⟨t, m''⟩, htrans, ht⟩ := hres
  rw [decide_eq_true_eq] at ht
  cases hok
  cases t with
  | error e => cases ht
  | ok y =>
    cases ht
    exact ⟨m, m', m'', hrun, hmap, htrans⟩

end NexusVM
