import NexusVM.EptTrees

/-!
# A page-table tree is a finite map

* `lastCall`: the entry of the last call for the page of an address, the abstract map;
* `EptIsMap`: a tree reads as a list of calls;
* `eptIsMap_along`: three tables a call are enough;
* **`ept_refines_finite_map`**: after any sequence of calls whose requests are served, lookups and
  translations are those of the abstract map.
-/

namespace NexusVM

/-- The entry given by the last of the calls for the page that `gpa` is in. -/
def lastCall (calls : List (UInt64 × EptEntry)) (gpa : UInt64) : Option EptEntry :=
  (calls.filter fun c => guestPage c.1 = guestPage gpa).getLast?.map Prod.snd

theorem lastCall_concat (calls : List (UInt64 × EptEntry)) (c : UInt64 × EptEntry)
    (gpa : UInt64) : lastCall (calls ++ [c]) gpa =
      if guestPage c.1 = guestPage gpa then some c.2 else lastCall calls gpa := by
  unfold lastCall
  rw [List.filter_append]
  split_ifs with h
  · simp [h]
  · simp [h]

/-- The tree below `root`, of tables of 512 entries, reads as the calls. -/
def EptIsMap (abi : EptAbi) (root : ℕ) (calls : List (UInt64 × EptEntry)) (m : PhysMem) : Prop :=
  m.abi = abi ∧ ∃ lbl, EptTrees m lbl ∧ lbl root = some (root, []) ∧
    ∀ gpa, m.look root (eptPath gpa) (eptPtIndex gpa) = lastCall calls gpa

theorem eptIsMap_nil {m : PhysMem} {root : ℕ} (hsound : m.heap.Sound)
    (hlimit : m.heap.limit ≤ m.abi.span) (hf : m.heap.Fits 4096 (tablePage root)) :
    EptIsMap m.abi root [] (m.newRoot root) :=
  ⟨rfl, _, (EptTrees.empty hsound hlimit).newRoot hf, Function.update_self _ _ _,
    fun _ => look_zero_self _ _ _ _⟩

theorem eptMap_isMap {m : PhysMem} {abi : EptAbi} (hslots : abi.slots = 512) {root : ℕ}
    {calls : List (UInt64 × EptEntry)} (h : EptIsMap abi root calls m) (hs : m.Serves 3)
    {gpa : UInt64} {pte : EptEntry} (hp : pte.present) : Prog.wp (eptMap (some root) gpa pte)
      (fun r m' => r = .ok ∧ EptIsMap abi root (calls ++ [(gpa, pte)]) m' ∧
        ∀ n, m.Serves (n + 3) → m'.Serves n) m := by
  obtain ⟨rfl, lbl, ht, hr, hlook⟩ := h
  rcases eptMap_cases ht hr (EptAbi.reaches_of_slots hslots gpa) pte with
    ⟨m', lbl', hrun, hmaps⟩ | ⟨hn, -⟩
  · refine ⟨_, m', hrun, rfl, ⟨hmaps.grows.abi, lbl', hmaps.trees, hmaps.grows.keep root _ hr,
      fun gpa' => ?_⟩, hmaps.serves⟩
    rw [hmaps.look hp root _ _ hr rfl, hlook, lastCall_concat]
    refine if_congr ?_ rfl rfl
    rw [← key_eq_iff gpa' gpa, eq_comm (a := eptPath gpa), eq_comm (a := eptPtIndex gpa)]
    simp
  · exact absurd hs hn

theorem eptIsMap_along {m : PhysMem} {abi : EptAbi} (hslots : abi.slots = 512) {root : ℕ}
    {done calls : List (UInt64 × EptEntry)} (h : EptIsMap abi root done m)
    (hp : ∀ c ∈ calls, c.2.present) (hs : m.Serves (3 * calls.length)) :
    Prog.Along (fun c => eptMap (some root) c.1 c.2) (fun _ m => m.Serves 3) calls m := by
  induction calls generalizing m done with
  | nil => trivial
  | cons c calls ih =>
    have h₃ : m.Serves 3 := PhysMem.serves_mono hs (by rw [List.length_cons]; omega)
    refine ⟨h₃, fun r m' hrun => ?_⟩
    obtain ⟨-, h', hserves⟩ :=
      Prog.wp_run (eptMap_isMap hslots h h₃ (hp c List.mem_cons_self)) hrun
    exact ih h' (fun c' hc' => hp c' (List.mem_cons_of_mem _ hc')) (hserves _ hs)

/-- **The tree refines a finite map.** Let `root` come from `ept_alloc_root`, and let every call of
`ept_map` find the (at most three) requests it makes served. Then all calls return, and
`ept_lookup` and `ept_translate` answer with the last call for the page, or find nothing. -/
theorem ept_refines_finite_map {m₀ m₁ : PhysMem} {root : Addr} (hslots : m₀.abi.slots = 512)
    (hsound : m₀.heap.Sound) (hlimit : m₀.heap.limit ≤ m₀.abi.span)
    (hroot : eptAllocRoot.run m₀ = some (some root, m₁)) (calls : List (UInt64 × EptEntry))
    (hcalls : ∀ c ∈ calls, c.1.toNat < 2 ^ 48 ∧ c.2.present)
    (hserves : Prog.Along (fun c => eptMap (some root) c.1 c.2) (fun _ m => m.Serves 3) calls m₁) :
    ∃ m, (Prog.runOps (fun c => eptMap (some root) c.1 c.2) calls).run m₁ = some ((), m) ∧
      ∀ gpa : UInt64, gpa.toNat < 2 ^ 48 →
        (eptLookup (some root) gpa).run m = some (match lastCall calls gpa with
          | some pte => .ok pte
          | none => .error .errNotFound, m) ∧
        (eptTranslate (some root) gpa).run m = some (match lastCall calls gpa with
          | some pte => .ok (m₀.abi.address pte ||| (gpa &&& 0xFFF))
          | none => .error .errNotFound, m) := by
  have h₁ : EptIsMap m₀.abi root [] m₁ := by
    obtain ⟨hf, rfl⟩ := Prog.wp_run (eptAllocRoot_spec m₀) hroot
    exact eptIsMap_nil hsound hlimit hf
  have hrun := Prog.wp_runOps (I := fun done m => EptIsMap m₀.abi root done m)
    (fun pre c m hc hs hI => Prog.wp_mono (eptMap_isMap hslots hI hs (hcalls c hc).2)
      fun _ _ h => h.2.1)
    hserves h₁
  obtain ⟨⟨⟩, m, hrun, habi, lbl, ht, hr, hlook⟩ := hrun
  have hreach : ∀ gpa, m.abi.Reaches gpa := fun gpa =>
    EptAbi.reaches_of_slots ((congrArg EptAbi.slots habi).trans hslots) gpa
  refine ⟨m, hrun, fun gpa _ => ⟨?_, ?_⟩⟩
  · have h := eptLookup_run ht hr (hreach gpa)
    rw [hlook] at h
    exact h
  · have h := eptTranslate_run ht hr (hreach gpa)
    rw [hlook, habi] at h
    exact h

/-- Tables of 512 entries, and `physical_address << 12` taken in 64 bits. -/
def wideMem : PhysMem := { bumpMem with abi := ⟨64, 512⟩ }

/-- The second page is mapped twice. -/
theorem ept_refines_finite_map_three_calls :
    ∃ m, (Prog.runOps (fun c => eptMap (some 16384) c.1 c.2)
        [(0x1000, { present := true, physicalAddress := 5 }),
          (0x2000, { present := true, physicalAddress := 6 }),
          (0x1800, { present := true, physicalAddress := 0xFFFFFFFFFF })]).run
            (wideMem.newRoot 16384) = some ((), m) ∧
      (eptTranslate (some 16384) 0x1FFF).run m = some (.ok 0xFFFFFFFFFFFFF, m) ∧
      (eptTranslate (some 16384) 0x2000).run m = some (.ok 0x6000, m) ∧
      (eptLookup (some 16384) 0x3000).run m = some (.error .errNotFound, m) := by
  have hsound : wideMem.heap.Sound := List.Pairwise.nil
  have hlimit : wideMem.heap.limit ≤ wideMem.abi.span := by decide
  have hroot : eptAllocRoot.run wideMem = some (some 16384, wideMem.newRoot 16384) := rfl
  have hbumps : Bumps (wideMem.newRoot 16384).heap := ⟨rfl, by decide⟩
  have hserves : (wideMem.newRoot 16384).Serves 9 := hbumps.serves (by decide)
  have hmap := eptIsMap_nil hsound hlimit (by decide : wideMem.heap.Fits 4096 (tablePage 16384))
  obtain ⟨m, hrun, h⟩ := ept_refines_finite_map rfl hsound hlimit hroot
    [(0x1000, { present := true, physicalAddress := 5 }),
      (0x2000, { present := true, physicalAddress := 6 }),
      (0x1800, { present := true, physicalAddress := 0xFFFFFFFFFF })] (by decide)
    (eptIsMap_along rfl hmap (by decide) hserves)
  exact ⟨m, hrun, (h 0x1FFF (by decide)).2, (h 0x2000 (by decide)).2, (h 0x3000 (by decide)).1⟩

end NexusVM
