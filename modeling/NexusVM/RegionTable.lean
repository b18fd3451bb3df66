import NexusVM.Checkpoint
import NexusVM.Regions

/-!
# The region table

`vm_create` makes room for `memory_region_count` regions, `vm_alloc_memory` counts the regions from zero on,
and `checkpoint_save_memory` and `vm_destroy` go through all that are counted.

* `AllocCall`, `AllocCall.index`, `regionIndices`: calls and loops, up to the use of the table;
* `AllocCall.Accesses`, `LoopAccesses`: the indices that are used;
* `vmAllocMemory_eq`, `checkpointSaveMemory_eq`: the functions go on from there;
* `vmAllocMemory_takes`: a call that gets memory uses the first index that is not counted, and counts it;
* `vmAllocMemory_overrun`: a call that uses an index beyond the table is undefined;
* **`region_table_iff`**: the table is never overrun if and only if no more calls get memory than it has room for.
-/

namespace NexusVM

open Prog Stdio

variable {h h' : Host} {a : Addr} {v : Nexusvm}

/-! ## Calls and accesses -/

/-- The arguments of a call of `vm_alloc_memory`. -/
structure AllocCall where
  guestPhys : UInt64
  size : UInt64
  regionType : MemoryRegionType

def AllocCall.run (vm : Addr) (call : AllocCall) : HostM Unit :=
  discard (vmAllocMemory (some vm) call.guestPhys call.size call.regionType)

/-- The call gets the host memory that it asks for, and goes on to the table. -/
def AllocCall.Takes (call : AllocCall) (h : Host) : Prop :=
  call.size ≠ 0 ∧ h.mem.heap.Serves .pages 4096 (allocSize call.size).toNat 1

instance (call : AllocCall) (h : Host) : Decidable (call.Takes h) := by
  unfold AllocCall.Takes
  infer_instance

/-- `vm_alloc_memory` up to the table: the host memory that it gets and the index that it uses. -/
def AllocCall.index (vm : Addr) (call : AllocCall) : HostM (Except Result (Addr × ℕ)) := do
  if call.size = 0 then return .error .errInvalidParam
  match ← onMem (eptAllocPages (call.size / PAGE_SIZE + 1)) with
  | none => return .error .errNoMemory
  | some hostMem => return .ok (hostMem, (← getVm vm).memoryRegionCount.toNat)

/-- `vm_alloc_memory` from the table on. -/
def AllocCall.fill (vm : Addr) (call : AllocCall) (hostMem : Addr) (k : ℕ) : HostM Result := do
  let v ← getVm vm
  Prog.require (k < v.memoryRegions.length)
  let region : MemoryRegion := {
    (v.memoryRegions[k]?.getD {}) with
    guestPhys := call.guestPhys
    hostPhys := UInt64.ofNat hostMem
    size := call.size
    type := call.regionType
    flags := MEM_REGION_READABLE ||| MEM_REGION_WRITABLE }
  putVm vm { v with
    memoryRegions := v.memoryRegions.set k region
    memoryRegionCount := v.memoryRegionCount + 1 }
  let result ← vmEptMap (some vm) call.guestPhys (UInt64.ofNat hostMem) call.size true false
  if result ≠ .ok then
    onMem (eptFreePages (some hostMem))
    return result
  return .ok

/-- The indices of the loops of `checkpoint_save_memory` and of `vm_destroy`. -/
def regionIndices (vm : Addr) : HostM (List ℕ) :=
  return List.range (← getVm vm).memoryRegionCount.toNat

/-- The call uses `memory_regions[k]`. -/
def AllocCall.Accesses (vm : Addr) (call : AllocCall) (h : Host) (k : ℕ) : Prop :=
  ∃ hostMem h', (call.index vm).run h = some (.ok (hostMem, k), h')

/-- The loops of `checkpoint_save_memory` and of `vm_destroy` use `memory_regions[k]`. -/
def LoopAccesses (vm : Addr) (h : Host) (k : ℕ) : Prop :=
  ∃ ks h', (regionIndices vm).run h = some (ks, h') ∧ k ∈ ks

/-- Every index that is used is below `capacity`: by each of the calls, and by the loops in each state that the
calls lead to. -/
structure TableSafe (vm : Addr) (capacity : ℕ) (calls : List AllocCall) (h : Host) : Prop where
  call : ∀ pre call, pre ++ [call] <+: calls → ∀ h', (runOps (AllocCall.run vm) pre).run h = some ((), h') →
    ∀ k, call.Accesses vm h' k → k < capacity
  loop : ∀ pre, pre <+: calls → ∀ h', (runOps (AllocCall.run vm) pre).run h = some ((), h') →
    ∀ k, LoopAccesses vm h' k → k < capacity

/-- The number of calls that get memory. -/
def regionsTaken (vm : Addr) : List AllocCall → Host → ℕ
  | [], _ => 0
  | call :: calls, h => (if call.Takes h then 1 else 0) +
      match (call.run vm).run h with
      | none => 0
      | some (_, h') => regionsTaken vm calls h'

/-! ## The calls from the table on -/

theorem getVm_getVm {α : Type} (f : Nexusvm → Nexusvm → HostM α) :
    (getVm a >>= fun v => getVm a >>= f v) = getVm a >>= fun v => f v v := fetch_fetch _ _

/-- **A call fills in the region whose index it takes.** -/
theorem vmAllocMemory_eq (vm : Addr) (call : AllocCall) :
    vmAllocMemory (some vm) call.guestPhys call.size call.regionType = (do
      match ← call.index vm with
      | .error result => return result
      | .ok (hostMem, k) => call.fill vm hostMem k) := by
  rw [vmAllocMemory, AllocCall.index]
  split_ifs
  · rfl
  · simp only [bind_assoc]
    refine bind_congr fun o => ?_
    cases o with
    | none => rfl
    | some hostMem =>
      simp only [bind_assoc, pure_bind, AllocCall.fill, getVm_getVm]

/-- **A checkpoint saves the regions whose indices its loop goes through.** -/
theorem checkpointSaveMemory_eq (vm : Addr) (path : String) :
    checkpointSaveMemory (some vm) path = (do
      match ← onDisk (fopen path .append) with
      | none => return .errGeneric
      | some f =>
        let v ← getVm vm
        let ks ← regionIndices vm
        Prog.forEach (fun k => do saveRegion vm f (← Prog.fetch fun _ => v.memoryRegions[k]?)) ks
        onDisk (fclose f)
        return .ok) := by
  rw [checkpointSaveMemory]
  refine bind_congr fun o => ?_
  cases o with
  | none => rfl
  | some f =>
    simp only [regionIndices, bind_assoc, pure_bind, forEach_indices, getVm_getVm]

/-! ## One call -/

/-- **Which index a call takes**: the first that is not counted, if it gets memory. -/
theorem AllocCall.index_spec (hv : h.vms a = some v) (call : AllocCall) :
    wp (call.index a) (fun r _ =>
      if call.Takes h then ∃ hostMem, r = .ok (hostMem, v.memoryRegionCount.toNat) else ∃ e, r = .error e) h := by
  rw [AllocCall.index]
  refine wp_ite (fun hzero => ?_) fun hne => ?_
  · rw [wp_pure, if_neg fun ht => ht.1 hzero]
    exact ⟨_, rfl⟩
  rw [wp_bind, wp_onMem]
  refine wp_mono (eptAllocPages_spec (call.size / PAGE_SIZE + 1) h.mem) fun o m ho => ?_
  cases o with
  | none =>
    rw [wp_pure, if_neg fun ht => ho.1 ht.2]
    exact ⟨_, rfl⟩
  | some b =>
    have ht : call.Takes h := ⟨hne, b, ho.1, ho.2.1, trivial⟩
    simp only [if_pos ht, wp_bind, wp_getVm, wp_pure]
    exact ⟨v, hv, b, rfl⟩

theorem AllocCall.accesses_iff (hv : h.vms a = some v) (call : AllocCall) {k : ℕ} :
    call.Accesses a h k ↔ call.Takes h ∧ k = v.memoryRegionCount.toNat := by
  obtain ⟨r, h', hrun, hr⟩ := call.index_spec hv
  rw [AllocCall.Accesses, hrun]
  split_ifs at hr with ht
  · obtain ⟨hostMem, rfl⟩ := hr
    rw [and_iff_right ht]
    constructor
    · rintro ⟨_, _, heq⟩
      cases heq
      rfl
    · rintro rfl
      exact ⟨hostMem, h', rfl⟩
  · obtain ⟨e, rfl⟩ := hr
    refine iff_of_false ?_ fun hk => ht hk.1
    rintro ⟨_, _, heq⟩
    cases heq

/-- **What a call does to the table.** -/
theorem vmAllocMemory_takes (hv : h.vms a = some v) (guestPhys size : UInt64) (regionType : MemoryRegionType) :
    wlp (vmAllocMemory (some a) guestPhys size regionType) (fun _ h' =>
      if AllocCall.Takes ⟨guestPhys, size, regionType⟩ h then
        v.memoryRegionCount.toNat < v.memoryRegions.length ∧ ∃ r, h'.vms a = some (v.addRegion r)
      else h'.vms a = some v) h := by
  rw [vmAllocMemory]
  refine wlp_ite (fun hzero => ?_) fun hne => ?_
  · rw [wlp_pure, if_neg fun ht => ht.1 hzero]
    exact hv
  rw [wlp_bind, wlp_onMem]
  refine wlp_mono (eptAllocPages_spec (size / PAGE_SIZE + 1) h.mem).wlp fun o m ho => ?_
  cases o with
  | none =>
    obtain ⟨hn, rfl⟩ := ho
    rw [wlp_pure, if_neg fun ht => hn ht.2]
    exact hv
  | some b =>
    obtain ⟨hb, hf, rfl⟩ := ho
    have ht : AllocCall.Takes ⟨guestPhys, size, regionType⟩ h := ⟨hne, b, hb, hf, trivial⟩
    simp only [if_pos ht, wlp_bind, wlp_getVm, wlp_require, wlp_putVm]
    intro w hw hroom
    rw [Host.setMem_vms, hv] at hw
    cases hw
    -- the region that is recorded
    generalize { v.memoryRegions[v.memoryRegionCount.toNat]?.getD {} with
      guestPhys := guestPhys
      hostPhys := UInt64.ofNat b
      size := size
      type := regionType
      flags := MEM_REGION_READABLE ||| MEM_REGION_WRITABLE } = region
    change wlp _ _ ((h.setMem _).setVm a (some (v.addRegion region)))
    simp only [vmEptMap, wlp_bind, wlp_getVm, Host.setVm_self]
    rintro _ ⟨⟩
    -- the page tables do not matter here
    refine wlp_mono (Q := fun _ h' => h'.vms a = some (v.addRegion region)) (wlp_ite (fun _ => ?_) fun _ => ?_) ?_
    · exact (wlp_pure _).mpr (Host.setVm_self _ _ _)
    · rw [wlp_onMem]
      exact fun _ _ _ => Host.setVm_self _ _ _
    · intro result h' hvm
      refine wlp_ite (fun _ => ?_) fun _ => (wlp_pure _).mpr ⟨hroom, region, hvm⟩
      simp only [wlp_bind, wlp_onMem, wlp_pure]
      exact fun _ _ _ => ⟨hroom, region, hvm⟩

/-- A call that uses an index beyond the table is undefined. -/
theorem vmAllocMemory_overrun (hv : h.vms a = some v) {guestPhys size : UInt64} {regionType : MemoryRegionType}
    (ht : AllocCall.Takes ⟨guestPhys, size, regionType⟩ h)
    (hfull : v.memoryRegions.length ≤ v.memoryRegionCount.toNat) :
    (vmAllocMemory (some a) guestPhys size regionType).run h = none := by
  rw [run_eq_none_iff]
  refine wlp_mono (vmAllocMemory_takes hv guestPhys size regionType) fun _ h' hres => ?_
  rw [if_pos ht] at hres
  omega

/-! ## Runs -/

/-- A VM whose table has room for `capacity` regions, `n` of which are counted. -/
structure Counts (a : Addr) (capacity n : ℕ) (h : Host) : Prop where
  vm : ∃ v, h.vms a = some v ∧ v.memoryRegions.length = capacity ∧ v.memoryRegionCount.toNat = n
  bound : n ≤ capacity

section Runs

variable {capacity n k : ℕ} {call : AllocCall} {calls : List AllocCall}

theorem Counts.accesses (hc : Counts a capacity n h) : call.Accesses a h k ↔ call.Takes h ∧ k = n := by
  obtain ⟨v, hv, -, rfl⟩ := hc.vm
  exact call.accesses_iff hv

theorem Counts.loop (hc : Counts a capacity n h) : LoopAccesses a h k ↔ k < n := by
  obtain ⟨v, hv, -, rfl⟩ := hc.vm
  have hrun : (regionIndices a).run h = some (List.range v.memoryRegionCount.toNat, h) :=
    wp_eq_iff.mp (by simp [regionIndices, hv])
  simp [LoopAccesses, hrun]

theorem Counts.step (hc : Counts a capacity n h) (hcap : capacity < 2 ^ 32) (call : AllocCall) :
    wlp (call.run a) (fun _ h' => Counts a capacity (n + if call.Takes h then 1 else 0) h') h := by
  obtain ⟨v, hv, hlen, hcount⟩ := hc.vm
  rw [AllocCall.run, wlp_discard]
  refine wlp_mono (vmAllocMemory_takes hv _ _ _) fun _ h' hres => ?_
  by_cases ht : call.Takes h
  · rw [if_pos ht] at hres ⊢
    obtain ⟨hroom, r, hv'⟩ := hres
    refine ⟨⟨_, hv', ?_, ?_⟩, by omega⟩
    · simpa [Nexusvm.addRegion] using hlen
    · rw [Nexusvm.addRegion, UInt32.toNat_add, show (1 : UInt32).toNat = 1 from rfl]
      omega
  · rw [if_neg ht] at hres ⊢
    exact ⟨⟨v, hres, hlen, hcount⟩, hc.bound⟩

theorem tableSafe_cons : TableSafe a capacity (call :: calls) h ↔
    (∀ k, call.Accesses a h k → k < capacity) ∧ (∀ k, LoopAccesses a h k → k < capacity) ∧
      ∀ h', (call.run a).run h = some ((), h') → TableSafe a capacity calls h' := by
  constructor
  · intro hs
    refine ⟨hs.call [] call (by simp) h rfl, hs.loop [] (List.nil_prefix) h rfl, fun h' hrun => ⟨?_, ?_⟩⟩
    · intro pre c hpre h'' hrun'
      exact hs.call (call :: pre) c (List.cons_prefix_cons.mpr ⟨rfl, hpre⟩) h''
        ((runOps_cons _ _ _ _).mpr ⟨(), h', hrun, hrun'⟩)
    · intro pre hpre h'' hrun'
      exact hs.loop (call :: pre) (List.cons_prefix_cons.mpr ⟨rfl, hpre⟩) h''
        ((runOps_cons _ _ _ _).mpr ⟨(), h', hrun, hrun'⟩)
  · rintro ⟨hcall, hloop, hrest⟩
    refine ⟨fun pre c hpre h'' hrun => ?_, fun pre hpre h'' hrun => ?_⟩
    · cases pre with
      | nil =>
        rw [List.nil_append, List.cons_prefix_cons] at hpre
        rw [runOps_nil] at hrun
        cases hrun
        exact hpre.1 ▸ hcall
      | cons d pre =>
        rw [List.cons_append, List.cons_prefix_cons] at hpre
        obtain ⟨rfl, hpre⟩ := hpre
        obtain ⟨⟨⟩, h', hfirst, hrun⟩ := (runOps_cons _ _ _ _).mp hrun
        exact (hrest h' hfirst).call pre c hpre h'' hrun
    · cases pre with
      | nil =>
        rw [runOps_nil] at hrun
        cases hrun
        exact hloop
      | cons d pre =>
        obtain ⟨rfl, hpre'⟩ := List.cons_prefix_cons.mp hpre
        obtain ⟨⟨⟩, h', hfirst, hrun⟩ := (runOps_cons _ _ _ _).mp hrun
        exact (hrest h' hfirst).loop pre hpre' h'' hrun

/-- **Runs of calls.** The table is safe exactly as long as there is room for all that is taken. -/
theorem Counts.safe_iff (hc : Counts a capacity n h) (hcap : capacity < 2 ^ 32) :
    TableSafe a capacity calls h ↔ n + regionsTaken a calls h ≤ capacity := by
  induction calls generalizing h n with
  | nil =>
    refine iff_of_true ⟨fun pre c hpre => ?_, fun pre hpre h' hrun k hk => ?_⟩ hc.bound
    · exact absurd (List.prefix_nil.mp hpre) (by simp)
    · rw [List.prefix_nil.mp hpre, runOps_nil] at hrun
      cases hrun
      exact (hc.loop.mp hk).trans_le hc.bound
  | cons call calls ih =>
    have hloop : ∀ k, LoopAccesses a h k → k < capacity := fun k hk => (hc.loop.mp hk).trans_le hc.bound
    have hcall : (∀ k, call.Accesses a h k → k < capacity) ↔ n + (if call.Takes h then 1 else 0) ≤ capacity := by
      simp only [hc.accesses, and_imp]
      by_cases ht : call.Takes h
      · rw [if_pos ht]
        exact ⟨fun hk => hk n ht rfl, fun hle k _ hk => hk ▸ hle⟩
      · rw [if_neg ht]
        exact iff_of_true (fun k hk => absurd hk ht) hc.bound
    rw [tableSafe_cons, hcall, and_iff_right hloop, regionsTaken]
    cases hrun : (call.run a).run h with
    | none => simp
    | some p =>
      obtain ⟨⟨⟩, h'⟩ := p
      have hc' := hc.step hcap call () h' hrun
      constructor
      · rintro ⟨-, hrest⟩
        have := (ih hc').mp (hrest h' rfl)
        exact (Nat.add_assoc _ _ _).symm.trans_le this
      · intro hle
        rw [← Nat.add_assoc] at hle
        refine ⟨(Nat.le_add_right _ _).trans hle, ?_⟩
        rintro _ ⟨⟩
        exact (ih hc').mpr hle

/-- **The region table.** After a creation, in any state that calls of the hypervisor lead to, no access to the
table is out of bounds during a sequence of allocations, or in a checkpoint or a destruction on the way, if and
only if at most `memory_region_count` of them get the memory they ask for. -/
theorem region_table_iff {h₀ h₁ h₂ : Host} (hboot : Boot h₀) {pre : List HvOp}
    (hpre : (runOps HvOp.run pre).run h₀ = some ((), h₁)) {config : VmConfig} {vm : Addr}
    (hcreate : (vmCreate (some config)).run h₁ = some (.ok vm, h₂)) (calls : List AllocCall) :
    TableSafe vm config.memoryRegionCount.toNat calls h₂ ↔
      regionsTaken vm calls h₂ ≤ config.memoryRegionCount.toNat := by
  have hi := hvInv_run hboot hpre
  obtain ⟨xs, hr⟩ := hi.listed
  obtain ⟨v, h, name, hid, -, -, hregs, hb, rfl⟩ :=
    vmCreate_spec hi.good.layout hr.first_ne config _ _ hcreate
  have hc : Counts vm config.memoryRegionCount.toNat 0 (h.linkVm vm v) := by
    refine ⟨⟨{ v with next := h.hv.vms, state := .initialized }, if_pos rfl, ?_, ?_⟩, Nat.zero_le _⟩
    · simp [hregs]
    · simp [hid.memoryRegionCount, newVm]
  rw [hc.safe_iff config.memoryRegionCount.toNat_lt, Nat.zero_add]

theorem region_table_iff_one_region : ∃ h₂,
    (vmCreate (some { vcpuCount := 1, memoryRegionCount := 1 })).run (bootHost 1 .intel) = some (.ok 16384, h₂) ∧
    TableSafe 16384 1 [⟨0, 4096, .ram⟩] h₂ := by
  have hdec : (((vmCreate (some { vcpuCount := 1, memoryRegionCount := 1 })).run (bootHost 1 .intel)).any fun p =>
      p.1.toOption == some 16384 && regionsTaken 16384 [⟨0, 4096, .ram⟩] p.2 ≤ 1) = true := by decide +kernel
  obtain ⟨⟨r, h₂⟩, hcreate, hp⟩ := (Option.any_eq_true _ _).mp hdec
  rw [Bool.and_eq_true, beq_iff_eq, decide_eq_true_iff] at hp
  obtain ⟨hr, hp⟩ := hp
  obtain rfl : r = .ok 16384 := by
    cases r with
    | error e => cases hr
    | ok vm => cases hr; rfl
  exact ⟨h₂, hcreate, (region_table_iff (boot_bootHost (by decide) .intel)
    (runOps_nil HvOp.run (bootHost 1 .intel)) hcreate _).mpr hp⟩

/-- **A VM without room for regions gets one**: a creation without regions, then one allocation. -/
theorem region_table_overrun : ∃ h₂,
    (vmCreate (some { vcpuCount := 1 })).run (bootHost 1 .intel) = some (.ok 16384, h₂) ∧
    ¬ TableSafe 16384 0 [⟨0, 4096, .ram⟩] h₂ ∧ (vmAllocMemory (some 16384) 0 4096 .ram).run h₂ = none := by
  have hdec : (((vmCreate (some { vcpuCount := 1 })).run (bootHost 1 .intel)).any fun p =>
      p.1.toOption == some 16384 && (AllocCall.mk 0 4096 .ram).Takes p.2 &&
        (p.2.vms 16384).any fun v => v.memoryRegionCount == 0 && v.memoryRegions.isEmpty) = true := by decide +kernel
  obtain ⟨⟨r, h₂⟩, hcreate, hp⟩ := (Option.any_eq_true _ _).mp hdec
  rw [Bool.and_eq_true, Bool.and_eq_true, beq_iff_eq, decide_eq_true_iff] at hp
  obtain ⟨⟨hr, ht⟩, hv⟩ := hp
  obtain ⟨v, hv, hp⟩ := (Option.any_eq_true _ _).mp hv
  rw [Bool.and_eq_true, beq_iff_eq, List.isEmpty_iff] at hp
  obtain rfl : r = .ok 16384 := by
    cases r with
    | error e => cases hr
    | ok vm => cases hr; rfl
  refine ⟨h₂, hcreate, fun hs => ?_, vmAllocMemory_overrun hv ht (by simp [hp])⟩
  exact absurd (hs.call [] _ (List.prefix_refl _) h₂ rfl 0
    ((AllocCall.accesses_iff hv _).mpr ⟨ht, by simp [hp.1]⟩)) (lt_irrefl 0)

end Runs

end NexusVM
