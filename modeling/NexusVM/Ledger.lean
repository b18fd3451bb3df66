import NexusVM.Lib.Ledger
import NexusVM.Destruction
import Mathlib.Tactic.Abel

/-!
# What VMs owe the heap

The blocks that a VM and its vCPUs hold, followed through creation and destruction.

* `vendorBlocks`, `vcpuKeys`, `vmKeys`: the blocks that `vcpu_destroy` and the end of `vm_destroy` find
  from the records;
* `vcpuCreate_owes`, `vcpuDestroy_owes`: a vCPU that was created owes its blocks, one that was destroyed
  or could not be created owes nothing;
* **`createVcpus_owes`**, `destroyVcpus_owes`: the loops over the vCPUs;
* `vmPrepare_owes`, `vmAbandon_owes`, `vmBuild_owes`: the blocks of the VM itself.
-/

namespace NexusVM

open Prog

variable {g : Heap BlockKind} {ks : Multiset (BlockKind × Addr)} {h : Host} {c vm : Addr}
  {u : Nexusvcpu}

/-! ## Requests and frees -/

theorem alignedAlloc_owes (ho : g.Owes h.mem.heap ks) (kind : BlockKind) (align size : ℕ) :
    wp (onMem (alignedAlloc kind align size)) (fun p h' => ∃ m, h' = h.setMem m ∧
      g.Owes m.heap (named kind p + ks)) h := by
  rw [wp_onMem, alignedAlloc, onHeap, wp_zoom]
  exact wp_mono (Heap.wp_alloc_owes ho kind align size) fun _ _ ho => ⟨_, rfl, ho⟩

theorem calloc_owes (ho : g.Owes h.mem.heap ks) (kind : BlockKind) (count size : ℕ) :
    wp (calloc kind count size) (fun p h' => ∃ m, h' = h.setMem m ∧
      g.Owes m.heap (named kind p + ks)) h :=
  alignedAlloc_owes ho kind 16 (count * size)

theorem freeBuffer_owes {kind : BlockKind} {p : Option Addr}
    (ho : g.Owes h.mem.heap (named kind p + ks)) : wp (freeBuffer kind p) (fun _ h' => ∃ m,
      h' = h.setMem m ∧ g.Owes m.heap ks) h := by
  cases p with
  | none =>
    rw [wp_freeBuffer_none]
    rw [named_none, zero_add] at ho
    exact ⟨h.mem, rfl, ho⟩
  | some a =>
    rw [wp_freeBuffer_some]
    exact ⟨_, rfl, ho.release⟩

theorem eptFreeRoot_owes {p : Option Addr} (ho : g.Owes h.mem.heap (named .pages p + ks)) :
    wp (onMem (eptFreeRoot p)) (fun _ h' => ∃ m, h' = h.setMem m ∧ g.Owes m.heap ks) h := by
  cases p with
  | none =>
    rw [eptFreeRoot, eptFreePages, wp_onMem, wp_pure]
    rw [named_none, zero_add] at ho
    exact ⟨h.mem, rfl, ho⟩
  | some a =>
    rw [eptFreeRoot, eptFreePages, wp_onMem, freeBlock, wp_modify]
    exact ⟨_, rfl, ho.release⟩

theorem eptAllocRoot_owes (ho : g.Owes h.mem.heap ks) :
    wp (onMem eptAllocRoot) (fun p h' => ∃ m, h' = h.setMem m ∧
      g.Owes m.heap (named .pages p + ks)) h := by
  rw [wp_onMem]
  refine wp_mono (eptAllocRoot_spec h.mem) ?_
  rintro (_ | root) m hm
  · obtain rfl := hm
    refine ⟨_, rfl, ?_⟩
    rw [named_none, zero_add]
    exact ho.refuse
  · obtain ⟨-, rfl⟩ := hm
    exact ⟨_, rfl, ho.grant (tablePage root)⟩

/-! ## vCPUs -/

/-- The blocks that the vendor module keeps for a vCPU. -/
def vendorBlocks (vendor : CpuVendor) (u : Nexusvcpu) : List (BlockKind × Option Addr) :=
  match vendor with
  | .intel => [(.vmcsRegion, u.vmxVmcsRegion), (.vmxonRegion, u.vmxOnRegion)]
  | .amd => [(.vmcb, u.vmcb)]
  | .unknown => []

/-- The bitmaps and the vCPU itself. -/
def coreBlocks (c : Addr) (u : Nexusvcpu) : List (BlockKind × Option Addr) :=
  [(.msrBitmap, u.msrBitmap), (.ioBitmap, u.ioBitmapA), (.ioBitmap, u.ioBitmapB), (.vcpu, some c)]

/-- The blocks of a vCPU. -/
def vcpuKeys (vendor : CpuVendor) (c : Addr) (u : Nexusvcpu) : Multiset (BlockKind × Addr) :=
  pointers (vendorBlocks vendor u) + pointers (coreBlocks c u)

theorem setVcpu_setMem_self (hu : h.vcpus c = some u) (m : PhysMem) :
    h.setMem m = (h.setMem m).setVcpu c (some u) := by
  simp only [Host.setVcpu, Host.setMem, ← hu, Function.update_eq_self]

theorem vcpuVendorInit_owes (hinit : h.gInitialized = true) (hu : h.vcpus c = some u)
    (ho : g.Owes h.mem.heap ks) :
    wp (vcpuVendorInit c) (fun r h' => ∃ m u', h' = (h.setMem m).setVcpu c (some u') ∧
      coreBlocks c u' = coreBlocks c u ∧ u'.running = u.running ∧
      (r = .ok ∧ g.Owes m.heap (pointers (vendorBlocks h.hv.cpuVendor u') + ks) ∨
        r = .errNoMemory ∧ g.Owes m.heap ks)) h := by
  simp only [vcpuVendorInit, wp_bind, wp_getHv]
  refine ⟨hinit, ?_⟩
  cases hvendor : h.hv.cpuVendor with
  | intel =>
    simp only [vmxVcpuInit, wp_bind, wp_getHv]
    refine ⟨hinit, wp_mono (alignedAlloc_owes ho _ _ _) ?_⟩
    rintro (_ | region) _ ⟨m₁, rfl, ho₁⟩
    · rw [wp_pure]
      rw [named_none, zero_add] at ho₁
      exact ⟨m₁, u, setVcpu_setMem_self hu m₁, rfl, rfl, .inr ⟨rfl, ho₁⟩⟩
    simp only [wp_bind, wp_getVcpu, wp_putVcpu]
    refine ⟨u, hu, wp_mono (alignedAlloc_owes (h := (h.setMem m₁).setVcpu c _) ho₁ _ _ _) ?_⟩
    rintro (_ | vmcs) _ ⟨m₂, rfl, ho₂⟩
    · rw [named_none, zero_add] at ho₂
      simp only [wp_bind]
      refine wp_mono (freeBuffer_owes ho₂) ?_
      rintro _ _ ⟨m₃, rfl, ho₃⟩
      rw [wp_pure]
      exact ⟨m₃, _, rfl, rfl, rfl, .inr ⟨rfl, ho₃⟩⟩
    · simp only [wp_bind, wp_getVcpu, wp_putVcpu, wp_pure, Host.setVcpu_setMem, Host.setMem_setMem,
        Host.setVcpu_setVcpu]
      refine ⟨_, Host.setVcpu_self _ _ _, m₂, _, rfl, rfl, rfl, .inl ⟨trivial, ho₂.congr ?_⟩⟩
      simp only [vendorBlocks, pointers_cons, pointers_nil, add_zero, add_assoc]
  | amd =>
    simp only [svmVcpuInit, wp_bind]
    refine wp_mono (alignedAlloc_owes ho _ _ _) ?_
    rintro (_ | vmcb) _ ⟨m₁, rfl, ho₁⟩
    · rw [wp_pure]
      rw [named_none, zero_add] at ho₁
      exact ⟨m₁, u, setVcpu_setMem_self hu m₁, rfl, rfl, .inr ⟨rfl, ho₁⟩⟩
    · simp only [wp_bind, wp_getVcpu, wp_putVcpu, wp_pure]
      refine ⟨u, hu, m₁, _, rfl, rfl, rfl, .inl ⟨trivial, ho₁.congr ?_⟩⟩
      simp only [vendorBlocks, pointers_cons, pointers_nil, add_zero]
  | unknown =>
    rw [wp_pure]
    refine ⟨h.mem, u, setVcpu_setMem_self hu h.mem, rfl, rfl, .inl ⟨rfl, ho.congr ?_⟩⟩
    rw [vendorBlocks, pointers_nil, zero_add]

theorem freeVcpuBuffers_owes (hu : h.vcpus c = some u)
    (ho : g.Owes h.mem.heap (pointers (coreBlocks c u) + ks)) :
    wp (freeVcpuBuffers c) (fun _ h' => ∃ m, h' = (h.setMem m).setVcpu c none ∧ g.Owes m.heap ks) h := by
  simp only [coreBlocks, pointers_cons, pointers_nil, add_zero, add_assoc] at ho
  simp only [freeVcpuBuffers, wp_bind, wp_getVcpu]
  refine ⟨u, hu, wp_mono (freeBuffer_owes ho) ?_⟩
  rintro _ _ ⟨m₁, rfl, ho₁⟩
  refine wp_mono (freeBuffer_owes ho₁) ?_
  rintro _ _ ⟨m₂, rfl, ho₂⟩
  refine wp_mono (freeBuffer_owes ho₂) ?_
  rintro _ _ ⟨m₃, rfl, ho₃⟩
  rw [wp_freeVcpu]
  exact ⟨_, rfl, ho₃.release⟩

/-- **`vcpu_create`** owes the blocks of the new vCPU, or nothing if it failed. -/
theorem vcpuCreate_owes (hinit : h.gInitialized = true) (hcpus : h.hv.onlineCpuCount ≠ 0)
    (ho : g.Owes h.mem.heap ks) (vm : Addr) (i : UInt32) :
    wp (vcpuCreate vm i) (fun r h' =>
      (r = .error .errNoMemory ∧ g.Owes h'.mem.heap ks) ∨ ∃ c u, r = .ok c ∧ h'.vcpus c = some u ∧
        g.Owes h'.mem.heap (vcpuKeys h.hv.cpuVendor c u + ks)) h := by
  rw [vcpuCreate, wp_bind]
  refine wp_mono (calloc_owes ho _ _ _) ?_
  rintro (_ | c) _ ⟨m₁, rfl, ho₁⟩
  · rw [wp_pure]
    rw [named_none, zero_add] at ho₁
    exact .inl ⟨rfl, ho₁⟩
  simp only [wp_bind, wp_getHv, wp_require, wp_putVcpu]
  refine ⟨hinit, hcpus, wp_mono (calloc_owes (h := (h.setMem m₁).setVcpu c _) ho₁ _ _ _) ?_⟩
  rintro (_ | msrBitmap) _ ⟨m₂, rfl, ho₂⟩
  · simp only [wp_bind, wp_freeVcpu, wp_pure]
    rw [named_none, zero_add] at ho₂
    exact .inl ⟨trivial, ho₂.release⟩
  simp only [wp_bind]
  refine wp_mono (calloc_owes ho₂ _ _ _) ?_
  rintro ioA _ ⟨m₃, rfl, ho₃⟩
  refine wp_mono (calloc_owes ho₃ _ _ _) ?_
  rintro ioB _ ⟨m₄, rfl, ho₄⟩
  simp only [wp_getVcpu, wp_putVcpu, Host.setVcpu_setMem, Host.setMem_setMem, Host.setVcpu_setVcpu]
  refine ⟨_, Host.setVcpu_self _ _ _, ?_⟩
  have ho₅ : g.Owes m₄.heap (pointers [(.msrBitmap, some msrBitmap), (.ioBitmap, ioA),
      (.ioBitmap, ioB), (.vcpu, some c)] + ks) := by
    refine ho₄.congr ?_
    simp only [pointers_cons, pointers_nil]
    abel
  -- every failure from here on gives back what the vCPU has so far
  have hfail : ∀ (m : PhysMem) (w : Nexusvcpu), g.Owes m.heap (pointers (coreBlocks c w) + ks) →
      wp (do
        freeVcpuBuffers c
        return (Except.error Result.errNoMemory : Except Result Addr)) (fun r h' =>
          (r = .error .errNoMemory ∧ g.Owes h'.mem.heap ks) ∨ ∃ c u, r = .ok c ∧
            h'.vcpus c = some u ∧ g.Owes h'.mem.heap (vcpuKeys h.hv.cpuVendor c u + ks))
        ((h.setMem m).setVcpu c (some w)) := by
    intro m w how
    rw [wp_bind]
    refine wp_mono (freeVcpuBuffers_owes (Host.setVcpu_self _ c _) how) ?_
    rintro _ _ ⟨m', rfl, ho'⟩
    rw [wp_pure]
    exact .inl ⟨rfl, ho'⟩
  refine wp_ite (fun _ => hfail m₄ _ ho₅) fun _ => ?_
  rw [wp_bind]
  refine wp_mono (vcpuVendorInit_owes hinit (Host.setVcpu_self _ _ _) ho₅) ?_
  rintro r _ ⟨m, w, rfl, hcore, -, ⟨rfl, how⟩ | ⟨rfl, how⟩⟩
  · rw [if_neg (by simp), wp_pure]
    refine .inr ⟨c, w, rfl, Host.setVcpu_self _ _ _, how.congr ?_⟩
    rw [vcpuKeys, hcore, add_assoc]
    rfl
  · rw [if_pos (by simp), Host.setVcpu_setMem, Host.setMem_setMem, Host.setVcpu_setVcpu]
    refine hfail m w ?_
    rw [hcore]
    exact how

/-- **`vcpu_destroy`** gives back the blocks of a vCPU that does not run. -/
theorem vcpuDestroy_owes (hinit : h.gInitialized = true) (hu : h.vcpus c = some u)
    (hstopped : u.running = false) (ho : g.Owes h.mem.heap (vcpuKeys h.hv.cpuVendor c u + ks)) :
    wp (vcpuDestroy (some c)) (fun _ h' => g.Owes h'.mem.heap ks) h := by
  simp only [vcpuDestroy, wp_bind, wp_getVcpu, wp_when]
  refine ⟨u, hu, fun hrun => absurd (hstopped ▸ hrun) Bool.false_ne_true, fun _ => ?_⟩
  rw [vcpuKeys, add_assoc] at ho
  have hvendor : wp (vcpuVendorCleanup c) (fun _ h' => ∃ m u', h' = (h.setMem m).setVcpu c (some u') ∧
      coreBlocks c u' = coreBlocks c u ∧ g.Owes m.heap (pointers (coreBlocks c u) + ks)) h := by
    simp only [vcpuVendorCleanup, wp_bind, wp_getHv]
    refine ⟨hinit, ?_⟩
    cases hvendor : h.hv.cpuVendor with
    | intel =>
      simp only [hvendor, vendorBlocks, pointers_cons, pointers_nil, add_zero, add_assoc] at ho
      simp only [vmxVcpuCleanup, wp_bind, wp_getVcpu]
      refine ⟨u, hu, wp_mono (freeBuffer_owes ho) ?_⟩
      rintro _ _ ⟨m₁, rfl, ho₁⟩
      refine wp_mono (freeBuffer_owes ho₁) ?_
      rintro _ _ ⟨m₂, rfl, ho₂⟩
      rw [wp_putVcpu]
      exact ⟨m₂, _, rfl, rfl, ho₂⟩
    | amd =>
      simp only [hvendor, vendorBlocks, pointers_cons, pointers_nil, add_zero] at ho
      simp only [svmVcpuCleanup, wp_bind, wp_getVcpu]
      refine ⟨u, hu, wp_mono (freeBuffer_owes ho) ?_⟩
      rintro _ _ ⟨m₁, rfl, ho₁⟩
      rw [wp_putVcpu]
      exact ⟨m₁, _, rfl, rfl, ho₁⟩
    | unknown =>
      rw [hvendor, vendorBlocks, pointers_nil, zero_add] at ho
      rw [wp_pure]
      exact ⟨h.mem, u, setVcpu_setMem_self hu h.mem, rfl, ho⟩
  refine wp_mono hvendor ?_
  rintro _ _ ⟨m, u', rfl, hcore, ho'⟩
  rw [← hcore] at ho'
  refine wp_mono (freeVcpuBuffers_owes (Host.setVcpu_self _ _ _) ho') ?_
  rintro _ _ ⟨m', rfl, ho''⟩
  rw [wp_pure]
  exact ho''

/-! ## The vCPUs of a VM -/

/-- The blocks of the vCPU at `c`. -/
def Host.vcpuKeys (h : Host) (c : Addr) : Multiset (BlockKind × Addr) :=
  match h.vcpus c with
  | none => 0
  | some u => NexusVM.vcpuKeys h.hv.cpuVendor c u

/-- The blocks of some vCPUs. -/
def Host.vcpusKeys (h : Host) (cs : List Addr) : Multiset (BlockKind × Addr) :=
  (cs.map h.vcpuKeys).sum

theorem Host.vcpuKeys_some (hu : h.vcpus c = some u) :
    h.vcpuKeys c = NexusVM.vcpuKeys h.hv.cpuVendor c u := by
  rw [Host.vcpuKeys, hu]

theorem Host.vcpusKeys_congr {h' : Host} {cs : List Addr}
    (hcs : ∀ c ∈ cs, h'.vcpus c = h.vcpus c) (hvendor : h'.hv.cpuVendor = h.hv.cpuVendor) :
    h'.vcpusKeys cs = h.vcpusKeys cs := by
  refine congrArg List.sum (List.map_congr_left fun c hc => ?_)
  rw [Host.vcpuKeys, Host.vcpuKeys, hcs c hc, hvendor]

theorem Host.vcpusKeys_snoc {h' : Host} {cs : List Addr} (hcs : ∀ d ∈ cs, h'.vcpus d = h.vcpus d)
    (hvendor : h'.hv.cpuVendor = h.hv.cpuVendor) (hu : h'.vcpus c = some u) :
    h'.vcpusKeys (cs ++ [c]) = NexusVM.vcpuKeys h.hv.cpuVendor c u + h.vcpusKeys cs := by
  rw [← Host.vcpusKeys_congr hcs hvendor, ← hvendor, ← Host.vcpuKeys_some hu, Host.vcpusKeys,
    List.map_append, List.sum_append, List.map_singleton, List.sum_singleton, add_comm]
  rfl

/-- **The loop over the vCPUs of `vm_destroy`**, and of a `vm_create` that failed. -/
theorem destroyVcpus_owes {cs : List Addr} (hinit : h.gInitialized = true) (hnd : cs.Nodup)
    (hcs : ∀ c ∈ cs, ∃ u, h.vcpus c = some u ∧ u.running = false)
    (ho : g.Owes h.mem.heap (h.vcpusKeys cs + ks)) :
    wp (forEach (fun c => discard (vcpuDestroy (some c))) cs) (fun _ h' => g.Owes h'.mem.heap ks) h := by
  induction cs generalizing h with
  | nil =>
    rw [forEach, wp_pure]
    exact ho.congr (zero_add _).symm
  | cons c cs ih =>
    obtain ⟨hc, hnd⟩ := List.nodup_cons.mp hnd
    obtain ⟨⟨u, hu, hstopped⟩, hcs⟩ := List.forall_mem_cons.mp hcs
    have ho' : g.Owes h.mem.heap (NexusVM.vcpuKeys h.hv.cpuVendor c u + (h.vcpusKeys cs + ks)) := by
      refine ho.congr ?_
      rw [← Host.vcpuKeys_some hu, ← add_assoc]
      rfl
    rw [forEach, wp_bind, wp_discard]
    refine wp_mono (wp_and (vcpuDestroy_spec hinit hu hstopped)
      (vcpuDestroy_owes hinit hu hstopped ho')) ?_
    rintro _ _ ⟨⟨m, rfl, -⟩, ho''⟩
    have hothers : ∀ d ∈ cs, ((h.setMem m).setVcpu c none).vcpus d = h.vcpus d := by
      intro d hd
      refine Function.update_of_ne ?_ _ _
      rintro rfl
      exact hc hd
    refine ih hinit hnd (fun d hd => ?_) (ho''.congr ?_)
    · rw [hothers d hd]
      exact hcs d hd
    · rw [Host.vcpusKeys_congr hothers rfl]

section Builds

variable {h₀ : Host} {v : Nexusvm} (hinit : h₀.gInitialized = true)
  (hcpus : h₀.hv.onlineCpuCount ≠ 0) (hnone : ∀ c, Fresh h₀.mem c → h₀.vcpus c = none)

include hinit hcpus hnone

/-- **The loop over the vCPUs of `vm_create`** owes the blocks of all vCPUs, or nothing if it failed. -/
theorem createVcpus_owes {n : ℕ} {i : UInt32} (hb : Builds vm h₀ v v.vcpus h)
    (ho : g.Owes h.mem.heap (h.vcpusKeys v.vcpus + ks)) :
    wp (createVcpus vm n i) (fun r h' => ∃ w, h'.vms vm = some w ∧ vmBlocks vm w = vmBlocks vm v ∧
      (r = .ok ∧ g.Owes h'.mem.heap (h'.vcpusKeys w.vcpus + ks) ∨
        r = .errNoMemory ∧ g.Owes h'.mem.heap ks)) h := by
  induction n generalizing i v h with
  | zero =>
    rw [createVcpus, wp_pure]
    exact ⟨v, hb.getVm, rfl, .inl ⟨rfl, ho⟩⟩
  | succ n ih =>
    have hnone' : ∀ c, Fresh h.mem c → h.vcpus c = none := by
      intro c hc
      by_cases hmem : c ∈ v.vcpus
      · obtain ⟨u, -, -, b, hbl, -, hbase⟩ := hb.new c hmem
        exact absurd hbase (hc b hbl)
      · rw [hb.others c hmem]
        exact hnone c (hb.alloc.fresh hc)
    have hinit' : h.gInitialized = true := by
      rw [hb.shape]
      exact hinit
    have hcpus' : h.hv.onlineCpuCount ≠ 0 := by
      rw [hb.shape]
      exact hcpus
    rw [createVcpus, wp_bind]
    refine wp_mono (wp_and (vcpuCreate_spec hinit' hcpus' hnone' vm i)
      (vcpuCreate_owes hinit' hcpus' ho vm i)) ?_
    rintro (e | c) h₁ ⟨⟨m, ha, hr⟩, ho₁⟩
    · obtain ⟨-, rfl⟩ := hr
      rcases ho₁ with ⟨he, ho₁⟩ | ⟨_, _, hc, -⟩
      swap
      · cases hc
      cases he
      have hb' := hb.setMem ha
      have hstopped : ∀ c ∈ v.vcpus, ∃ u, (h.setMem m).vcpus c = some u ∧ u.running = false := by
        intro c hc
        obtain ⟨u, hu, hnew, -⟩ := hb'.new c hc
        exact ⟨u, hu, hnew.running⟩
      simp only [wp_bind, wp_getVm]
      refine ⟨v, hb'.getVm, wp_mono (wp_and (destroyAll_spec hinit hnone hb')
        (destroyVcpus_owes hinit' hb'.nodup hstopped ho₁)) ?_⟩
      rintro _ h' ⟨hb'', ho'⟩
      rw [wp_pure]
      exact ⟨v, hb''.getVm, rfl, .inr ⟨rfl, ho'⟩⟩
    · obtain ⟨u, rfl, hnew, hheld⟩ := hr
      rcases ho₁ with ⟨hc, -⟩ | ⟨_, w, hc, hw, ho₁⟩
      · cases hc
      cases hc
      have hfresh : Fresh h.mem c := hnew.blocks (.vcpu, some c) (by simp [vcpuBlocks]) c rfl
      have hb' := hb.addVcpu ha hnew hheld (hnone' c hfresh)
      have hc : c ∉ v.vcpus := fun hmem => (List.nodup_append.mp hb'.nodup).2.2 c hmem c (by simp) rfl
      obtain rfl : u = w := Option.some.inj ((Host.setVcpu_self _ _ _).symm.trans hw)
      simp only [wp_bind, wp_getVm, wp_putVm]
      refine ⟨v, hb.getVm, wp_mono (ih hb' ?_) fun _ _ hres => hres⟩
      have hothers : ∀ d ∈ v.vcpus, ((h.setMem m).setVcpu c (some u)).vcpus d = h.vcpus d := by
        intro d hd
        refine Function.update_of_ne ?_ _ _
        rintro rfl
        exact hc hd
      have hvendor : ((h.setMem m).setVcpu c (some u)).hv.cpuVendor = h.hv.cpuVendor := rfl
      have hkeys := Host.vcpusKeys_snoc hothers hvendor hw
      refine ho₁.congr ?_
      rw [← add_assoc]
      exact congrArg (· + ks) hkeys

end Builds

/-! ## The VM itself -/

/-- The blocks of a VM, its vCPUs excepted. -/
def vmKeys (vm : Addr) (v : Nexusvm) : Multiset (BlockKind × Addr) := pointers (vmBlocks vm v)

/-- **A VM is given up.** -/
theorem vmAbandon_owes {v : Nexusvm} (hv : h.vms vm = some v)
    (ho : g.Owes h.mem.heap (vmKeys vm v + ks)) :
    wp (vmAbandon vm) (fun _ h' => g.Owes h'.mem.heap ks) h := by
  simp only [vmKeys, vmBlocks, pointers_cons, pointers_nil, add_zero, add_assoc] at ho
  simp only [vmAbandon, wp_bind, wp_getVm]
  refine ⟨v, hv, wp_mono (freeBuffer_owes ho) ?_⟩
  rintro _ _ ⟨m₁, rfl, ho₁⟩
  rw [add_left_comm] at ho₁
  refine wp_mono (freeBuffer_owes ho₁) ?_
  rintro _ _ ⟨m₂, rfl, ho₂⟩
  refine wp_mono (eptFreeRoot_owes ho₂) ?_
  rintro _ _ ⟨m₃, rfl, ho₃⟩
  refine wp_mono (freeBuffer_owes ho₃) ?_
  rintro _ _ ⟨m₄, rfl, ho₄⟩
  rw [wp_freeVm]
  exact ho₄.release

theorem vmAllocRegions_owes {v : Nexusvm} {config : VmConfig} (hv : h.vms vm = some v)
    (hregions : v.regionTable = none) (ho : g.Owes h.mem.heap (vmKeys vm v + ks)) :
    wp (vmAllocRegions vm config) (fun r h' => ∃ w, h'.vms vm = some w ∧
      w.eptRoot = v.eptRoot ∧ w.eptPointer = v.eptPointer ∧ w.vcpuTable = v.vcpuTable ∧
      (r = .ok ∨ r = .errNoMemory) ∧ g.Owes h'.mem.heap (vmKeys vm w + ks)) h := by
  refine wp_ite (fun _ => ?_) fun _ => ?_
  · rw [wp_bind]
    refine wp_mono (calloc_owes ho _ _ _) ?_
    rintro (_ | regions) _ ⟨m, rfl, ho'⟩
    · rw [wp_pure]
      rw [named_none, zero_add] at ho'
      exact ⟨v, hv, rfl, rfl, rfl, .inr rfl, ho'⟩
    · simp only [wp_bind, wp_getVm, wp_putVm, wp_pure]
      refine ⟨v, hv, _, Host.setVm_self _ _ _, rfl, rfl, rfl, .inl trivial, ho'.congr ?_⟩
      simp only [vmKeys, vmBlocks, pointers_cons, pointers_nil, hregions, named_none]
      abel
  · rw [wp_pure]
    exact ⟨v, hv, rfl, rfl, rfl, .inl rfl, ho⟩

/-- **The blocks of the VM itself.** -/
theorem vmPrepare_owes {v : Nexusvm} {config : VmConfig} (hv : h.vms vm = some v)
    (hregions : v.regionTable = none) (hroot : v.eptRoot = none) (heptp : v.eptPointer = none)
    (hvcpus : v.vcpuTable = none) (ho : g.Owes h.mem.heap (vmKeys vm v + ks)) :
    wp (vmPrepare vm config) (fun r h' => ∃ w, h'.vms vm = some w ∧ (r = .ok ∨ r = .errNoMemory) ∧
      g.Owes h'.mem.heap (vmKeys vm w + ks)) h := by
  rw [vmPrepare, wp_bind]
  refine wp_mono (vmAllocRegions_owes hv hregions ho) ?_
  rintro r h₁ ⟨w, hw, hwroot, hweptp, hwvcpus, hr, ho₁⟩
  refine wp_ite (fun _ => ?_) fun _ => ?_
  · rw [wp_pure]
    exact ⟨w, hw, hr, ho₁⟩
  rw [wp_bind]
  refine wp_mono (eptAllocRoot_owes ho₁) ?_
  rintro (_ | root) _ ⟨m₂, rfl, ho₂⟩
  · rw [wp_pure]
    rw [named_none, zero_add] at ho₂
    exact ⟨w, hw, .inr rfl, ho₂⟩
  have ho₂' : g.Owes m₂.heap (vmKeys vm { w with eptRoot := some root } + ks) := by
    refine ho₂.congr ?_
    simp only [vmKeys, vmBlocks, pointers_cons, pointers_nil, hwroot, hroot, named_none]
    abel
  simp only [wp_bind, wp_getVm, wp_putVm]
  refine ⟨w, hw, wp_mono (calloc_owes (h := (h₁.setMem m₂).setVm vm _) ho₂' _ _ _) ?_⟩
  rintro (_ | eptp) _ ⟨m₃, rfl, ho₃⟩
  · rw [wp_pure]
    rw [named_none, zero_add] at ho₃
    exact ⟨_, Host.setVm_self _ _ _, .inr rfl, ho₃⟩
  have ho₃' : g.Owes m₃.heap (vmKeys vm { w with
      eptRoot := some root, eptPointer := some eptp, eptp := makeEptp root } + ks) := by
    refine ho₃.congr ?_
    simp only [vmKeys, vmBlocks, pointers_cons, pointers_nil, hweptp, heptp, named_none]
    abel
  simp only [wp_bind, wp_getVm, wp_putVm]
  refine ⟨_, Host.setVm_self _ _ _,
    wp_mono (calloc_owes (h := (((h₁.setMem m₂).setVm vm _).setMem m₃).setVm vm _) ho₃' _ _ _) ?_⟩
  rintro (_ | vcpus) _ ⟨m₄, rfl, ho₄⟩
  · rw [wp_pure]
    rw [named_none, zero_add] at ho₄
    exact ⟨_, Host.setVm_self _ _ _, .inr rfl, ho₄⟩
  simp only [wp_bind, wp_getVm, wp_putVm, wp_pure]
  refine ⟨_, Host.setVm_self _ _ _, _, Host.setVm_self _ _ _, .inl trivial, ho₄.congr ?_⟩
  simp only [vmKeys, vmBlocks, pointers_cons, pointers_nil, hwvcpus, hvcpus, named_none]
  abel

/-- **The allocations of `vm_create`** owe the blocks of the VM, and those of its vCPUs if all of them
were made. -/
theorem vmBuild_owes {h₀ : Host} {v : Nexusvm} {config : VmConfig} (hinit : h₀.gInitialized = true)
    (hcpus : h₀.hv.onlineCpuCount ≠ 0) (hnone : ∀ c, Fresh h₀.mem c → h₀.vcpus c = none)
    (hb : Builds vm h₀ v [] h) (hv : v.vcpus = []) (hregs : v.memoryRegions = [])
    (hregions : v.regionTable = none) (hroot : v.eptRoot = none) (heptp : v.eptPointer = none)
    (hvcpus : v.vcpuTable = none) (ho : g.Owes h.mem.heap (vmKeys vm v + ks)) :
    wp (vmBuild vm config) (fun r h' => ∃ w, h'.vms vm = some w ∧
      (r = .ok ∧ g.Owes h'.mem.heap (h'.vcpusKeys w.vcpus + (vmKeys vm w + ks)) ∨
        r = .errNoMemory ∧ g.Owes h'.mem.heap (vmKeys vm w + ks))) h := by
  rw [vmBuild_eq, wp_bind]
  refine wp_mono (wp_and (vmPrepare_spec hv hregs hb)
    (vmPrepare_owes hb.getVm hregions hroot heptp hvcpus ho)) ?_
  rintro r h₁ ⟨⟨w, -, hw, -, hb₁⟩, w', hw', hr, ho₁⟩
  obtain rfl : w = w' := Option.some.inj (hb₁.getVm.symm.trans hw')
  refine wp_ite (fun hne => ?_) fun _ => ?_
  · rw [wp_pure]
    exact ⟨w, hw', .inr ⟨hr.resolve_left hne, ho₁⟩⟩
  rw [← hw] at hb₁
  have ho₁' : g.Owes h₁.mem.heap (h₁.vcpusKeys w.vcpus + (vmKeys vm w + ks)) := by
    refine ho₁.congr ?_
    rw [hw]
    exact zero_add _
  refine wp_mono (createVcpus_owes hinit hcpus hnone hb₁ ho₁') ?_
  rintro r' h' ⟨x, hx, hblocks, hres⟩
  refine ⟨x, hx, ?_⟩
  rw [vmKeys, hblocks]
  exact hres

end NexusVM
