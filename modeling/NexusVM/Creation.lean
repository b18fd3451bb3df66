import NexusVM.Objects

/-!
# Creating and freeing objects

* `Fresh`, `Allocates`, `Frees`: addresses no live block has, and what requests and frees do to
  the memory;
* `NewVcpu`, `vcpuCreate_spec`, `vcpuDestroy_spec`: a new vCPU, and giving one back;
* `Builds`, `vmBuild_spec`, `vmAbandon_spec`: a VM under construction, and giving it up;
* **`vmCreate_spec`**: a call either changes nothing but the memory and the next id, or links in a
  new VM with the vCPUs that its configuration asks for.
-/

namespace NexusVM

open Prog

/-! ## Memory -/

/-- No live block is at `a`. -/
def Fresh (m : PhysMem) (a : Addr) : Prop := ∀ b ∈ m.heap.live, b.base ≠ a

/-- What was live stays live and keeps its tables. -/
structure Allocates (m m' : PhysMem) : Prop where
  live : ∀ b ∈ m.heap.live, b ∈ m'.heap.live
  tables : ∀ b ∈ m.heap.live, ∀ t, b.base ≤ t → t < b.base + b.size → m'.tables t = m.tables t
  limit : m'.heap.limit = m.heap.limit
  abi : m'.abi = m.abi
  answer : m'.heap.answer = m.heap.answer
  sound : m.heap.Sound → m'.heap.Sound

/-- Only the blocks that `l` names are given back. -/
structure Frees (l : List (BlockKind × Option Addr)) (m m' : PhysMem) : Prop where
  tables : m'.tables = m.tables
  limit : m'.heap.limit = m.heap.limit
  abi : m'.abi = m.abi
  answer : m'.heap.answer = m.heap.answer
  sublist : m'.heap.live.Sublist m.heap.live
  live : ∀ b ∈ m.heap.live, (b.kind, some b.base) ∉ l → b ∈ m'.heap.live

section Memory

variable {m m' m'' : PhysMem} {a : Addr} {l l' : List (BlockKind × Option Addr)}

theorem Allocates.refl (m : PhysMem) : Allocates m m :=
  ⟨fun _ => id, fun _ _ _ _ _ => rfl, rfl, rfl, rfl, id⟩

theorem Allocates.refuse (m : PhysMem) : Allocates m { m with heap := m.heap.refuse } :=
  ⟨fun _ => id, fun _ _ _ _ _ => rfl, rfl, rfl, rfl, id⟩

theorem Allocates.grant {align : ℕ} {b : Block BlockKind} (hf : m.heap.Fits align b) :
    Allocates m { m with heap := m.heap.grant b } :=
  ⟨fun _ => List.mem_cons_of_mem _, fun _ _ _ _ _ => rfl, rfl, rfl, rfl, fun hs => hs.grant hf⟩

theorem Allocates.trans (h : Allocates m m') (h' : Allocates m' m'') : Allocates m m'' := by
  refine ⟨fun b hb => h'.live b (h.live b hb), fun b hb t ht hs => ?_, h'.limit.trans h.limit,
    h'.abi.trans h.abi, h'.answer.trans h.answer, fun hs => h'.sound (h.sound hs)⟩
  rw [h'.tables b (h.live b hb) t ht hs, h.tables b hb t ht hs]

theorem Allocates.fresh (h : Allocates m m') (ha : Fresh m' a) : Fresh m a :=
  fun b hb => ha b (h.live b hb)

theorem Allocates.holds (h : Allocates m m') {kind : BlockKind} (hh : m.heap.Holds kind a) :
    m'.heap.Holds kind a := by
  obtain ⟨b, hb, hk⟩ := hh
  exact ⟨b, h.live b hb, hk⟩

theorem Fresh.of_fits {align size : ℕ} {kind : BlockKind}
    (hf : m.heap.Fits align ⟨kind, a, size⟩) : Fresh m a :=
  fun b hb => (hf.2.2.2 b hb).1.symm

theorem Frees.refl (m : PhysMem) (l : List (BlockKind × Option Addr)) : Frees l m m :=
  ⟨rfl, rfl, rfl, rfl, List.Sublist.refl _, fun _ hb _ => hb⟩

theorem Frees.trans (h : Frees l m m') (h' : Frees l' m' m'') : Frees (l ++ l') m m'' := by
  refine ⟨h'.tables.trans h.tables, h'.limit.trans h.limit, h'.abi.trans h.abi,
    h'.answer.trans h.answer,
    h'.sublist.trans h.sublist, ?_⟩
  intro b hb hn
  rw [List.mem_append, not_or] at hn
  exact h'.live b (h.live b hb hn.1) hn.2

theorem Frees.mono (h : Frees l m m') (hl : ∀ p ∈ l, p ∈ l') : Frees l' m m' :=
  ⟨h.tables, h.limit, h.abi, h.answer, h.sublist, fun b hb hn => h.live b hb fun hc => hn (hl _ hc)⟩

theorem Frees.holds (h : Frees l m m') {kind : BlockKind} (hh : m.heap.Holds kind a)
    (hn : (kind, some a) ∉ l) : m'.heap.Holds kind a := by
  obtain ⟨b, hb, rfl, rfl⟩ := hh
  exact ⟨b, h.live b hb hn, rfl, rfl⟩

theorem Frees.sound (h : Frees l m m') (hs : m.heap.Sound) : m'.heap.Sound :=
  List.Pairwise.sublist h.sublist hs

theorem Allocates.frees (h : Allocates m m') (hf : Frees l m' m'')
    (hl : ∀ p ∈ l, ∀ a, p.2 = some a → Fresh m a) : Allocates m m'' := by
  refine ⟨fun b hb => ?_, fun b hb t ht hs => ?_, hf.limit.trans h.limit,
    hf.abi.trans h.abi, hf.answer.trans h.answer, fun hs => hf.sound (h.sound hs)⟩
  · apply hf.live b (h.live b hb)
    exact fun hc => hl _ hc b.base rfl b hb rfl
  · rw [hf.tables]
    exact h.tables b hb t ht hs

end Memory

/-! ## Calls to the allocator -/

section Calls

variable {h : Host} {c vm : Addr} {u : Nexusvcpu} {m₀ : PhysMem}

theorem alignedAlloc_spec (kind : BlockKind) (align size : ℕ) (h : Host) :
    wp (onMem (alignedAlloc kind align size)) (fun o h' => ∃ m, h' = h.setMem m ∧
      Allocates h.mem m ∧ ∀ a, o = some a → Fresh h.mem a ∧ m.heap.Holds kind a) h := by
  refine wp_alignedAlloc (fun b hf => ?_) ?_
  · refine ⟨_, rfl, Allocates.grant hf, ?_⟩
    rintro a ⟨⟩
    exact ⟨Fresh.of_fits hf, Heap.holds_grant_self _ _⟩
  · refine ⟨_, rfl, Allocates.refuse h.mem, ?_⟩
    rintro a ⟨⟩

theorem calloc_spec (kind : BlockKind) (count size : ℕ) (h : Host) :
    wp (calloc kind count size) (fun o h' => ∃ m, h' = h.setMem m ∧ Allocates h.mem m ∧
      ∀ a, o = some a → Fresh h.mem a ∧ m.heap.Holds kind a) h :=
  alignedAlloc_spec kind 16 (count * size) h

theorem frees_release (m : PhysMem) (kind : BlockKind) (a : Addr) :
    Frees [(kind, some a)] m { m with heap := m.heap.release kind a } := by
  refine ⟨rfl, m.heap.release_limit kind a, rfl, m.heap.release_answer kind a,
    m.heap.release_sublist kind a, fun b hb hn => ?_⟩
  apply Heap.mem_release hb
  rintro ⟨rfl, rfl⟩
  exact hn List.mem_cons_self

theorem freeBuffer_spec (kind : BlockKind) (p : Option Addr) (h : Host) :
    wp (freeBuffer kind p) (fun _ h' => ∃ m, h' = h.setMem m ∧ Frees [(kind, p)] h.mem m) h := by
  cases p with
  | none =>
    rw [wp_freeBuffer_none]
    exact ⟨h.mem, rfl, Frees.refl _ _⟩
  | some a =>
    rw [wp_freeBuffer_some]
    exact ⟨_, rfl, frees_release h.mem kind a⟩

theorem eptFreeRoot_spec (p : Option Addr) (h : Host) :
    wp (onMem (eptFreeRoot p)) (fun _ h' => ∃ m, h' = h.setMem m ∧ Frees [(.pages, p)] h.mem m) h := by
  cases p with
  | none =>
    simp only [eptFreeRoot, eptFreePages, wp_onMem, wp_pure]
    exact ⟨h.mem, rfl, Frees.refl _ _⟩
  | some a =>
    simp only [eptFreeRoot, eptFreePages, freeBlock, wp_onMem, wp_modify]
    exact ⟨_, rfl, frees_release h.mem .pages a⟩

/-! ## vCPUs -/

/-- The blocks that belong to a vCPU. -/
def vcpuBlocks (c : Addr) (u : Nexusvcpu) : List (BlockKind × Option Addr) :=
  [(.vmcsRegion, u.vmxVmcsRegion), (.vmxonRegion, u.vmxOnRegion), (.vmcb, u.vmcb),
    (.msrBitmap, u.msrBitmap), (.ioBitmap, u.ioBitmapA), (.ioBitmap, u.ioBitmapB), (.vcpu, some c)]

/-- A vCPU made since the memory was `m₀`. -/
structure NewVcpu (m₀ : PhysMem) (vm c : Addr) (u : Nexusvcpu) : Prop where
  vm : u.vm = vm
  running : u.running = false
  initialized : u.initialized = false
  schedEntity : u.schedEntity = none
  blocks : ∀ p ∈ vcpuBlocks c u, ∀ a, p.2 = some a → Fresh m₀ a

theorem freeVcpuBuffers_spec (hu : h.vcpus c = some u) :
    wp (freeVcpuBuffers c) (fun _ h' => ∃ m, h' = (h.setMem m).setVcpu c none ∧
      Frees (vcpuBlocks c u) h.mem m) h := by
  simp only [freeVcpuBuffers, wp_bind, wp_getVcpu]
  refine ⟨u, hu, wp_mono (freeBuffer_spec _ _ h) ?_⟩
  rintro _ _ ⟨m₁, rfl, h₁⟩
  refine wp_mono (freeBuffer_spec _ _ _) ?_
  rintro _ _ ⟨m₂, rfl, h₂⟩
  refine wp_mono (freeBuffer_spec _ _ _) ?_
  rintro _ _ ⟨m₃, rfl, h₃⟩
  rw [wp_freeVcpu]
  refine ⟨_, rfl, ((h₁.trans h₂).trans (h₃.trans (frees_release m₃ .vcpu c))).mono ?_⟩
  simp only [List.cons_append, List.nil_append, vcpuBlocks]
  exact fun p hp => List.mem_cons_of_mem _ (List.mem_cons_of_mem _ (List.mem_cons_of_mem _ hp))

theorem vcpuVendorInit_spec (hinit : h.gInitialized = true) (hu : h.vcpus c = some u)
    (hnew : NewVcpu m₀ vm c u) (ha : Allocates m₀ h.mem) :
    wp (vcpuVendorInit c) (fun r h' => ∃ m u', h' = (h.setMem m).setVcpu c (some u') ∧
      NewVcpu m₀ vm c u' ∧ Allocates m₀ m ∧ (r = .ok → Allocates h.mem m)) h := by
  have hself : ∀ m : PhysMem, h.setMem m = (h.setMem m).setVcpu c (some u) := by
    intro m
    simp only [Host.setVcpu, Host.setMem, ← hu, Function.update_eq_self]
  have hset : ∀ (g : Host) (w : Option Nexusvcpu), (g.setVcpu c w).vcpus c = w := fun g w =>
    Function.update_self _ _ _
  simp only [vcpuVendorInit, wp_bind, wp_getHv]
  refine ⟨hinit, ?_⟩
  split
  · simp only [vmxVcpuInit, wp_bind, wp_getHv]
    refine ⟨hinit, wp_mono (alignedAlloc_spec _ _ _ h) ?_⟩
    rintro o _ ⟨m₁, rfl, ha₁, ho⟩
    cases o with
    | none =>
      simp only [wp_pure]
      exact ⟨m₁, u, hself m₁, hnew, ha.trans ha₁, fun _ => ha₁⟩
    | some region =>
      have hregion := ha.fresh (ho region rfl).1
      simp only [wp_bind, wp_getVcpu, wp_putVcpu]
      refine ⟨u, hu, wp_mono (alignedAlloc_spec _ _ _ _) ?_⟩
      rintro o' _ ⟨m₂, rfl, ha₂, ho'⟩
      have hnew' : NewVcpu m₀ vm c { u with vmxOnRegion := some region } := by
        refine { hnew with blocks := fun p hp b hb => ?_ }
        have hold := hnew.blocks p
        simp only [vcpuBlocks, List.mem_cons, List.not_mem_nil, or_false] at hp hold
        rcases hp with rfl | rfl | rfl | rfl | rfl | rfl | rfl
        on_goal 2 => cases hb; exact hregion
        all_goals exact hold (by simp) b hb
      cases o' with
      | none =>
        simp only [wp_bind, wp_freeBuffer_some, wp_pure]
        refine ⟨_, _, rfl, hnew', ?_, fun hc => by cases hc⟩
        apply ((ha.trans ha₁).trans ha₂).frees (frees_release m₂ .vmxonRegion region)
        rintro p hp b hb
        rw [List.mem_singleton] at hp
        subst hp
        cases hb
        exact hregion
      | some vmcs =>
        simp only [wp_bind, wp_getVcpu, wp_putVcpu, wp_pure, Host.setVcpu_setMem,
          Host.setMem_setMem, Host.setVcpu_setVcpu]
        refine ⟨_, hset _ _, m₂, _, rfl, ?_, (ha.trans ha₁).trans ha₂,
          fun _ => ha₁.trans ha₂⟩
        refine { hnew' with blocks := fun p hp b hb => ?_ }
        have hold := hnew'.blocks p
        simp only [vcpuBlocks, List.mem_cons, List.not_mem_nil, or_false] at hp hold
        rcases hp with rfl | rfl | rfl | rfl | rfl | rfl | rfl
        · cases hb
          exact (ha.trans ha₁).fresh (ho' vmcs rfl).1
        all_goals exact hold (by simp) b hb
  · simp only [svmVcpuInit, wp_bind]
    refine wp_mono (alignedAlloc_spec _ _ _ h) ?_
    rintro o _ ⟨m₁, rfl, ha₁, ho⟩
    cases o with
    | none =>
      simp only [wp_pure]
      exact ⟨m₁, u, hself m₁, hnew, ha.trans ha₁, fun _ => ha₁⟩
    | some vmcb =>
      simp only [wp_bind, wp_getVcpu, wp_putVcpu, wp_pure]
      refine ⟨u, hu, m₁, _, rfl, ?_, ha.trans ha₁, fun _ => ha₁⟩
      refine { hnew with blocks := fun p hp b hb => ?_ }
      have hold := hnew.blocks p
      simp only [vcpuBlocks, List.mem_cons, List.not_mem_nil, or_false] at hp hold
      rcases hp with rfl | rfl | rfl | rfl | rfl | rfl | rfl
      on_goal 3 => cases hb; exact ha.fresh (ho vmcb rfl).1
      all_goals exact hold (by simp) b hb
  · rw [wp_pure]
    exact ⟨h.mem, u, hself h.mem, hnew, ha, fun _ => Allocates.refl _⟩

/-- **`vcpu_create`.** -/
theorem vcpuCreate_spec (hinit : h.gInitialized = true) (hcpus : h.hv.onlineCpuCount ≠ 0)
    (hnone : ∀ c, Fresh h.mem c → h.vcpus c = none) (vm : Addr) (i : UInt32) :
    wp (vcpuCreate vm i) (fun r h' => ∃ m, Allocates h.mem m ∧ match r with
      | .error e => e ≠ .ok ∧ h' = h.setMem m
      | .ok c => ∃ u, h' = (h.setMem m).setVcpu c (some u) ∧ NewVcpu h.mem vm c u ∧
          m.heap.Holds .vcpu c) h := by
  have hset : ∀ (g : Host) (c : Addr) (w : Option Nexusvcpu), (g.setVcpu c w).vcpus c = w :=
    fun g c w => Function.update_self _ _ _
  rw [vcpuCreate, wp_bind]
  refine wp_mono (calloc_spec _ _ _ h) ?_
  rintro o _ ⟨m₁, rfl, ha₁, ho⟩
  cases o with
  | none =>
    rw [wp_pure]
    exact ⟨m₁, ha₁, by decide, rfl⟩
  | some c =>
  obtain ⟨hfresh, hheld⟩ := ho c rfl
  -- giving the vCPU back leads to the state before the call
  have hback : ∀ m, (h.setMem m).setVcpu c none = h.setMem m := by
    intro m
    simp only [Host.setVcpu, Host.setMem, ← hnone c hfresh, Function.update_eq_self]
  simp only [wp_bind, wp_getHv, wp_require, wp_putVcpu]
  refine ⟨hinit, hcpus, wp_mono (calloc_spec _ _ _ _) ?_⟩
  rintro o _ ⟨m₂, rfl, ha₂, hmsr⟩
  cases o with
  | none =>
    simp only [wp_bind, wp_freeVcpu, wp_pure]
    refine ⟨_, (ha₁.trans ha₂).frees (frees_release m₂ .vcpu c) ?_, by decide, ?_⟩
    · rintro p hp b hb
      rw [List.mem_singleton] at hp
      subst hp
      cases hb
      exact hfresh
    · rw [Host.release, Host.setVcpu_setMem, Host.setVcpu_setMem, Host.setVcpu_setVcpu]
      exact hback _
  | some msrBitmap =>
  simp only [wp_bind]
  refine wp_mono (calloc_spec _ _ _ _) ?_
  rintro ioA _ ⟨m₃, rfl, ha₃, hioA⟩
  refine wp_mono (calloc_spec _ _ _ _) ?_
  rintro ioB _ ⟨m₄, rfl, ha₄, hioB⟩
  simp only [wp_getVcpu, wp_putVcpu, Host.setVcpu_setMem, Host.setMem_setMem,
    Host.setVcpu_setVcpu]
  refine ⟨_, hset _ _ _, ?_⟩
  have h₂ := ha₁.trans ha₂
  have h₃ := h₂.trans ha₃
  have h₄ := h₃.trans ha₄
  have hnew : NewVcpu h.mem vm c
      { vcpuId := i, vm := vm, physicalCpu := i % h.hv.onlineCpuCount,
        msrBitmap := some msrBitmap, ioBitmapA := ioA, ioBitmapB := ioB } := by
    refine ⟨rfl, rfl, rfl, rfl, fun p hp b hb => ?_⟩
    simp only [vcpuBlocks, List.mem_cons, List.not_mem_nil, or_false] at hp
    rcases hp with rfl | rfl | rfl | rfl | rfl | rfl | rfl
    · cases hb
    · cases hb
    · cases hb
    · cases hb
      exact ha₁.fresh (hmsr msrBitmap rfl).1
    · exact h₂.fresh (hioA b hb).1
    · exact h₃.fresh (hioB b hb).1
    · cases hb
      exact hfresh
  -- every failure from here on gives all blocks back
  have hfail : ∀ (m : PhysMem) (u : Nexusvcpu) (e : Result), e ≠ .ok → NewVcpu h.mem vm c u →
      Allocates h.mem m → wp (do
        freeVcpuBuffers c
        return (Except.error e : Except Result Addr)) (fun r h' => ∃ m, Allocates h.mem m ∧
          match r with
          | .error e => e ≠ .ok ∧ h' = h.setMem m
          | .ok c => ∃ u, h' = (h.setMem m).setVcpu c (some u) ∧ NewVcpu h.mem vm c u ∧
              m.heap.Holds .vcpu c) ((h.setMem m).setVcpu c (some u)) := by
    intro m u e he hu ha
    rw [wp_bind]
    refine wp_mono (freeVcpuBuffers_spec (hset _ c _)) ?_
    rintro _ _ ⟨m', rfl, hf⟩
    rw [wp_pure]
    refine ⟨m', ha.frees hf hu.blocks, he, ?_⟩
    rw [Host.setVcpu_setMem, Host.setVcpu_setVcpu, Host.setMem_setMem, hback]
  refine wp_ite (fun _ => hfail m₄ _ _ (by decide) hnew h₄) fun _ => ?_
  rw [wp_bind]
  refine wp_mono (vcpuVendorInit_spec hinit (hset _ _ _) hnew h₄) ?_
  rintro r _ ⟨m, u, rfl, hu, ha, hok⟩
  simp only [Host.setVcpu_setMem, Host.setMem_setMem, Host.setVcpu_setVcpu]
  refine wp_ite (fun hr => hfail m u r hr hu ha) fun hr => ?_
  rw [wp_pure]
  exact ⟨m, ha, u, rfl, hu,
    (((ha₂.trans ha₃).trans ha₄).trans (hok (not_not.mp hr))).holds hheld⟩

/-- **`vcpu_destroy` on a vCPU that does not run.** -/
theorem vcpuDestroy_spec (hinit : h.gInitialized = true) (hu : h.vcpus c = some u)
    (hstopped : u.running = false) : wp (vcpuDestroy (some c)) (fun _ h' => ∃ m,
      h' = (h.setMem m).setVcpu c none ∧ Frees (vcpuBlocks c u) h.mem m) h := by
  have hset : ∀ (g : Host) (w : Option Nexusvcpu), (g.setVcpu c w).vcpus c = w := fun g w =>
    Function.update_self _ _ _
  simp only [vcpuDestroy, wp_bind, wp_getVcpu, wp_when]
  refine ⟨u, hu, fun hrun => absurd (hstopped ▸ hrun) Bool.false_ne_true, fun _ => ?_⟩
  -- the vendor part forgets the regions it has given back
  have hvendor : wp (vcpuVendorCleanup c) (fun _ h' => ∃ m u', h' = (h.setMem m).setVcpu c (some u') ∧
      Frees (vcpuBlocks c u) h.mem m ∧ ∀ p ∈ vcpuBlocks c u', p.2 ≠ none → p ∈ vcpuBlocks c u) h := by
    simp only [vcpuVendorCleanup, wp_bind, wp_getHv]
    refine ⟨hinit, ?_⟩
    split
    · simp only [vmxVcpuCleanup, wp_bind, wp_getVcpu]
      refine ⟨u, hu, wp_mono (freeBuffer_spec _ _ h) ?_⟩
      rintro _ _ ⟨m₁, rfl, h₁⟩
      refine wp_mono (freeBuffer_spec _ _ _) ?_
      rintro _ _ ⟨m₂, rfl, h₂⟩
      rw [wp_putVcpu]
      refine ⟨m₂, _, rfl, (h₁.trans h₂).mono ?_, ?_⟩
      · simp only [vcpuBlocks, List.cons_append, List.nil_append, List.mem_cons]
        tauto
      · simp only [vcpuBlocks, List.mem_cons, List.not_mem_nil, or_false]
        rintro p (rfl | rfl | rfl | rfl | rfl | rfl | rfl) <;> simp
    · simp only [svmVcpuCleanup, wp_bind, wp_getVcpu]
      refine ⟨u, hu, wp_mono (freeBuffer_spec _ _ h) ?_⟩
      rintro _ _ ⟨m₁, rfl, h₁⟩
      rw [wp_putVcpu]
      refine ⟨m₁, _, rfl, h₁.mono ?_, ?_⟩
      · simp only [vcpuBlocks, List.mem_cons]
        tauto
      · simp only [vcpuBlocks, List.mem_cons, List.not_mem_nil, or_false]
        rintro p (rfl | rfl | rfl | rfl | rfl | rfl | rfl) <;> simp
    · rw [wp_pure]
      refine ⟨h.mem, u, ?_, Frees.refl _ _, fun _ hp _ => hp⟩
      simp only [Host.setVcpu, Host.setMem, ← hu, Function.update_eq_self]
  refine wp_mono hvendor ?_
  rintro _ _ ⟨m, u', rfl, hf, hsub⟩
  refine wp_mono (freeVcpuBuffers_spec (hset _ _)) ?_
  rintro _ _ ⟨m', rfl, hf'⟩
  rw [wp_pure]
  refine ⟨m', by rw [Host.setVcpu_setMem, Host.setVcpu_setVcpu, Host.setMem_setMem], ?_⟩
  refine ⟨hf'.tables.trans hf.tables, hf'.limit.trans hf.limit, hf'.abi.trans hf.abi, hf'.answer.trans hf.answer,
    hf'.sublist.trans hf.sublist, ?_⟩
  intro b hb hn
  apply hf'.live b (hf.live b hb hn)
  exact fun hc => hn (hsub _ hc (Option.some_ne_none _))

end Calls

/-! ## VMs -/

/-- The blocks that belong to a VM. -/
def vmBlocks (vm : Addr) (v : Nexusvm) : List (BlockKind × Option Addr) :=
  [(.vcpus, v.vcpuTable), (.pages, v.eptRoot), (.eptp, v.eptPointer), (.regions, v.regionTable),
    (.vm, some vm)]

/-- What stays as it is while a VM is built. -/
structure SameIdentity (v w : Nexusvm) : Prop where
  id : w.id = v.id
  state : w.state = v.state
  vcpuCount : w.vcpuCount = v.vcpuCount
  memoryRegionCount : w.memoryRegionCount = v.memoryRegionCount
  config : w.config = v.config
  next : w.next = v.next
  prev : w.prev = v.prev
  nestedVmx : w.nestedVmx = v.nestedVmx
  nestedSvm : w.nestedSvm = v.nestedSvm

theorem SameIdentity.refl (v : Nexusvm) : SameIdentity v v :=
  ⟨rfl, rfl, rfl, rfl, rfl, rfl, rfl, rfl, rfl⟩

theorem SameIdentity.trans {v w x : Nexusvm} (s : SameIdentity v w) (s' : SameIdentity w x) :
    SameIdentity v x :=
  ⟨s'.1.trans s.1, s'.2.trans s.2, s'.3.trans s.3, s'.4.trans s.4, s'.5.trans s.5, s'.6.trans s.6,
    s'.7.trans s.7, s'.8.trans s.8, s'.9.trans s.9⟩

/-- The hypervisor after an id was given out. -/
def Hypervisor.nextId (hv : Hypervisor) : Hypervisor := { hv with nextVmId := hv.nextVmId + 1 }

/-- Since the state `h₀` the VM at `vm` was begun; `v` is its record and `cs` are its vCPUs. -/
structure Builds (vm : Addr) (h₀ : Host) (v : Nexusvm) (cs : List Addr) (h : Host) : Prop where
  shape : h = { h₀ with
    hv := h₀.hv.nextId
    vms := Function.update h₀.vms vm (some v)
    mem := h.mem
    vcpus := h.vcpus }
  alloc : Allocates h₀.mem h.mem
  held : h.mem.heap.Holds .vm vm
  others : ∀ c, c ∉ cs → h.vcpus c = h₀.vcpus c
  new : ∀ c ∈ cs, ∃ u, h.vcpus c = some u ∧ NewVcpu h₀.mem vm c u ∧ h.mem.heap.Holds .vcpu c
  nodup : cs.Nodup
  blocks : ∀ p ∈ vmBlocks vm v, ∀ a, p.2 = some a → Fresh h₀.mem a
  root : ∀ r, v.eptRoot = some r → 4096 ∣ r ∧ tablePage r ∈ h.mem.heap.live ∧
    h.mem.tables r = fun _ => {}

section Builds

variable {h₀ h : Host} {vm : Addr} {v : Nexusvm} {cs : List Addr}

theorem Builds.getVm (hb : Builds vm h₀ v cs h) : h.vms vm = some v := by
  rw [hb.shape]
  exact Function.update_self _ _ _

theorem Builds.fresh (hb : Builds vm h₀ v cs h) : Fresh h₀.mem vm :=
  hb.blocks (.vm, some vm) (by simp [vmBlocks]) vm rfl

theorem Builds.first (hb : Builds vm h₀ v cs h) (hfirst : ∀ f, h₀.hv.vms = some f → h₀.vms f ≠ none)
    (hnone : ∀ a, Fresh h₀.mem a → h₀.vms a = none) :
    ∀ f, h.hv.vms = some f → f ≠ vm ∧ h.vms f ≠ none := by
  intro f hf
  rw [hb.shape] at hf
  have hex := hfirst f hf
  have hne : f ≠ vm := by
    rintro rfl
    exact hex (hnone f hb.fresh)
  refine ⟨hne, ?_⟩
  rw [hb.shape]
  exact (Function.update_of_ne hne _ _).trans_ne hex

theorem Builds.setMem (hb : Builds vm h₀ v cs h) {m : PhysMem} (ha : Allocates h.mem m) :
    Builds vm h₀ v cs (h.setMem m) := by
  refine { hb with
    shape := ?_
    alloc := hb.alloc.trans ha
    held := ha.holds hb.held
    new := fun c hc => ?_
    root := fun r hr => ?_ }
  · rw [hb.shape]
    rfl
  · obtain ⟨u, hu, hnew, hheld⟩ := hb.new c hc
    exact ⟨u, hu, hnew, ha.holds hheld⟩
  · obtain ⟨hd, hlive, hz⟩ := hb.root r hr
    refine ⟨hd, ha.live _ hlive, ?_⟩
    rw [← hz]
    exact ha.tables _ hlive r (le_refl r) (by simp [tablePage])

theorem Builds.setVm (hb : Builds vm h₀ v cs h) {w : Nexusvm}
    (hblocks : ∀ p ∈ vmBlocks vm w, ∀ a, p.2 = some a → Fresh h₀.mem a)
    (hroot : ∀ r, w.eptRoot = some r → 4096 ∣ r ∧ tablePage r ∈ h.mem.heap.live ∧
      h.mem.tables r = fun _ => {}) : Builds vm h₀ w cs (h.setVm vm (some w)) := by
  refine { hb with shape := ?_, blocks := hblocks, root := hroot }
  rw [hb.shape]
  simp only [Host.setVm, Function.update_idem]

/-- A new block goes into one of the fields of the VM. -/
theorem Builds.takeBlock (hb : Builds vm h₀ v cs h) {w : Nexusvm} {b : Addr} (hf : Fresh h₀.mem b)
    (hw : ∀ p ∈ vmBlocks vm w, p ∈ vmBlocks vm v ∨ p.2 = some b) (hroot : w.eptRoot = v.eptRoot) :
    Builds vm h₀ w cs (h.setVm vm (some w)) := by
  refine hb.setVm (fun p hp a hpa => ?_) fun r hr => hb.root r (hroot ▸ hr)
  rcases hw p hp with hold | hnew
  · exact hb.blocks p hold a hpa
  · cases hnew.symm.trans hpa
    exact hf

/-- **The new root is empty**, and no table that was live is touched. -/
theorem Builds.takeRoot (hb : Builds vm h₀ v cs h) {root : Addr} (hf : h.mem.heap.Fits 4096 (tablePage root)) :
    Builds vm h₀ { v with eptRoot := some root } cs
      ((h.setMem (h.mem.newRoot root)).setVm vm (some { v with eptRoot := some root })) := by
  have ha : Allocates h.mem (h.mem.newRoot root) := by
    refine ⟨fun _ => List.mem_cons_of_mem _, fun b hb t ht hs => ?_, rfl, rfl, rfl,
      fun hs => hs.grant hf⟩
    have hnot : ¬ (root ≤ t ∧ t < root + 4096) := (hf.2.2.2 b hb).not_mem ht hs
    rw [PhysMem.newRoot, PhysMem.zero_tables_of_not _ hnot, PhysMem.newPages,
      PhysMem.zero_tables_of_not _ hnot]
  refine (hb.setMem ha).setVm (fun p hp a hpa => ?_) ?_
  · have hold : p ∈ vmBlocks vm v ∨ p.2 = some root := by
      revert p
      simp [vmBlocks]
    rcases hold with hold | hnew
    · exact hb.blocks p hold a hpa
    · cases hnew.symm.trans hpa
      exact hb.alloc.fresh (Fresh.of_fits hf)
  · rintro r ⟨⟩
    exact ⟨hf.2.1, List.mem_cons_self, PhysMem.zero_tables_of_lt _ (le_refl root) (by omega)⟩

theorem Builds.vcpus_none (hb : Builds vm h₀ v cs h) (hnone : ∀ c, Fresh h₀.mem c → h₀.vcpus c = none) :
    ∀ c, Fresh h.mem c → h.vcpus c = none := by
  intro c hc
  by_cases hmem : c ∈ cs
  · obtain ⟨u, -, -, b, hbl, -, hbase⟩ := hb.new c hmem
    exact absurd hbase (hc b hbl)
  · rw [hb.others c hmem]
    exact hnone c (hb.alloc.fresh hc)

theorem Builds.addVcpu (hb : Builds vm h₀ v v.vcpus h) {m : PhysMem} {c : Addr} {u : Nexusvcpu}
    (ha : Allocates h.mem m) (hnew : NewVcpu h.mem vm c u) (hheld : m.heap.Holds .vcpu c)
    (hc : h.vcpus c = none) :
    Builds vm h₀ { v with vcpus := v.vcpus ++ [c] } (v.vcpus ++ [c])
      (((h.setMem m).setVcpu c (some u)).setVm vm (some { v with vcpus := v.vcpus ++ [c] })) := by
  have hb' := hb.setMem ha
  have hnot : c ∉ v.vcpus := by
    intro hmem
    obtain ⟨w, hw, -⟩ := hb.new c hmem
    rw [hc] at hw
    cases hw
  refine ⟨?_, hb'.alloc, hb'.held, fun d hd => ?_, fun d hd => ?_, ?_, hb.blocks, hb'.root⟩
  · rw [hb.shape]
    simp only [Host.setVm, Host.setVcpu, Host.setMem, Function.update_idem]
  · rw [List.mem_append, not_or, List.mem_singleton] at hd
    rw [Host.setVm_vcpus, Host.setVcpu_vcpus, Function.update_of_ne hd.2]
    exact hb.others d hd.1
  · by_cases hdc : d = c
    · subst hdc
      refine ⟨u, Function.update_self _ _ _, { hnew with blocks := fun p hp b hb' => ?_ }, hheld⟩
      exact hb.alloc.fresh (hnew.blocks p hp b hb')
    · have hd' : d ∈ v.vcpus := by
        rcases List.mem_append.mp hd with hd | hd
        · exact hd
        · exact absurd (List.mem_singleton.mp hd) hdc
      obtain ⟨w, hw, hn, hh⟩ := hb'.new d hd'
      exact ⟨w, (Function.update_of_ne hdc _ _).trans hw, hn, hh⟩
  · rw [List.nodup_append]
    refine ⟨hb.nodup, List.nodup_singleton c, fun d hd e he hde => ?_⟩
    rw [List.mem_singleton] at he
    subst hde he
    exact hnot hd

theorem Builds.dropVcpu {c : Addr} (hb : Builds vm h₀ v (c :: cs) h) {m : PhysMem} {u : Nexusvcpu}
    (hu : h.vcpus c = some u) (hnew : NewVcpu h₀.mem vm c u) (hf : Frees (vcpuBlocks c u) h.mem m)
    (hc : h₀.vcpus c = none) : Builds vm h₀ v cs ((h.setMem m).setVcpu c none) := by
  have hnd := List.nodup_cons.mp hb.nodup
  refine ⟨?_, hb.alloc.frees hf hnew.blocks, hf.holds hb.held (by simp [vcpuBlocks]),
    fun d hd => ?_, fun d hd => ?_, hnd.2, hb.blocks, fun r hr => ?_⟩
  · rw [hb.shape]
    rfl
  · by_cases hdc : d = c
    · subst hdc
      rw [hc]
      exact Function.update_self _ _ _
    · refine (Function.update_of_ne hdc _ _).trans (hb.others d ?_)
      rw [List.mem_cons, not_or]
      exact ⟨hdc, hd⟩
  · have hdc : d ≠ c := fun hdc => hnd.1 (hdc ▸ hd)
    obtain ⟨w, hw, hn, hh⟩ := hb.new d (List.mem_cons_of_mem _ hd)
    refine ⟨w, (Function.update_of_ne hdc _ _).trans hw, hn, hf.holds hh ?_⟩
    simp [vcpuBlocks, hdc]
  · obtain ⟨hd, hlive, hz⟩ := hb.root r hr
    refine ⟨hd, hf.live _ hlive (by simp [tablePage, vcpuBlocks]), ?_⟩
    exact (congrFun hf.tables r).trans hz

variable (hinit : h₀.gInitialized = true) (hcpus : h₀.hv.onlineCpuCount ≠ 0)
  (hnone : ∀ c, Fresh h₀.mem c → h₀.vcpus c = none)

include hinit hnone

theorem destroyAll_spec (hb : Builds vm h₀ v cs h) :
    wp (forEach (fun c => discard (vcpuDestroy (some c))) cs)
      (fun _ h' => Builds vm h₀ v [] h') h := by
  refine wp_mono (wp_forEach _ (fun pre h₁ => Builds vm h₀ v (cs.drop pre.length) h₁) cs ?_ hb) ?_
  · rintro pre c post h₁ rfl hb₁
    rw [List.drop_left] at hb₁
    obtain ⟨u, hu, hnew, -⟩ := hb₁.new c List.mem_cons_self
    rw [wp_discard]
    refine wp_mono (vcpuDestroy_spec ?_ hu hnew.running) ?_
    · rw [hb₁.shape]
      exact hinit
    rintro _ h' ⟨m, rfl, hf⟩
    have hdrop : (pre ++ c :: post).drop (pre ++ [c]).length = post := by
      rw [List.append_cons pre c post, List.drop_left]
    rw [hdrop]
    apply hb₁.dropVcpu hu hnew hf
    apply hnone
    exact hnew.blocks (.vcpu, some c) (by simp [vcpuBlocks]) c rfl
  · rintro _ h' hb'
    rw [List.drop_length] at hb'
    exact hb'

include hcpus

theorem createVcpus_spec {n : ℕ} {i : UInt32} (hb : Builds vm h₀ v cs h) (hcs : v.vcpus = cs) :
    wp (createVcpus vm n i) (fun r h' => ∃ w, SameIdentity v w ∧ w.eptRoot = v.eptRoot ∧
      w.memoryRegions = v.memoryRegions ∧
      (r = .ok ∧ w.vcpus.length = v.vcpus.length + n ∧ Builds vm h₀ w w.vcpus h' ∨
        r ≠ .ok ∧ Builds vm h₀ w [] h')) h := by
  subst hcs
  induction n generalizing i v h with
  | zero =>
    rw [createVcpus, wp_pure]
    exact ⟨v, SameIdentity.refl v, rfl, rfl, .inl ⟨rfl, rfl, hb⟩⟩
  | succ n ih =>
    have hnone' : ∀ c, Fresh h.mem c → h.vcpus c = none := hb.vcpus_none hnone
    rw [createVcpus, wp_bind]
    refine wp_mono (vcpuCreate_spec ?_ ?_ hnone' vm i) ?_
    · rw [hb.shape]
      exact hinit
    · rw [hb.shape]
      exact hcpus
    rintro r _ ⟨m, ha, hr⟩
    cases r with
    | ok c =>
      obtain ⟨u, rfl, hnew, hheld⟩ := hr
      have hfresh : Fresh h.mem c := hnew.blocks (.vcpu, some c) (by simp [vcpuBlocks]) c rfl
      have hb' := hb.addVcpu ha hnew hheld (hnone' c hfresh)
      simp only [wp_bind, wp_getVm, wp_putVm]
      refine ⟨v, hb.getVm, wp_mono (ih hb') ?_⟩
      rintro r h' ⟨w, hid, hroot, hregs, hres⟩
      refine ⟨w, ⟨hid.1, hid.2, hid.3, hid.4, hid.5, hid.6, hid.7, hid.8, hid.9⟩, hroot, hregs, ?_⟩
      rw [List.length_append, List.length_singleton] at hres
      rwa [show v.vcpus.length + (n + 1) = v.vcpus.length + 1 + n by omega]
    | error e =>
      obtain ⟨he, rfl⟩ := hr
      simp only [wp_bind, wp_getVm]
      refine ⟨v, hb.getVm, wp_mono (destroyAll_spec hinit hnone (hb.setMem ha)) ?_⟩
      rintro _ h' hb'
      rw [wp_pure]
      exact ⟨v, SameIdentity.refl v, rfl, rfl, .inr ⟨he, hb'⟩⟩

omit hcpus in
omit hinit hnone in
/-- **Giving up a VM whose vCPUs are gone.** -/
theorem vmAbandon_spec (hvm : h₀.vms vm = none) (hb : Builds vm h₀ v [] h) :
    wp (vmAbandon vm) (fun _ h' => ∃ m, Allocates h₀.mem m ∧
      h' = (h₀.setHv h₀.hv.nextId).setMem m) h := by
  simp only [vmAbandon, wp_bind, wp_getVm]
  refine ⟨v, hb.getVm, wp_mono (freeBuffer_spec _ _ h) ?_⟩
  rintro _ _ ⟨m₁, rfl, h₁⟩
  refine wp_mono (freeBuffer_spec _ _ _) ?_
  rintro _ _ ⟨m₂, rfl, h₂⟩
  refine wp_mono (eptFreeRoot_spec _ _) ?_
  rintro _ _ ⟨m₃, rfl, h₃⟩
  refine wp_mono (freeBuffer_spec _ _ _) ?_
  rintro _ _ ⟨m₄, rfl, h₄⟩
  rw [wp_freeVm]
  have hf := (((h₁.trans h₂).trans h₃).trans h₄).trans (frees_release m₄ .vm vm)
  refine ⟨_, hb.alloc.frees hf ?_, ?_⟩
  · intro p hp
    apply hb.blocks
    simp only [List.cons_append, List.nil_append, vmBlocks, List.mem_cons] at hp ⊢
    tauto
  · have hvcpus : h.vcpus = h₀.vcpus := by
      funext c
      exact hb.others c List.not_mem_nil
    have hshape := hb.shape
    rw [hvcpus] at hshape
    rw [hshape]
    simp only [Host.setMem, Host.setVm, Host.setHv, Host.release, Function.update_idem, ← hvm,
      Function.update_eq_self]

/-- The part of `vm_create` between its record and its vCPUs. -/
def vmPrepare (vm : Addr) (config : VmConfig) : HostM Result := do
  let result ← vmAllocRegions vm config
  if result ≠ .ok then return result
  match ← onMem eptAllocRoot with
  | none => return .errNoMemory
  | some root =>
  putVm vm { ← getVm vm with eptRoot := some root }
  match ← calloc .eptp 1 sizeofEptp with
  | none => return .errNoMemory
  | some eptp =>
  putVm vm { ← getVm vm with eptPointer := some eptp, eptp := makeEptp root }
  match ← calloc .vcpus config.vcpuCount.toNat sizeofPointer with
  | none => return .errNoMemory
  | some vcpus =>
  putVm vm { ← getVm vm with vcpuTable := some vcpus }
  return .ok

omit hinit hcpus hnone in
theorem vmBuild_eq (vm : Addr) (config : VmConfig) : vmBuild vm config =
    vmPrepare vm config >>= fun result =>
      if result ≠ .ok then pure result else createVcpus vm config.vcpuCount.toNat 0 := by
  simp only [vmBuild, vmPrepare, bind_assoc]
  congr 1
  funext result
  split_ifs with hr
  · rw [pure_bind, if_pos hr]
  rw [bind_assoc]
  congr 1
  funext root
  cases root with
  | none => rfl
  | some root =>
  simp only [bind_assoc]
  congr 1
  funext v
  congr 1
  funext _
  congr 1
  funext eptp
  cases eptp with
  | none => rfl
  | some eptp =>
  simp only [bind_assoc]
  congr 1
  funext v
  congr 1
  funext _
  congr 1
  funext vcpus
  cases vcpus with
  | none => rfl
  | some vcpus =>
  simp only [bind_assoc]
  congr 1

omit hinit hcpus hnone in
theorem vmAllocRegions_spec {config : VmConfig} (hv : v.vcpus = []) (hregs₀ : v.memoryRegions = [])
    (hb : Builds vm h₀ v [] h) :
    wp (vmAllocRegions vm config) (fun r h' => ∃ w, SameIdentity v w ∧ w.vcpus = [] ∧
      (r = .ok → w.memoryRegions = List.replicate config.memoryRegionCount.toNat {}) ∧
      Builds vm h₀ w [] h') h := by
  refine wp_ite (fun _ => ?_) fun hn => ?_
  · rw [wp_bind]
    refine wp_mono (calloc_spec _ _ _ h) ?_
    rintro o _ ⟨m, rfl, ha, ho⟩
    cases o with
    | none =>
      rw [wp_pure]
      exact ⟨v, SameIdentity.refl v, hv, fun hc => (by cases hc), hb.setMem ha⟩
    | some regions =>
      simp only [wp_bind, wp_getVm, wp_putVm, wp_pure]
      refine ⟨v, hb.getVm, _, ?_, ?_, fun _ => rfl, (hb.setMem ha).takeBlock
        (hb.alloc.fresh (ho regions rfl).1) (by simp [vmBlocks]) rfl⟩
      · exact ⟨rfl, rfl, rfl, rfl, rfl, rfl, rfl, rfl, rfl⟩
      · exact hv
  · rw [wp_pure]
    refine ⟨v, SameIdentity.refl v, hv, fun _ => ?_, hb⟩
    have hzero : config.memoryRegionCount.toNat = 0 := by
      rw [gt_iff_lt, UInt32.lt_iff_toNat_lt] at hn
      simpa using hn
    rw [hregs₀, hzero, List.replicate_zero]

omit hinit hcpus hnone in
theorem vmPrepare_spec {config : VmConfig} (hv : v.vcpus = []) (hregs₀ : v.memoryRegions = [])
    (hb : Builds vm h₀ v [] h) :
    wp (vmPrepare vm config) (fun r h' => ∃ w, SameIdentity v w ∧ w.vcpus = [] ∧
      (r = .ok → w.eptRoot ≠ none ∧
        w.memoryRegions = List.replicate config.memoryRegionCount.toNat {}) ∧
      Builds vm h₀ w [] h') h := by
  rw [vmPrepare, wp_bind]
  refine wp_mono (vmAllocRegions_spec hv hregs₀ hb) ?_
  rintro r h₁ ⟨w, hid, hw, hregs, hb₁⟩
  refine wp_ite (fun hr => ?_) fun hr => ?_
  · rw [wp_pure]
    exact ⟨w, hid, hw, fun hc => absurd hc hr, hb₁⟩
  simp only [wp_bind, wp_onMem]
  refine wp_mono (eptAllocRoot_spec h₁.mem) ?_
  rintro o m ho
  cases o with
  | none =>
    obtain rfl := ho
    rw [wp_pure]
    exact ⟨w, hid, hw, fun hc => (by cases hc), hb₁.setMem (Allocates.refuse _)⟩
  | some root =>
  obtain ⟨hf, rfl⟩ := ho
  have hb₂ := hb₁.takeRoot hf
  simp only [wp_bind, wp_getVm, wp_putVm]
  refine ⟨w, hb₁.getVm, wp_mono (calloc_spec _ _ _ _) ?_⟩
  rintro o _ ⟨m₃, rfl, ha₃, ho₃⟩
  have hb₃ := hb₂.setMem ha₃
  cases o with
  | none =>
    rw [wp_pure]
    refine ⟨_, hid.trans ?_, ?_, fun hc => (by cases hc), hb₃⟩
    · exact ⟨rfl, rfl, rfl, rfl, rfl, rfl, rfl, rfl, rfl⟩
    · exact hw
  | some eptp =>
  have hb₄ := hb₃.takeBlock (w := { w with
      eptRoot := some root
      eptPointer := some eptp
      eptp := makeEptp root }) (hb₂.alloc.fresh (ho₃ eptp rfl).1) (by simp [vmBlocks]) rfl
  simp only [wp_bind, wp_getVm, wp_putVm]
  refine ⟨_, hb₃.getVm, wp_mono (calloc_spec _ _ _ _) ?_⟩
  rintro o _ ⟨m₅, rfl, ha₅, ho₅⟩
  have hb₅ := hb₄.setMem ha₅
  cases o with
  | none =>
    rw [wp_pure]
    refine ⟨_, hid.trans ?_, ?_, fun hc => (by cases hc), hb₅⟩
    · exact ⟨rfl, rfl, rfl, rfl, rfl, rfl, rfl, rfl, rfl⟩
    · exact hw
  | some vcpus =>
  simp only [wp_bind, wp_getVm, wp_putVm, wp_pure]
  refine ⟨_, hb₅.getVm, _, hid.trans ?_, ?_, fun _ => ?_,
    hb₅.takeBlock (hb₄.alloc.fresh (ho₅ vcpus rfl).1) (by simp [vmBlocks]) rfl⟩
  · exact ⟨rfl, rfl, rfl, rfl, rfl, rfl, rfl, rfl, rfl⟩
  · exact hw
  · exact ⟨Option.some_ne_none root, hregs (not_not.mp hr)⟩

theorem vmBuild_spec {config : VmConfig} (hv : v.vcpus = []) (hregs₀ : v.memoryRegions = [])
    (hb : Builds vm h₀ v [] h) :
    wp (vmBuild vm config) (fun r h' => ∃ w, SameIdentity v w ∧
      (r = .ok ∧ w.vcpus.length = config.vcpuCount.toNat ∧ w.eptRoot ≠ none ∧
          w.memoryRegions = List.replicate config.memoryRegionCount.toNat {} ∧ Builds vm h₀ w w.vcpus h' ∨
        r ≠ .ok ∧ Builds vm h₀ w [] h')) h := by
  rw [vmBuild_eq, wp_bind]
  refine wp_mono (vmPrepare_spec hv hregs₀ hb) ?_
  rintro r h₁ ⟨w, hid, hw, hok, hb₁⟩
  refine wp_ite (fun hr => ?_) fun hr => ?_
  · rw [wp_pure]
    exact ⟨w, hid, .inr ⟨hr, hb₁⟩⟩
  obtain ⟨hroot, hregs⟩ := hok (not_not.mp hr)
  refine wp_mono (createVcpus_spec hinit hcpus hnone hb₁ hw) ?_
  rintro r h' ⟨x, hx, hxroot, hxregs, hres⟩
  refine ⟨x, hid.trans hx, ?_⟩
  rcases hres with ⟨hok, hlen, hbx⟩ | ⟨hne, hbx⟩
  · refine .inl ⟨hok, ?_, ?_, hxregs.trans hregs, hbx⟩
    · rw [hlen, hw, List.length_nil, Nat.zero_add]
    · rw [hxroot]
      exact hroot
  · exact .inr ⟨hne, hbx⟩

end Builds

/-! ## The call -/

/-- The VM at `vm` linked in at the front of the list. -/
def Host.linkVm (h : Host) (vm : Addr) (v : Nexusvm) : Host :=
  { h with
    hv := { h.hv with vms := some vm, vmCount := h.hv.vmCount + 1 }
    vms := fun a =>
      if a = vm then some { v with next := h.hv.vms, state := .initialized }
      else if h.hv.vms = some a then (h.vms a).map fun w => { w with prev := some vm }
      else h.vms a }

theorem vmLink_spec {h : Host} {vm : Addr} {v : Nexusvm} (hinit : h.gInitialized = true)
    (hv : h.vms vm = some v) (hfirst : ∀ f, h.hv.vms = some f → f ≠ vm ∧ h.vms f ≠ none) :
    wp (vmLink vm) (fun _ h' => h' = h.linkVm vm v) h := by
  have hself : ∀ (g : Host) (a : Addr) (w : Option Nexusvm), (g.setVm a w).vms a = w :=
    fun g a w => Function.update_self _ _ _
  simp only [vmLink, wp_bind, wp_getHv, wp_getVm, wp_putVm]
  refine ⟨hinit, v, hv, ?_⟩
  split
  next hnone =>
    simp only [wp_bind, wp_getVm, wp_putVm, wp_putHv]
    refine ⟨_, hself _ _ _, ?_⟩
    simp only [Host.setVm, Host.setHv, Host.linkVm, Function.update_idem, hnone, Host.mk.injEq,
      true_and, and_true]
    funext a
    by_cases ha : a = vm
    · subst ha
      simp
    · simp [ha]
  next f hf =>
    obtain ⟨hne, hex⟩ := hfirst f hf
    obtain ⟨w, hw⟩ := Option.ne_none_iff_exists'.mp hex
    simp only [wp_bind, wp_getVm, wp_putVm, wp_putHv]
    refine ⟨w, (Function.update_of_ne hne _ _).trans hw, _,
      (Function.update_of_ne hne.symm _ _).trans (hself _ _ _), ?_⟩
    simp only [Host.setVm, Host.setHv, Host.linkVm, hf, Host.mk.injEq, true_and, and_true]
    funext a
    by_cases ha : a = vm
    · subst ha
      simp
    · by_cases haf : a = f
      · subst haf
        simp [ha, hw]
      · simp [ha, haf, Ne.symm haf]

theorem builds_newVm {h : Host} {m : PhysMem} {vm : Addr} (ha : Allocates h.mem m)
    (hfresh : Fresh h.mem vm) (hheld : m.heap.Holds .vm vm) (config : VmConfig) (id : UInt32)
    (name : List UInt8) : Builds vm h (newVm config id name) []
      (((h.setMem m).setHv h.hv.nextId).setVm vm (some (newVm config id name))) := by
  refine ⟨rfl, ha, hheld, fun _ _ => rfl, fun c hc => absurd hc List.not_mem_nil, List.nodup_nil,
    fun p hp a hpa => ?_, fun r hr => (by cases hr)⟩
  simp only [vmBlocks, newVm, List.mem_cons, List.not_mem_nil, or_false] at hp
  rcases hp with rfl | rfl | rfl | rfl | rfl
  on_goal 5 =>
    cases hpa
    exact hfresh
  all_goals cases hpa

theorem vmCreate_effect {h : Host} (hinit : h.gInitialized = true) (honline : h.hv.onlineCpuCount ≠ 0)
    (hnone : ∀ c, Fresh h.mem c → h.vcpus c = none) (hvmnone : ∀ a, Fresh h.mem a → h.vms a = none)
    (hfirst : ∀ f, h.hv.vms = some f → h.vms f ≠ none) (config : VmConfig) :
    wlp (vmCreate (some config)) (fun r h' => match r with
      | .error _ => ∃ m hv, Allocates h.mem m ∧ (hv = h.hv ∨ hv = h.hv.nextId) ∧
          h' = (h.setHv hv).setMem m
      | .ok vm => ∃ v h₁ name, SameIdentity (newVm config h.hv.nextVmId name) v ∧
          v.vcpus.length = config.vcpuCount.toNat ∧ v.eptRoot ≠ none ∧
          v.memoryRegions = List.replicate config.memoryRegionCount.toNat {} ∧
          Builds vm h v v.vcpus h₁ ∧ h' = h₁.linkVm vm v) h := by
  rw [vmCreate, wlp_bind, wlp_get]
  simp only [hinit, Bool.not_true, Bool.false_eq_true, if_false]
  rw [wlp_bind]
  refine wlp_mono (calloc_spec _ _ _ h).wlp ?_
  rintro o _ ⟨m, rfl, ha, ho⟩
  cases o with
  | none =>
    rw [wlp_pure]
    exact ⟨m, h.hv, ha, .inl rfl, rfl⟩
  | some vm =>
  obtain ⟨hfresh, hheld⟩ := ho vm rfl
  simp only [wlp_bind, wlp_getHv, wlp_putHv, wlp_fetch, wlp_putVm]
  rintro - name -
  have hb := builds_newVm ha hfresh hheld config h.hv.nextVmId name
  refine wlp_mono (vmBuild_spec hinit honline hnone rfl rfl hb).wlp ?_
  rintro r h₁ ⟨v, hid, hres⟩
  refine wlp_ite (fun hr => ?_) fun hr => ?_
  · rw [wlp_bind]
    rcases hres with ⟨hok, -⟩ | ⟨-, hb₁⟩
    · exact absurd hok hr
    refine wlp_mono (vmAbandon_spec (hvmnone vm hfresh) hb₁).wlp ?_
    rintro _ h' ⟨m', ha', rfl⟩
    rw [wlp_pure]
    exact ⟨m', _, ha', .inr rfl, rfl⟩
  · rcases hres with ⟨-, hlen, hroot, hregs, hb₁⟩ | ⟨hne, -⟩
    swap
    · exact absurd hne hr
    rw [wlp_bind]
    refine wlp_mono (vmLink_spec ?_ hb₁.getVm ?_).wlp ?_
    · rw [hb₁.shape]
      exact hinit
    · exact hb₁.first hfirst hvmnone
    rintro _ _ rfl
    rw [wlp_pure]
    exact ⟨v, h₁, name, hid, hlen, hroot, hregs, hb₁, rfl⟩

theorem Layout.vcpus_none {P : Addr → Prop} {h : Host} (hl : Layout P h) (c : Addr) (hc : Fresh h.mem c) :
    h.vcpus c = none := by
  by_contra hne
  obtain ⟨u, hu⟩ := Option.ne_none_iff_exists'.mp hne
  obtain ⟨b, hb, -, hbase⟩ := hl.vcpuHeld c u hu
  exact hc b hb hbase

theorem Layout.vms_none {P : Addr → Prop} {h : Host} (hl : Layout P h) (a : Addr) (ha : Fresh h.mem a) :
    h.vms a = none := by
  by_contra hne
  obtain ⟨v, hv⟩ := Option.ne_none_iff_exists'.mp hne
  obtain ⟨b, hb, -, hbase⟩ := hl.vmHeld a v hv
  exact ha b hb hbase

/-- **`vm_create`.** A call that failed has only touched the memory and given out an id. -/
theorem vmCreate_spec {P : Addr → Prop} {h : Host} (hl : Layout P h)
    (hfirst : ∀ f, h.hv.vms = some f → h.vms f ≠ none) (config : VmConfig) :
    wlp (vmCreate (some config)) (fun r h' => match r with
      | .error _ => ∃ m hv, Allocates h.mem m ∧ (hv = h.hv ∨ hv = h.hv.nextId) ∧
          h' = (h.setHv hv).setMem m
      | .ok vm => ∃ v h₁ name, SameIdentity (newVm config h.hv.nextVmId name) v ∧
          v.vcpus.length = config.vcpuCount.toNat ∧ v.eptRoot ≠ none ∧
          v.memoryRegions = List.replicate config.memoryRegionCount.toNat {} ∧
          Builds vm h v v.vcpus h₁ ∧ h' = h₁.linkVm vm v) h := by
  have honline : h.hv.onlineCpuCount ≠ 0 := by
    rw [hl.online]
    exact hl.cpus
  exact vmCreate_effect hl.initialized honline hl.vcpus_none hl.vms_none hfirst config

end NexusVM
