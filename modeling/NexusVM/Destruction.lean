import NexusVM.Creation
import NexusVM.Lifecycle

/-!
# Destroying a VM

* `Host.dropVcpus`, `destroyVcpus_spec`: the loop over the vCPUs;
* `Host.unlinkVm`, `vmUnlink_spec`: the stores that take a VM out of the list;
* `Destroys`, **`vmDestroy_spec`**: what a call on a listed VM does, and that it returns.
-/

namespace NexusVM

open Prog

variable {h h' : Host} {a : Addr} {v : Nexusvm}

/-! ## vCPUs -/

/-- The vCPUs `cs` are gone. -/
def Host.dropVcpus (h : Host) (cs : List Addr) : Host :=
  { h with vcpus := fun c => if c ∈ cs then none else h.vcpus c }

theorem destroyVcpus_spec (hinit : h.gInitialized = true) {cs : List Addr} (hnd : cs.Nodup)
    (hcs : ∀ c ∈ cs, ∃ u, h.vcpus c = some u ∧ u.running = false) :
    wp (forEach (fun c => discard (vcpuDestroy (some c))) cs) (fun _ h' => ∃ m l,
      h' = (h.dropVcpus cs).setMem m ∧ Frees l h.mem m ∧
      ∀ p ∈ l, ∃ c ∈ cs, ∃ u, h.vcpus c = some u ∧ p ∈ vcpuBlocks c u) h := by
  refine wp_forEach _ (fun pre h₁ => ∃ m l, h₁ = (h.dropVcpus pre).setMem m ∧ Frees l h.mem m ∧
    ∀ p ∈ l, ∃ c ∈ cs, ∃ u, h.vcpus c = some u ∧ p ∈ vcpuBlocks c u) cs ?_ ?_
  · rintro pre c post _ hpre ⟨m, l, rfl, hf, hl⟩
    have hc : c ∈ cs := by rw [hpre]; exact List.mem_append_right _ List.mem_cons_self
    have hcpre : c ∉ pre := by
      intro hmem
      rw [hpre] at hnd
      exact (List.nodup_append.mp hnd).2.2 c hmem c List.mem_cons_self rfl
    obtain ⟨u, hu, hstopped⟩ := hcs c hc
    have hu' : ((h.dropVcpus pre).setMem m).vcpus c = some u := (if_neg hcpre).trans hu
    rw [wp_discard]
    refine wp_mono (vcpuDestroy_spec (h := (h.dropVcpus pre).setMem m) hinit hu' hstopped) ?_
    rintro _ _ ⟨m', rfl, hf'⟩
    refine ⟨m', l ++ vcpuBlocks c u, ?_, hf.trans hf', fun p hp => ?_⟩
    · simp only [Host.dropVcpus, Host.setVcpu, Host.setMem, Host.mk.injEq, true_and, and_true]
      funext d
      by_cases hdc : d = c
      · subst hdc
        simp
      · simp [hdc]
    · rcases List.mem_append.mp hp with hp | hp
      · exact hl p hp
      · exact ⟨c, hc, u, hu, hp⟩
  · refine ⟨h.mem, [], ?_, Frees.refl _ _, fun p hp => absurd hp List.not_mem_nil⟩
    simp only [Host.dropVcpus, Host.setMem, List.not_mem_nil, if_false]

/-! ## The list -/

/-- The VM at `a` is unlinked from its neighbours in the list. -/
def Host.unlinkVm (h : Host) (v : Nexusvm) : Host :=
  { h with
    hv := { h.hv with
      vms := if v.prev = none then v.next else h.hv.vms
      vmCount := h.hv.vmCount - 1 }
    vms := fun b =>
      if v.prev = some b then (h.vms b).map fun w => { w with next := v.next }
      else if v.next = some b then (h.vms b).map fun w => { w with prev := v.prev }
      else h.vms b }

theorem unlinkVm_setMem (h : Host) (v : Nexusvm) (m : PhysMem) :
    (h.setMem m).unlinkVm v = (h.unlinkVm v).setMem m := rfl

theorem vmUnlink_spec (hinit : h.gInitialized = true) (hv : h.vms a = some v)
    (hprev : ∀ p, v.prev = some p → h.vms p ≠ none ∧ v.next ≠ some p)
    (hnext : ∀ n, v.next = some n → h.vms n ≠ none) :
    wp (vmUnlink a) (fun _ h' => h' = h.unlinkVm v) h := by
  simp only [vmUnlink, wp_bind, wp_getVm]
  refine ⟨v, hv, ?_⟩
  cases hp : v.prev with
  | none =>
    simp only [wp_bind, wp_getHv, wp_putHv]
    refine ⟨hinit, ?_⟩
    cases hn : v.next with
    | none =>
      simp only [wp_bind, wp_getHv, wp_putHv]
      refine ⟨hinit, ?_⟩
      simp [Host.setHv, Host.unlinkVm, hp, hn]
    | some n =>
      obtain ⟨w, hw⟩ := Option.ne_none_iff_exists'.mp (hnext n hn)
      simp only [wp_bind, wp_getVm, wp_putVm, wp_getHv, wp_putHv]
      refine ⟨w, hw, hinit, ?_⟩
      simp only [Host.setHv, Host.setVm, Host.unlinkVm, hp, hn, reduceCtorEq, if_false, if_true,
        Host.mk.injEq, true_and, and_true]
      funext b
      by_cases hb : b = n
      · subst hb
        simp [hw]
      · simp [hb, Ne.symm hb]
  | some p =>
    obtain ⟨hpv, hpn⟩ := hprev p hp
    obtain ⟨x, hx⟩ := Option.ne_none_iff_exists'.mp hpv
    simp only [wp_bind, wp_getVm, wp_putVm]
    refine ⟨x, hx, ?_⟩
    cases hn : v.next with
    | none =>
      simp only [wp_bind, wp_getHv, wp_putHv]
      refine ⟨hinit, ?_⟩
      simp only [Host.setHv, Host.setVm, Host.unlinkVm, hp, hn, reduceCtorEq, if_false,
        Host.mk.injEq, true_and, and_true]
      funext b
      by_cases hb : b = p
      · subst hb
        simp [hx]
      · simp [hb, Ne.symm hb]
    | some n =>
      have hne : n ≠ p := by
        rintro rfl
        exact hpn hn
      obtain ⟨w, hw⟩ := Option.ne_none_iff_exists'.mp (hnext n hn)
      simp only [wp_bind, wp_getVm, wp_putVm, wp_getHv, wp_putHv]
      refine ⟨w, (Function.update_of_ne hne _ _).trans hw, hinit, ?_⟩
      simp only [Host.setHv, Host.setVm, Host.unlinkVm, hp, hn, reduceCtorEq, if_false,
        Host.mk.injEq, true_and, and_true, Option.some.injEq]
      funext b
      by_cases hb : b = n
      · subst hb
        simp [hw, hne.symm]
      · by_cases hbp : b = p
        · subst hbp
          simp [hx, hb]
        · simp [hb, hbp, Ne.symm hb, Ne.symm hbp]

/-! ## The call -/

/-- The kinds of blocks that `vm_destroy` gives back. -/
def DestroyKind (a : Addr) (v : Nexusvm) (k : BlockKind) (x : Addr) : Prop :=
  k ≠ .entity ∧ (k = .vm → x = a) ∧ (k = .vcpu → x ∈ v.vcpus) ∧ (k = .pages → v.eptRoot = some x)

/-- What `vm_destroy` has done to the VM at `a`. -/
structure Destroys (a : Addr) (v : Nexusvm) (h h' : Host) : Prop where
  statics : SameStatics h h'
  hv : h'.hv = (h.unlinkVm v).hv
  vms : h'.vms = Function.update (h.unlinkVm v).vms a none
  vcpus : ∀ c, h'.vcpus c = if c ∈ v.vcpus then none else h.vcpus c
  entities : h'.entities = h.entities
  links : v.state ≠ .running ∧ h'.links = h.links ∨
    v.state = .running ∧ h'.links = unlinkAll h.links (v.vcpus.filterMap h.entityOf)
  frees : ∃ l, Frees l h.mem h'.mem ∧ ∀ k x, (k, some x) ∈ l → DestroyKind a v k x

theorem vmFreeParts_spec (v : Nexusvm) (h : Host) : wp (vmFreeParts v) (fun _ h' => ∃ m,
    h' = h.setMem m ∧ Frees [(.vcpus, v.vcpuTable), (.pages, v.eptRoot), (.eptp, v.eptPointer),
      (.regions, v.regionTable)] h.mem m) h := by
  simp only [vmFreeParts, wp_bind]
  refine wp_mono (freeBuffer_spec _ _ _) ?_
  rintro _ _ ⟨m₂, rfl, h₂⟩
  refine wp_mono (eptFreeRoot_spec _ _) ?_
  rintro _ _ ⟨m₃, rfl, h₃⟩
  refine wp_mono (freeBuffer_spec _ _ _) ?_
  rintro _ _ ⟨m₄, rfl, h₄⟩
  refine wp_mono (freeBuffer_spec _ _ _) ?_
  rintro _ _ ⟨m₅, rfl, h₅⟩
  exact ⟨m₅, rfl, ((h₂.trans h₃).trans h₄).trans h₅⟩

theorem destroyKind_vcpu {c x : Addr} {u : Nexusvcpu} {k : BlockKind} (hc : c ∈ v.vcpus)
    (hp : (k, some x) ∈ vcpuBlocks c u) : DestroyKind a v k x := by
  simp only [vcpuBlocks, List.mem_cons, Prod.mk.injEq, List.not_mem_nil, or_false] at hp
  rcases hp with ⟨rfl, -⟩ | ⟨rfl, -⟩ | ⟨rfl, -⟩ | ⟨rfl, -⟩ | ⟨rfl, -⟩ | ⟨rfl, -⟩ | ⟨rfl, hxc⟩
  on_goal 7 => cases hxc
  all_goals simp [DestroyKind, hc]

theorem destroyKind_vm {x : Addr} {k : BlockKind}
    (hp : (k, some x) ∈ [(BlockKind.vcpus, v.vcpuTable), (.pages, v.eptRoot),
      (.eptp, v.eptPointer), (.regions, v.regionTable), (.nestedVmx, v.nestedVmx),
      (.nestedSvm, v.nestedSvm), (.vm, some a)]) : DestroyKind a v k x := by
  simp only [List.mem_cons, Prod.mk.injEq, List.not_mem_nil, or_false] at hp
  rcases hp with ⟨rfl, -⟩ | ⟨rfl, hr⟩ | ⟨rfl, -⟩ | ⟨rfl, -⟩ | ⟨rfl, -⟩ | ⟨rfl, -⟩ | ⟨rfl, hxa⟩
  on_goal 7 => cases hxa
  on_goal 2 => rw [DestroyKind, hr]
  all_goals simp [DestroyKind]

theorem vmDestroy_tail (hinit : h.gInitialized = true) (hv : ∃ s, h.vms a = some { v with state := s })
    (hnd : v.vcpus.Nodup) (hcs : ∀ c ∈ v.vcpus, ∃ u, h.vcpus c = some u ∧ u.running = false)
    (hprev : ∀ p, v.prev = some p → h.vms p ≠ none ∧ v.next ≠ some p)
    (hnext : ∀ n, v.next = some n → h.vms n ≠ none) :
    wp (do
      Prog.forEach (fun c => discard (vcpuDestroy (some c))) v.vcpus
      vmFreeParts v
      vmUnlink a
      freeBuffer .nestedVmx v.nestedVmx
      freeBuffer .nestedSvm v.nestedSvm
      freeVm a
      return Result.ok) (fun _ h' => ∃ m l,
        h' = (((h.dropVcpus v.vcpus).unlinkVm v).setMem m).setVm a none ∧ Frees l h.mem m ∧
        ∀ k x, (k, some x) ∈ l → DestroyKind a v k x) h := by
  obtain ⟨s, hv⟩ := hv
  rw [wp_bind]
  refine wp_mono (destroyVcpus_spec hinit hnd hcs) ?_
  rintro _ _ ⟨m₁, l, rfl, hf, hblocks⟩
  rw [wp_bind]
  refine wp_mono (vmFreeParts_spec v _) ?_
  rintro _ _ ⟨m₂, rfl, h₂⟩
  rw [wp_bind]
  refine wp_mono (vmUnlink_spec (v := { v with state := s }) hinit hv hprev hnext) ?_
  rintro _ _ rfl
  rw [wp_bind]
  refine wp_mono (freeBuffer_spec _ _ _) ?_
  rintro _ _ ⟨m₃, rfl, h₃⟩
  rw [wp_bind]
  refine wp_mono (freeBuffer_spec _ _ _) ?_
  rintro _ _ ⟨m₄, rfl, h₄⟩
  rw [wp_bind, wp_freeVm, wp_pure]
  have htail := ((h₂.trans h₃).trans h₄).trans (frees_release m₄ .vm a)
  refine ⟨_, _, ?_, hf.trans htail, fun k x hx => ?_⟩
  · simp only [Host.setMem_setMem, unlinkVm_setMem]
    rfl
  rcases List.mem_append.mp hx with hx | hx
  · obtain ⟨c, hc, u, -, hp⟩ := hblocks _ hx
    exact destroyKind_vcpu hc hp
  · exact destroyKind_vm hx

/-- **`vm_destroy`.** -/
theorem vmDestroy_spec (hg : Good h) (hv : h.vms a = some v)
    (hprev : ∀ p, v.prev = some p → p ≠ a ∧ h.vms p ≠ none ∧ v.next ≠ some p)
    (hnext : ∀ n, v.next = some n → n ≠ a ∧ h.vms n ≠ none) :
    wp (vmDestroy (some a)) (fun _ h' => Destroys a v h h') h := by
  rw [vmDestroy, wp_bind, wp_getVm]
  refine ⟨v, hv, ?_⟩
  rw [wp_bind]
  refine wp_mono (stopRunning_spec hg hv) ?_
  rintro _ _ ⟨h₁, s, hcase, ht, hl, hrun, rfl⟩
  -- stopping has changed neither the memory nor the other VMs
  have hmem : h₁.mem = h.mem := by
    rcases hcase with ⟨-, rfl⟩ | ⟨-, hs⟩
    · rfl
    · exact hs.mem
  have hents : h₁.entities = h.entities := by
    rcases hcase with ⟨-, rfl⟩ | ⟨-, hs⟩
    · rfl
    · exact hs.entities
  have hlinks : v.state ≠ .running ∧ h₁.links = h.links ∨ v.state = .running ∧
      h₁.links = unlinkAll h.links (v.vcpus.filterMap h.entityOf) := by
    rcases hcase with ⟨hne, rfl⟩ | ⟨hs', hs⟩
    · exact .inl ⟨hne, rfl⟩
    · exact .inr ⟨hs', hs.links⟩
  have hv₁ : h₁.vms a = some v := by rw [ht.vms]; exact hv
  have hget : ∀ b, b ≠ a → h.vms b ≠ none → (h₁.setVm a (some { v with state := s })).vms b ≠ none := by
    intro b hb hne
    rw [Host.setVm_vms, Function.update_of_ne hb, ht.vms]
    exact hne
  refine wp_mono (vmDestroy_tail hl.initialized ⟨s, Function.update_self _ _ _⟩
    (hg.layout.nodup a v trivial hv) (fun c hc => ?_) (fun p hp => ?_) fun n hn => ?_) ?_
  · obtain ⟨u, hu, -⟩ := hl.vcpus a v trivial hv₁ c hc
    exact ⟨u, hu, hrun c hc u hu⟩
  · obtain ⟨hpa, hpv, hpn⟩ := hprev p hp
    exact ⟨hget p hpa hpv, hpn⟩
  · obtain ⟨hna, hnv⟩ := hnext n hn
    exact hget n hna hnv
  rintro _ _ ⟨m, l, rfl, hf, hkind⟩
  refine ⟨⟨ht.statics.1, ht.statics.2, ht.statics.3, ht.statics.4, ht.statics.5⟩, ?_, ?_,
    fun c => ?_, hents, hlinks, l, ?_, hkind⟩
  · have hhv : h₁.hv = h.hv := ht.hv
    simp only [Host.setVm_hv, Host.setMem_hv, Host.unlinkVm, Host.dropVcpus, hhv]
  · funext b
    by_cases hb : b = a
    · subst hb
      simp
    · simp only [Host.setVm_vms, Host.setMem_vms, Function.update_of_ne hb, Host.unlinkVm,
        Host.dropVcpus, ht.vms]
  · by_cases hc : c ∈ v.vcpus
    · rw [if_pos hc]
      exact if_pos hc
    · rw [if_neg hc, ← ht.others c hc]
      exact if_neg hc
  · rw [← hmem]
    exact hf

end NexusVM
