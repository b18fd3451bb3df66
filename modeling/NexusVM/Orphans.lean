import NexusVM.Picking

/-!
# Queued entities and their VMs

* `OrphanFree`: every queued entity belongs to a vCPU of a VM that exists;
* `LifeStep.queued`, `orphanFree_step`: what each call puts on the queues;
* **`queued_owned`**: no entity is left behind as long as no VM that does not run is started or
  destroyed while a vCPU of it is on a queue.
-/

namespace NexusVM

open Prog

variable {n : ℕ} {q : Fin n → List Node} {h h' h₁ : Host} {a : Addr} {v : Nexusvm}

/-- Every queued entity is the entity of a vCPU of some VM. -/
def OrphanFree (h : Host) : Prop := ∀ e, h.Queued e → ∃ a c, h.Owns a c e

/-- No VM that does not run is destroyed while a vCPU of it is on a queue. -/
def DestroysUnqueued : HvOp → Host → Prop
  | .destroy a, h => ∀ v ∈ h.vms a, v.state ≠ .running →
      ∀ c ∈ v.vcpus, ∀ e ∈ h.entityOf c, ¬ h.Queued e
  | _, _ => True

instance (op : HvOp) (h : Host) : Decidable (DestroysUnqueued op h) := by
  unfold DestroysUnqueued
  split <;> infer_instance

/-! ## Owners -/

theorem Touches.entityOf {cs : List Addr} (ht : Touches cs h h₁) {c e : Addr}
    (he : h.entityOf c = some e) : h₁.entityOf c = some e := by
  obtain ⟨u, hu, hue⟩ := Option.bind_eq_some_iff.mp he
  obtain ⟨u', hu', -, -, hse⟩ := ht.owns c u hu
  rw [Host.entityOf, hu']
  exact hse e hue

theorem Host.Owns.vmStep {b c e : Addr} (ho : h.Owns b c e) (hv : h.vms a = some v) {s : VmState}
    (hs : VmStep a v s h h') : h'.Owns b c e := by
  obtain ⟨w, hw, hc, he⟩ := ho
  obtain ⟨h₁, m, ht, -, rfl⟩ := hs
  by_cases hba : b = a
  · subst hba
    rw [hv] at hw
    cases hw
    exact ⟨_, Function.update_self _ _ _, hc, ht.entityOf he⟩
  · refine ⟨w, ?_, hc, ht.entityOf he⟩
    rw [Host.setVm_vms, Function.update_of_ne hba, Host.setMem_vms, ht.vms]
    exact hw

theorem Host.Owns.create {vm b c e : Addr} (hl : Layout (fun _ => True) h) (ho : h.Owns b c e)
    (hb : Builds vm h v v.vcpus h₁) : (h₁.linkVm vm v).Owns b c e := by
  obtain ⟨w, hw, hc, he⟩ := ho
  obtain ⟨u, hu, hue⟩ := Option.bind_eq_some_iff.mp he
  have hne := hb.vm_ne hl hw
  have hw₁ : h₁.vms b = some w := (hb.vms_eq hne).trans hw
  have he' : (h₁.linkVm vm v).entityOf c = some e := by
    show (h₁.vcpus c).bind Nexusvcpu.schedEntity = some e
    rw [(hb.vcpus_of_some hl hu).2]
    exact hue
  by_cases hfirst : h₁.hv.vms = some b
  · refine ⟨{ w with prev := some vm }, ?_, hc, he'⟩
    simp only [Host.linkVm, if_neg hne, if_pos hfirst, hw₁, Option.map_some]
  · refine ⟨w, ?_, hc, he'⟩
    simp only [Host.linkVm, if_neg hne, if_neg hfirst, hw₁]

theorem Host.Owns.destroy {b c e : Addr} (hl : Layout (fun _ => True) h) (ho : h.Owns b c e)
    (hv : h.vms a = some v) (hd : Destroys a v h h') (hne : b ≠ a) : h'.Owns b c e := by
  obtain ⟨w, hw, hc, he⟩ := ho
  have hcv : c ∉ v.vcpus := hl.vcpus_disjoint hv hw hne c hc
  have he' : h'.entityOf c = some e := by
    rw [Host.entityOf, hd.vcpus, if_neg hcv]
    exact he
  obtain ⟨w', hw', hvc⟩ : ∃ w', (h.unlinkVm v).vms b = some w' ∧ w'.vcpus = w.vcpus := by
    unfold Host.unlinkVm
    dsimp only
    split_ifs <;> rw [hw] <;> exact ⟨_, rfl, rfl⟩
  refine ⟨w', ?_, hvc ▸ hc, he'⟩
  rw [hd.vms, Function.update_of_ne hne]
  exact hw'

/-! ## Steps -/

/-- **A call on one VM** puts only entities of its own on the queues. -/
theorem LifeStep.queued (hi : QueueInv n h q) (hv : h.vms a = some v) {op : LifecycleOp}
    (hC : StartsUnqueued (.lifecycle op a) h) (hs : LifeStep a v h op h') (hhv : HvInv h') {e : Addr}
    (he : h'.Queued e) : h.Queued e ∨ ∃ c ∈ v.vcpus, h'.entityOf c = some e := by
  have hg := hi.hv.good
  have hnd := hg.layout.nodup a v trivial hv
  -- the queues after the call, where it takes entities out at most
  have hless : ∀ q', Queues n h' q' → (∀ i, .entity e ∈ q' i → .entity e ∈ q i) → h.Queued e := by
    rintro q' hq' hsub
    obtain ⟨i, hie⟩ := (hq'.queued_iff hhv.good.layout).mp he
    exact (hi.queues.queued_iff hg.layout).mpr ⟨i, hsub i hie⟩
  have hstopped : ∀ h₁, v.state = .running → StopsAll v.vcpus h h₁ → ∃ q', Queues n h₁ q' ∧
      ∀ i, .entity e ∈ q' i → .entity e ∈ q i := by
    intro h₁ hrun hs
    obtain ⟨q', hq', hmem⟩ := hs.queues (entitiesOf_nodup hg.layout hnd) hi.queues
      (hi.enrolled a v hv (.inl hrun))
    exact ⟨q', hq', fun i hie => ((hmem i e).mp hie).1⟩
  cases hs with
  | start hs =>
    obtain ⟨q', hq', -, -, hback⟩ := hs.queues hi.hv.good hi.queues hv (hC v hv hs.1) hhv.good
    obtain ⟨i, hie⟩ := (hq'.queued_iff hhv.good.layout).mp he
    rcases hback i e hie with hie | hown
    · exact .inl ((hi.queues.queued_iff hg.layout).mpr ⟨i, hie⟩)
    · exact .inr hown.2
  | stop hrun hs =>
    obtain ⟨q', hq', hsub⟩ := hstopped _ hrun hs
    exact .inl (hless q' (hq'.congr rfl rfl fun _ => id) hsub)
  | pause => exact .inl (hless q (hi.queues.congr rfl rfl fun _ => id) fun _ => id)
  | resume => exact .inl (hless q (hi.queues.congr rfl rfl fun _ => id) fun _ => id)
  | reset hs =>
    rcases hs with ⟨-, rfl⟩ | ⟨hrun, hs⟩
    · exact .inl (hless q (hi.queues.congr rfl rfl fun _ => id) fun _ => id)
    · obtain ⟨q', hq', hsub⟩ := hstopped _ hrun hs
      exact .inl (hless q' (hq'.congr rfl rfl fun _ => id) hsub)

/-- **A destruction** leaves no entity of the VM on a queue. -/
theorem Destroys.orphanFree (hi : QueueInv n h q) (ho : OrphanFree h) (hv : h.vms a = some v)
    (hD : DestroysUnqueued (.destroy a) h) (hd : Destroys a v h h') (hhv : HvInv h') :
    OrphanFree h' := by
  intro e he
  have hg := hi.hv.good
  obtain ⟨q', hq', hmem⟩ := hd.queues hi hv
  obtain ⟨i, hie⟩ := (hq'.queued_iff hhv.good.layout).mp he
  obtain ⟨hie, hother⟩ := (hmem i e).mp hie
  have hqe : h.Queued e := (hi.queues.queued_iff hg.layout).mpr ⟨i, hie⟩
  obtain ⟨b, c, hown⟩ := ho e hqe
  refine ⟨b, c, hown.destroy hg.layout hv hd ?_⟩
  rintro rfl
  obtain ⟨w, hw, hc, hce⟩ := hown
  rw [hv] at hw
  cases hw
  by_cases hrun : v.state = .running
  · exact hother hrun c hc hce
  · exact hD v hv hrun c hc e hce hqe

/-- **Each call keeps every queued entity owned**, where no VM that does not run is started or
destroyed while it is on a queue. -/
theorem orphanFree_step (hi : QueueInv n h q) (ho : OrphanFree h) {op : HvOp}
    (hC : StartsUnqueued op h) (hD : DestroysUnqueued op h) (hs : HvStep h op h') (hhv : HvInv h') :
    OrphanFree h' := by
  intro e he
  have hg := hi.hv.good
  have hsame : Queues n h' q → h.Queued e := fun hq' =>
    (hi.queues.queued_iff hg.layout).mpr ((hq'.queued_iff hhv.good.layout).mp he)
  cases hs with
  | createFailed => exact ho e (hsame (hi.queues.congr rfl rfl fun _ => id))
  | @create config vm v h₁ name _ _ _ _ hb =>
    have hq' : Queues n (h₁.linkVm vm v) q := by
      rw [hb.shape]
      exact hi.queues.congr rfl rfl fun _ => id
    obtain ⟨b, c, hown⟩ := ho e (hsame hq')
    exact ⟨b, c, hown.create hg.layout hb⟩
  | lifecycle hv hs =>
    obtain ⟨s, hstep⟩ := hs.vmStep hv
    rcases hs.queued hi hv hC hhv he with he | ⟨c, hc, hce⟩
    · obtain ⟨b, c, hown⟩ := ho e he
      exact ⟨b, c, hown.vmStep hv hstep⟩
    · obtain ⟨h₁, m, -, -, rfl⟩ := hstep
      exact ⟨_, c, _, Function.update_self _ _ _, hc, hce⟩
  | destroy hv hd => exact hd.orphanFree hi ho hv hD hhv e he
  | @loadBalance cpu tgt hcpu htgt hne =>
    have hcpu' : cpu.toNat < n := by rw [← hi.queues.cpus]; exact UInt32.lt_iff_toNat_lt.mp hcpu
    have htgt' : tgt < n := by rw [← hi.queues.cpus]; exact htgt
    obtain ⟨q', hq', hmem⟩ := hi.queues.rotate hcpu' htgt' hne
    exact ho e ((hi.queues.queued_iff hg.layout).mpr ((hmem e).mpr ((hq'.queued_iff hhv.good.layout).mp he)))

/-! ## Runs -/

theorem orphanFree_run {h₀ : Host} (hboot : Boot h₀) {ops : List HvOp}
    (hC : Along HvOp.run (fun op h => StartsUnqueued op h ∧ DestroysUnqueued op h) ops h₀)
    (hrun : (runOps HvOp.run ops).run h₀ = some ((), h)) :
    (∃ q, QueueInv h₀.gCpuCount.toNat h q) ∧ OrphanFree h := by
  have hempty : OrphanFree h₀ := by
    intro e he
    have hq := hboot.queueInv
    obtain ⟨i, hi⟩ := (hq.queues.queued_iff hq.hv.good.layout).mp he
    cases hi
  refine wlp_runOps (I := fun h => (∃ q, QueueInv h₀.gCpuCount.toNat h q) ∧ OrphanFree h) ?_ hC
    ⟨⟨_, hboot.queueInv⟩, hempty⟩ () h hrun
  rintro op g ⟨hS, hD⟩ ⟨⟨q, hi⟩, ho⟩
  refine wlp_mono (hvOp_spec hi.hv op) ?_
  rintro _ g' ⟨hhv, rfl | hs⟩
  · exact ⟨⟨q, hi⟩, ho⟩
  · exact ⟨queueInv_step hi hS hs hhv, orphanFree_step hi ho hS hD hs hhv⟩

/-- **No orphans.** From empty queues, every run of creations, lifecycle calls, destructions and
load balancing in which no VM that does not run is started or destroyed while a vCPU of it is on a
queue leads to well-formed queues, on which every entity is that of a vCPU of a VM in the list; and
the search for the owner of a queued entity finds it. -/
theorem queued_owned {h₀ : Host} (hboot : Boot h₀) {ops : List HvOp}
    (hC : Along HvOp.run (fun op h => StartsUnqueued op h ∧ DestroysUnqueued op h) ops h₀)
    (hrun : (runOps HvOp.run ops).run h₀ = some ((), h)) :
    WellFormedQueues h ∧ ∃ xs, DoublyLinked h none xs h.hv.vms ∧
      ∀ e, h.Queued e → ∃ a c v, a ∈ xs ∧ h.vms a = some v ∧ c ∈ v.vcpus ∧
        h.entityOf c = some e ∧ (vcpuOfEntity e).run h = some (some c, h) := by
  obtain ⟨⟨q, hi⟩, ho⟩ := orphanFree_run hboot hC hrun
  have hg := hi.hv.good
  obtain ⟨xs, hr⟩ := hi.hv.listed
  refine ⟨hi.queues.wellFormed, xs, hr.doublyLinked, fun e he => ?_⟩
  obtain ⟨a, c, hown⟩ := ho e he
  obtain ⟨r, g, hsearch, rfl, hsome, hnone⟩ := vcpuOfEntity_spec hg.layout hr e
  cases r with
  | none => exact absurd hown (hnone rfl a c)
  | some d =>
    obtain ⟨b, hown'⟩ := hsome d rfl
    obtain ⟨-, rfl⟩ := hown.unique hg.layout hown'
    obtain ⟨v, hv, hc, hce⟩ := hown
    refine ⟨a, c, v, (hr.mem a).mpr ?_, hv, hc, hce, hsearch⟩
    rw [hv]
    exact Option.some_ne_none v

theorem queued_owned_second_vm : ∃ h a c v, (runOps HvOp.run [.create { vcpuCount := 1 },
      .lifecycle .start 16384, .create { vcpuCount := 1 }, .lifecycle .start 196608,
      .destroy 16384]).run (bootHost 1 .intel) = some ((), h) ∧
      h.Queued 360448 ∧ h.vms a = some v ∧ c ∈ v.vcpus ∧ h.entityOf c = some 360448 := by
  have hres : ((runOps HvOp.run [.create { vcpuCount := 1 }, .lifecycle .start 16384,
      .create { vcpuCount := 1 }, .lifecycle .start 196608, .destroy 16384]).run
        (bootHost 1 .intel)).any (fun p => p.2.Queued 360448) = true := by decide +kernel
  obtain ⟨⟨⟨⟩, h⟩, hrun, hq⟩ := (Option.any_eq_true _ _).mp hres
  obtain ⟨-, xs, -, hown⟩ := queued_owned (boot_bootHost (by decide) .intel)
    (by decide +kernel) hrun
  have hqueued := of_decide_eq_true hq
  obtain ⟨a, c, v, -, hv, hc, hce, -⟩ := hown _ hqueued
  exact ⟨h, a, c, v, hrun, hqueued, hv, hc, hce⟩

/-- **A queued entity can outlive its VM.** `vm_destroy` stops only a running VM, and a paused one is
still queued: its entity stays behind in an empty hypervisor, and the search for its owner finds
none. -/
theorem destroy_of_paused_leaves_orphan : ∃ h, (runOps HvOp.run [.create { vcpuCount := 1 },
      .lifecycle .start 16384, .lifecycle .pause 16384, .destroy 16384]).run (bootHost 1 .intel) =
        some ((), h) ∧
      h.mem.heap.refused = 0 ∧ h.hv.vms = none ∧ h.Queued 180224 ∧ ¬ OrphanFree h ∧
      (vcpuOfEntity 180224).run h = some (none, h) := by
  have hres : ((runOps HvOp.run [.create { vcpuCount := 1 }, .lifecycle .start 16384,
      .lifecycle .pause 16384, .destroy 16384]).run (bootHost 1 .intel)).map
        (fun p => (p.2.mem.heap.refused, p.2.hv.vms, p.2.runqueue 0, p.2.gCpuCount)) =
      some (0, none, some [.entity 180224], 1) := by decide +kernel
  obtain ⟨⟨⟨⟩, h⟩, hrun, hres⟩ := Option.map_eq_some_iff.mp hres
  simp only [Prod.mk.injEq] at hres
  obtain ⟨hrefused, hvms, hqueue, hcpus⟩ := hres
  have hqueued : h.Queued 180224 := by
    refine ⟨0, ?_, _, hqueue, List.mem_singleton_self _⟩
    rw [hcpus]
    decide
  have hi := hvInv_run (boot_bootHost (by decide) .intel) hrun
  obtain ⟨xs, hr⟩ := hi.listed
  have hempty : ∀ a v, h.vms a ≠ some v := by
    intro a v hv
    obtain rfl : xs = [] := List.head?_eq_none_iff.mp (hr.first.symm.trans hvms)
    refine absurd ((hr.mem a).mpr ?_) List.not_mem_nil
    rw [hv]
    exact Option.some_ne_none v
  obtain ⟨r, g, hsearch, rfl, hsome, -⟩ := vcpuOfEntity_spec hi.good.layout hr 180224
  have hnone : r = none := by
    cases r with
    | none => rfl
    | some c =>
      obtain ⟨a, v, hv, -⟩ := hsome c rfl
      exact absurd hv (hempty a v)
  refine ⟨g, hrun, hrefused, hvms, hqueued, fun ho => ?_, hnone ▸ hsearch⟩
  obtain ⟨a, c, v, hv, -⟩ := ho _ hqueued
  exact hempty a v hv

end NexusVM
