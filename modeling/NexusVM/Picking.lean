import NexusVM.Queues

/-!
# What the scheduler picks

* `Host.Owns`: the VM and the vCPU of an entity, and `vcpuOfEntity_spec`: the search for them;
* `cfsScan_zero`, **`schedulerSchedule_spec`**: the vCPU of the first entity is returned;
* **`schedule_running_iff`**: it runs just if its VM does.
-/

namespace NexusVM

open Prog

variable {n : ℕ} {q : Fin n → List Node} {h h' : Host} {xs : List Addr}

/-! ## The owner of an entity -/

/-- `c` is a vCPU of the VM at `a`, and `e` is its entity. -/
def Host.Owns (h : Host) (a c e : Addr) : Prop :=
  ∃ v, h.vms a = some v ∧ c ∈ v.vcpus ∧ h.entityOf c = some e

theorem Host.Owns.unique (hl : Layout (fun _ => True) h) {a a' c c' e : Addr}
    (ho : h.Owns a c e) (ho' : h.Owns a' c' e) : a = a' ∧ c = c' := by
  obtain ⟨v, hv, hc, he⟩ := ho
  obtain ⟨v', hv', hc', he'⟩ := ho'
  obtain rfl := hl.entityOf_inj he he'
  obtain ⟨u, hu, rfl⟩ := hl.vcpus a v trivial hv c hc
  obtain ⟨u', hu', rfl⟩ := hl.vcpus a' v' trivial hv' c hc'
  rw [hu] at hu'
  cases hu'
  exact ⟨rfl, rfl⟩

theorem findInVm_spec {e : Addr} {cs : List Addr} (hcs : ∀ c ∈ cs, h.vcpus c ≠ none) :
    wp (findInVm e cs) (fun r h' => h' = h ∧ r = cs.find? fun c => h.entityOf c = some e) h := by
  induction cs with
  | nil =>
    rw [findInVm, wp_pure]
    exact ⟨rfl, rfl⟩
  | cons c cs ih =>
    obtain ⟨u, hu⟩ := Option.ne_none_iff_exists'.mp (hcs c List.mem_cons_self)
    have hent : h.entityOf c = u.schedEntity := by rw [Host.entityOf, hu]; rfl
    rw [findInVm, wp_bind, wp_getVcpu]
    refine ⟨u, hu, wp_ite (fun he => ?_) fun he => ?_⟩
    · rw [wp_pure, List.find?_cons_of_pos (by rw [hent, he]; simp)]
      exact ⟨rfl, rfl⟩
    · rw [List.find?_cons_of_neg (by rw [hent]; simpa using he)]
      exact ih fun d hd => hcs d (List.mem_cons_of_mem _ hd)

/-- All vCPUs of the VMs are there. -/
def Host.HasVcpusOf (h : Host) (xs : List Addr) : Prop :=
  ∀ a ∈ xs, ∀ v, h.vms a = some v → ∀ c ∈ v.vcpus, h.vcpus c ≠ none

theorem findVcpu_spec {e : Addr} {prev p : Option Addr} {fuel : ℕ} (hvcpus : h.HasVcpusOf xs)
    (hl : DoublyLinked h prev xs p) (hf : xs.length ≤ fuel) : wp (findVcpu e fuel p) (fun r h' =>
      h' = h ∧ (∀ c, r = some c → ∃ a ∈ xs, h.Owns a c e) ∧
        (r = none → ∀ a ∈ xs, ∀ c, ¬ h.Owns a c e)) h := by
  induction xs generalizing prev p fuel with
  | nil =>
    obtain rfl := hl
    unfold findVcpu
    rw [wp_pure]
    exact ⟨rfl, nofun, fun _ a ha => absurd ha List.not_mem_nil⟩
  | cons a xs ih =>
    obtain ⟨rfl, v, hv, -, hrest⟩ := hl
    rw [List.length_cons] at hf
    obtain ⟨fuel, rfl⟩ : ∃ k, fuel = k + 1 := ⟨fuel - 1, by omega⟩
    rw [findVcpu, wp_bind, wp_getVm]
    refine ⟨v, hv, ?_⟩
    rw [wp_bind]
    refine wp_mono (findInVm_spec (hvcpus a List.mem_cons_self v hv)) ?_
    rintro r _ ⟨rfl, hr⟩
    cases r with
    | some c =>
      have hc := List.find?_some hr.symm
      rw [wp_pure]
      refine ⟨rfl, fun d hd => ?_, nofun⟩
      cases hd
      exact ⟨a, List.mem_cons_self, v, hv, List.mem_of_find?_eq_some hr.symm, by simpa using hc⟩
    | none =>
      refine wp_mono (ih (fun b hb => hvcpus b (List.mem_cons_of_mem _ hb)) hrest (by omega)) ?_
      rintro r _ ⟨rfl, hsome, hnone⟩
      refine ⟨rfl, fun c hc => ?_, fun hr' b hb c => ?_⟩
      · obtain ⟨b, hb, ho⟩ := hsome c hc
        exact ⟨b, List.mem_cons_of_mem _ hb, ho⟩
      rcases List.mem_cons.mp hb with rfl | hb
      · rintro ⟨w, hw, hc, he⟩
        rw [hv] at hw
        cases hw
        have := List.find?_eq_none.mp hr.symm c hc
        simp [he] at this
      · exact hnone hr' b hb c

/-- **The search for the vCPU of an entity** finds its owner, if there is one. -/
theorem vcpuOfEntity_spec (hlay : Layout (fun _ => True) h) (hr : Registry h xs) (e : Addr) :
    wp (vcpuOfEntity e) (fun r h' => h' = h ∧ (∀ c, r = some c → ∃ a, h.Owns a c e) ∧
      (r = none → ∀ a c, ¬ h.Owns a c e)) h := by
  have hlen := hr.length_le hlay
  rw [vcpuOfEntity, wp_bind, wp_getHv]
  refine ⟨hlay.initialized, ?_⟩
  rw [wp_bind, wp_get]
  have hvcpus : h.HasVcpusOf xs := fun a _ v hv c hc => by
    obtain ⟨u, hu, -⟩ := hlay.vcpus a v trivial hv c hc
    rw [hu]
    exact Option.some_ne_none u
  refine wp_mono (findVcpu_spec hvcpus hr.doublyLinked (by unfold Host.fuel; omega)) ?_
  rintro r _ ⟨rfl, hsome, hnone⟩
  refine ⟨rfl, fun c hc => ?_, fun hr' a c ho => hnone hr' a ((hr.mem a).mpr ?_) c ho⟩
  · obtain ⟨a, -, ho⟩ := hsome c hc
    exact ⟨a, ho⟩
  · obtain ⟨v, hv, -⟩ := ho
    rw [hv]
    exact Option.some_ne_none v

/-! ## Picking -/

theorem cfsScan_zero {nodes : List Node} (hn : ∀ x ∈ nodes, ∃ e, x = .entity e ∧ h.entities e ≠ none)
    (best : Option Addr) : wp (cfsScan nodes best 0) (fun r h' => h' = h ∧ r = best) h := by
  induction nodes with
  | nil =>
    rw [cfsScan, wp_pure]
    exact ⟨rfl, rfl⟩
  | cons x nodes ih =>
    obtain ⟨e, rfl, he⟩ := hn x List.mem_cons_self
    obtain ⟨s, hs⟩ := Option.ne_none_iff_exists'.mp he
    rw [cfsScan, listEntry, pure_bind, wp_bind, wp_getEntity]
    refine ⟨s, hs, wp_ite (fun hlt => ?_) fun _ => ?_⟩
    · exact absurd hlt UInt64.not_lt_zero
    · exact ih fun y hy => hn y (List.mem_cons_of_mem _ hy)

/-- The answer of a picker on a queue: the owner of its first entity, if there is one. -/
def PicksFirst (h : Host) : List Node → Option Addr → Prop
  | .entity e :: _, r => (∀ c, r = some c → ∃ a, h.Owns a c e) ∧ (r = none → ∀ a c, ¬ h.Owns a c e)
  | _, r => r = none

/-- **`scheduler_cfs_pick_next`** picks the first entity. -/
theorem schedulerCfsPickNext_spec (hi : HvInv h) (hq : Queues n h q) (i : Fin n) :
    wp (schedulerCfsPickNext i) (fun r h' => h' = h ∧ PicksFirst h (q i) r) h := by
  obtain ⟨xs, hr⟩ := hi.listed
  have hnodes := hq.entities i
  rw [schedulerCfsPickNext, wp_bind, runqueue, wp_fetch]
  refine ⟨q i, hq.runqueue hi.good.layout i, ?_⟩
  rw [wp_bind]
  cases hqi : q i with
  | nil =>
    rw [cfsScan, wp_pure, wp_pure]
    exact ⟨rfl, rfl⟩
  | cons x rest =>
    rw [hqi] at hnodes
    obtain ⟨e, rfl, he⟩ := hnodes x List.mem_cons_self
    obtain ⟨s, hs⟩ := Option.ne_none_iff_exists'.mp he
    have hzero : s.vruntime = 0 := (hi.entities e s hs).2
    rw [cfsScan, listEntry, pure_bind, wp_bind, wp_getEntity]
    refine ⟨s, hs, wp_ite (fun _ => ?_) fun hge => ?_⟩
    · rw [hzero]
      refine wp_mono (cfsScan_zero (fun y hy => hnodes y (List.mem_cons_of_mem _ hy)) (some e)) ?_
      rintro _ _ ⟨rfl, rfl⟩
      exact vcpuOfEntity_spec hi.good.layout hr e
    · rw [hzero] at hge
      exact absurd (by decide) hge

/-- **`scheduler_schedule` returns**, and what it picks is the first entity of the queue of CPU 0. -/
theorem schedulerSchedule_spec (hi : HvInv h) (hq : Queues n h q) (hpos : 0 < n) :
    wp schedulerSchedule (fun r h' => h' = h ∧ PicksFirst h (q ⟨0, hpos⟩) r) h := by
  have hcfs := schedulerCfsPickNext_spec hi hq ⟨0, hpos⟩
  have hhead := (hq.rings.ring ⟨0, hpos⟩).next_head
  have hcpus : (h.gCpuCount == 0) = false := beq_false_of_ne hi.good.layout.cpus
  simp only [schedulerSchedule, wp_bind, wp_get, hi.scheduler, hcpus, hi.idle, Bool.not_true,
    Bool.or_false, Bool.false_eq_true, if_false, pickByPolicy]
  cases hqi : q ⟨0, hpos⟩ with
  | nil =>
    -- whatever is read as the policy, both pickers find an empty queue
    rw [hqi] at hhead hcfs
    have hfifo : wp (schedulerFifoPickNext 0) (fun r h' => h' = h ∧ PicksFirst h [] r) h := by
      rw [schedulerFifoPickNext, wp_bind, runqueue, wp_fetch]
      refine ⟨[], (hq.runqueue hi.good.layout ⟨0, hpos⟩).trans (congrArg some hqi), ?_⟩
      rw [wp_bind, fifoScan, wp_pure]
      exact hcfs
    have hnext : h.links.next (.head 0) = .head 0 := hhead
    simp only [hnext, pure_bind]
    split
    · exact hfifo
    · exact hfifo
    · exact hcfs
  | cons x rest =>
    obtain ⟨e, rfl, he⟩ := hq.entities ⟨0, hpos⟩ x (hqi ▸ List.mem_cons_self)
    obtain ⟨s, hs⟩ := Option.ne_none_iff_exists'.mp he
    rw [hqi] at hhead hcfs
    have hnext : h.links.next (.head 0) = .entity e := hhead
    simp only [hnext, wp_bind, wp_map, wp_getEntity]
    refine ⟨s, hs, ?_⟩
    rw [(hi.entities e s hs).1]
    exact hcfs

/-- The entity that is first on the runqueue of CPU 0 belongs to no VM that does not run. -/
def FrontRuns (h : Host) : Prop :=
  ∀ e, h.links.next (.head 0) = .entity e → ∀ a c, h.Owns a c e →
    ∀ v, h.vms a = some v → v.state = .running

/-- **Who is scheduled.** In every state that a run leads to and whose runqueues are well formed,
`scheduler_schedule` returns, changes nothing, and what it returns is `NULL` or a running vCPU of a
running VM just if the entity that is first on the queue of CPU 0 belongs to no other VM. -/
theorem schedule_running_iff {h₀ : Host} (hboot : Boot h₀) {ops : List HvOp}
    (hrun : (runOps HvOp.run ops).run h₀ = some ((), h)) (hwf : WellFormedQueues h) :
    ∃ r, schedulerSchedule.run h = some (r, h) ∧
      ((∀ c, r = some c → ∃ u v, h.vcpus c = some u ∧ u.running = true ∧ h.vms u.vm = some v ∧
        v.state = .running) ↔ FrontRuns h) := by
  have hi := hvInv_run hboot hrun
  obtain ⟨q, hq⟩ := wellFormed_iff.mp hwf
  have hpos := hi.good.layout.cpus_pos
  obtain ⟨r, h', hres, hh, hpick⟩ := schedulerSchedule_spec hi hq hpos
  rw [hh] at hres
  refine ⟨r, hres, ?_⟩
  have hhead := (hq.rings.ring ⟨0, hpos⟩).next_head
  cases hqi : q ⟨0, hpos⟩ with
  | nil =>
    -- an empty queue
    rw [hqi] at hhead hpick
    have hnext : h.links.next (.head 0) = .head 0 := hhead
    have hnone : r = none := hpick
    refine ⟨fun _ e he => ?_, fun _ c hc => ?_⟩
    · rw [hnext] at he
      cases he
    · rw [hnone] at hc
      cases hc
  | cons x rest =>
    obtain ⟨e, rfl, -⟩ := hq.entities ⟨0, hpos⟩ x (hqi ▸ List.mem_cons_self)
    rw [hqi] at hhead hpick
    have hnext : h.links.next (.head 0) = .entity e := hhead
    obtain ⟨hsome, hnone⟩ : (∀ c, r = some c → ∃ a, h.Owns a c e) ∧
        (r = none → ∀ a c, ¬ h.Owns a c e) := hpick
    constructor
    · rintro hr d hd a c ho v hv
      rw [hnext] at hd
      cases hd
      cases r with
      | none => exact absurd ho (hnone rfl a c)
      | some c' =>
        obtain ⟨a', ho'⟩ := hsome c' rfl
        obtain ⟨rfl, rfl⟩ := ho.unique hi.good.layout ho'
        obtain ⟨u, w, hu, -, hw, hrunning⟩ := hr c rfl
        obtain ⟨v', hv', hc, -⟩ := ho
        obtain ⟨u', hu', rfl⟩ := hi.good.layout.vcpus a v' trivial hv' c hc
        rw [hu] at hu'
        cases hu'
        rw [hv] at hw
        cases hw
        exact hrunning
    · rintro hf c rfl
      obtain ⟨a, ho⟩ := hsome c rfl
      obtain ⟨v, hv, hc, -⟩ := id ho
      have hstate := hf e hnext a c ho v hv
      obtain ⟨u, hu, rfl⟩ := hi.good.layout.vcpus a v trivial hv c hc
      exact ⟨u, v, hu, ((hi.good.coherent _ v hv).running hstate c hc u hu).1, hv, hstate⟩

/-- A VM that has been started: its running vCPU is returned, and the VM at the front runs. -/
theorem schedule_running_iff_one_vcpu : ∃ h, (runOps HvOp.run [.create { vcpuCount := 1 },
      .lifecycle .start 16384]).run (bootHost 1 .intel) = some ((), h) ∧
      schedulerSchedule.run h = some (some 81920, h) ∧ FrontRuns h := by
  have hboot := boot_bootHost (n := 1) (by decide) .intel
  have hres : ((runOps HvOp.run [.create { vcpuCount := 1 }, .lifecycle .start 16384]).run
      (bootHost 1 .intel)).any (fun p => ((schedulerSchedule.run p.2).any fun t => t.1 = some 81920) &&
        (p.2.vcpus 81920).any fun u => u.running && (p.2.vms u.vm).any fun v =>
          v.state = .running) = true := by decide +kernel
  obtain ⟨⟨⟨⟩, h⟩, hrun, hres⟩ := (Option.any_eq_true _ _).mp hres
  simp only [Bool.and_eq_true, Option.any_eq_true, decide_eq_true_eq] at hres
  obtain ⟨⟨⟨_, h'⟩, hsched, rfl⟩, u, hu, hrunning, v, hv, hstate⟩ := hres
  obtain ⟨q, hi⟩ := queueInv_run hboot (by decide +kernel) hrun
  obtain ⟨r, hr, hiff⟩ := schedule_running_iff hboot hrun hi.queues.wellFormed
  rw [hsched] at hr
  cases hr
  refine ⟨h, hrun, hsched, hiff.mp ?_⟩
  rintro c hc
  cases hc
  exact ⟨u, v, hu, hrunning, hv, hstate⟩

/-- **A vCPU that does not run can be scheduled.** Pausing leaves the entity of the vCPU on its
queue, where the scheduler finds it. -/
theorem schedule_returns_paused : ∃ h c u v h', (runOps HvOp.run [.create { vcpuCount := 1 },
      .lifecycle .start 16384, .lifecycle .pause 16384]).run (bootHost 1 .intel) = some ((), h) ∧
      h.mem.heap.refused = 0 ∧ WellFormedQueues h ∧ schedulerSchedule.run h = some (some c, h') ∧
      h.vcpus c = some u ∧ u.running = false ∧ h.vms u.vm = some v ∧ v.state = .paused := by
  have hres : ((runOps HvOp.run [.create { vcpuCount := 1 }, .lifecycle .start 16384,
      .lifecycle .pause 16384]).run (bootHost 1 .intel)).map (fun p => (p.2.mem.heap.refused,
        (schedulerSchedule.run p.2).map Prod.fst, (p.2.vcpus 81920).map (fun u => (u.running, u.vm)),
        (p.2.vms 16384).any fun v => v.state = .paused)) =
      some (0, some (some 81920), some (false, 16384), true) := by decide +kernel
  obtain ⟨⟨⟨⟩, h⟩, hrun, hres⟩ := Option.map_eq_some_iff.mp hres
  simp only [Prod.mk.injEq] at hres
  obtain ⟨hrefused, hsched, hu, hv⟩ := hres
  obtain ⟨⟨c, h'⟩, hsched, rfl⟩ := Option.map_eq_some_iff.mp hsched
  obtain ⟨u, hu, huv⟩ := Option.map_eq_some_iff.mp hu
  obtain ⟨v, hv, hstate⟩ := (Option.any_eq_true _ _).mp hv
  simp only [Prod.mk.injEq] at huv
  obtain ⟨q, hi⟩ := queueInv_run (boot_bootHost (by decide) .intel) (by decide +kernel) hrun
  rw [← huv.2] at hv
  exact ⟨h, 81920, u, v, h', hrun, hrefused, hi.queues.wellFormed, hsched, hu, huv.1, hv,
    of_decide_eq_true hstate⟩

end NexusVM
