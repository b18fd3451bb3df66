import NexusVM.Homes
import NexusVM.Picking

/-!
# Fairness

Nothing ever makes a vCPU the current one of a runqueue, so no runtime is charged and
`scheduler_schedule` picks the same vCPU each time.

* `cfsScan_least`: the scan finds an entity that has not run for the
  longest possible time, if there is one;
* `Filling`, `Filling.add`: the queue of CPU 0 while vCPUs are added to it;
* `scheduleTimes`, `Fair`: repeated calls, and their fairness;
* `Uncharged`, `addVcpus_uncharged`: entities that are made have no runtime;
* **`fair_iff`**: the calls are fair only if they never return a vCPU, so they are not fair in any state that
  the hypervisor gets to.
-/

namespace NexusVM

open Prog

variable {n : ℕ} {q : Fin n → List Node} {h h' : Host} {xs cs done todo : List Addr} {c d e : Addr}
  {u : Nexusvcpu}

/-! ## The scan -/

/-- The scan ends with an entity of less runtime than it started with, or with the one it started with. -/
theorem cfsScan_least {nodes : List Node} (hn : ∀ x ∈ nodes, ∃ e, x = .entity e ∧ h.entities e ≠ none)
    (best : Option Addr) (m : UInt64) : wp (cfsScan nodes best m) (fun r h' => h' = h ∧
      ((r = best ∧ ∀ e s, .entity e ∈ nodes → h.entities e = some s → m ≤ s.vruntime) ∨
        ∃ e s, r = some e ∧ .entity e ∈ nodes ∧ h.entities e = some s ∧ s.vruntime < m)) h := by
  induction nodes generalizing best m with
  | nil =>
    rw [cfsScan, wp_pure]
    exact ⟨rfl, .inl ⟨rfl, by simp⟩⟩
  | cons x nodes ih =>
    obtain ⟨e, rfl, he⟩ := hn x List.mem_cons_self
    obtain ⟨s, hs⟩ := Option.ne_none_iff_exists'.mp he
    have hrest := fun y hy => hn y (List.mem_cons_of_mem _ hy)
    rw [cfsScan, listEntry, pure_bind, wp_bind, wp_getEntity]
    refine ⟨s, hs, wp_ite (fun hlt => ?_) fun hge => ?_⟩
    · refine wp_mono (ih hrest (some e) s.vruntime) ?_
      rintro r _ ⟨rfl, ⟨rfl, -⟩ | ⟨d, t, rfl, hd, ht, hts⟩⟩
      · exact ⟨rfl, .inr ⟨e, s, rfl, List.mem_cons_self, hs, hlt⟩⟩
      · exact ⟨rfl, .inr ⟨d, t, rfl, List.mem_cons_of_mem _ hd, ht, UInt64.lt_trans hts hlt⟩⟩
    · refine wp_mono (ih hrest best m) ?_
      rintro r _ ⟨rfl, ⟨rfl, hall⟩ | ⟨d, t, rfl, hd, ht, htm⟩⟩
      · refine ⟨rfl, .inl ⟨rfl, fun d t hd ht => ?_⟩⟩
        rcases List.mem_cons.mp hd with hd | hd
        · cases hd
          rw [hs] at ht
          cases ht
          exact UInt64.not_lt.mp hge
        · exact hall d t hd ht
      · exact ⟨rfl, .inr ⟨d, t, rfl, List.mem_cons_of_mem _ hd, ht, htm⟩⟩

/-- The virtual runtime of a vCPU. -/
def Host.vruntimeOf (h : Host) (c : Addr) : Option UInt64 :=
  (h.entityOf c).bind fun e => (h.entities e).map SchedEntity.vruntime

/-! ## Adding vCPUs -/

/-- `scheduler_add_vcpu` of each vCPU. -/
def addVcpus : List Addr → HostM (List Result)
  | [] => return []
  | c :: cs => do
    let r ← schedulerAddVcpu (some c)
    return r :: (← addVcpus cs)

/-- A running vCPU of some VM, that CPU 0 is worked out for. -/
def RunsOnCpu0 (h : Host) (c : Addr) : Prop := ∃ a v u, h.vms a = some v ∧ c ∈ v.vcpus ∧
  h.vcpus c = some u ∧ u.running = true ∧ u.home h.gCpuCount = 0

/-- The vCPUs `done` are on the queue of CPU 0, and `todo` are to come. -/
structure Filling (xs : List Addr) (n : ℕ) (done todo : List Addr) (h : Host) (q : Fin n → List Node) :
    Prop where
  layout : Layout (fun _ => True) h
  queues : Queues n h q
  registry : Registry h xs
  scheduler : h.gSchedulerInitialized = true
  idle : h.current 0 = none
  nodup : (done ++ todo).Nodup
  runs : ∀ c ∈ done ++ todo, RunsOnCpu0 h c
  added : ∀ c ∈ done, h.entityOf c ≠ none
  queued : ∀ i : Fin n, i.val = 0 → ∀ e, .entity e ∈ q i ↔ ∃ c ∈ done, h.entityOf c = some e
  free : ∀ c ∈ todo, ∀ e, h.entityOf c = some e → ∀ i, .entity e ∉ q i

theorem Adds.same {r : Result} (ha : Adds c u h r h') : h'.vms = h.vms ∧ h'.hv = h.hv ∧
    h'.gSchedulerInitialized = h.gSchedulerInitialized ∧ h'.current = h.current ∧
    h'.gCpuCount = h.gCpuCount := by
  cases ha <;> exact ⟨rfl, rfl, rfl, rfl, rfl⟩

theorem Adds.entityOf_of_ne {r : Result} (ha : Adds c u h r h') (hd : d ≠ c) :
    h'.entityOf d = h.entityOf d := by
  cases ha with
  | again | noMemory => rfl
  | fresh => rw [Host.entityOf, Host.enqueue_vcpus, Host.giveEntity_vcpus, Function.update_of_ne hd, Host.entityOf]

theorem Adds.entityOf_self (hu : h.vcpus c = some u) (ha : Adds c u h .ok h') :
    h'.entityOf c ≠ none := by
  cases ha with
  | again he =>
    change h.entityOf c ≠ none
    rw [entityOf_some hu, he]
    exact Option.some_ne_none _
  | fresh =>
    rw [entityOf_giveEntity]
    exact Option.some_ne_none _

theorem Adds.runs (hu : h.vcpus c = some u) {r : Result} (ha : Adds c u h r h')
    (hd : RunsOnCpu0 h d) : RunsOnCpu0 h' d := by
  obtain ⟨a, v, w, hv, hdv, hw, hrun, hhome⟩ := hd
  obtain ⟨hvms, -, -, -, hcpus⟩ := ha.same
  rw [RunsOnCpu0, hvms, hcpus]
  cases ha with
  | again | noMemory => exact ⟨a, v, w, hv, hdv, hw, hrun, hhome⟩
  | @fresh e =>
    by_cases hdc : d = c
    · subst hdc
      rw [hu] at hw
      cases hw
      exact ⟨a, v, { u with schedEntity := some e }, hv, hdv, Function.update_self _ _ _, hrun, hhome⟩
    · exact ⟨a, v, w, hv, hdv, (Function.update_of_ne hdc _ _).trans hw, hrun, hhome⟩

/-- **One more vCPU** is put on the queue. -/
theorem Filling.add (hf : Filling xs n done (c :: todo) h q) (hu : h.vcpus c = some u)
    (ha : Adds c u h .ok h') : ∃ q' : Fin n → List Node, Filling xs n (done ++ [c]) todo h' q' := by
  have happ : done ++ [c] ++ todo = done ++ c :: todo := by rw [List.append_assoc]; rfl
  have hnd := hf.nodup
  rw [List.nodup_append] at hnd
  obtain ⟨-, hndc, hdisj⟩ := hnd
  have hcdone : ∀ d ∈ done, d ≠ c := fun d hd => hdisj d hd c List.mem_cons_self
  have hctodo : ∀ d ∈ todo, d ≠ c := fun d hd hdc => (List.nodup_cons.mp hndc).1 (hdc ▸ hd)
  have hp : (SchedOp.add c).Proper h := fun e he hqueued => by
    obtain ⟨i, hi⟩ := (hf.queues.queued_iff hf.layout).mp hqueued
    exact hf.free c List.mem_cons_self e he i hi
  have hl' := ha.layout hf.layout hu
  obtain ⟨q', hq', hmem⟩ := ha.queues hf.layout hf.queues hu hp
  obtain ⟨hvms, hhv, hsched, hcurrent, hcpus⟩ := ha.same
  have hhome : (u.home h.gCpuCount).toNat = 0 := by
    obtain ⟨-, -, w, -, -, hw, -, hhome⟩ := hf.runs c (List.mem_append_right _ List.mem_cons_self)
    rw [hu] at hw
    cases hw
    rw [hhome]
    rfl
  refine ⟨q', hl', hq', ?_, hsched.trans hf.scheduler, by rw [hcurrent, hf.idle], happ ▸ hf.nodup,
    fun d hd => ha.runs hu (hf.runs d (happ ▸ hd)), fun d hd => ?_, fun i hi e => ?_, fun d hd e he i hi => ?_⟩
  · exact hf.registry.congr (by rw [hhv]) (by rw [hhv]) fun a => by rw [hvms]
  · rcases List.mem_append.mp hd with hd | hd
    · rw [ha.entityOf_of_ne (hcdone d hd)]
      exact hf.added d hd
    · obtain rfl := List.mem_singleton.mp hd
      exact ha.entityOf_self hu
  · rw [hmem, hf.queued i hi, hhome]
    constructor
    · rintro (⟨d, hd, he⟩ | ⟨-, he, -⟩)
      · exact ⟨d, List.mem_append_left _ hd, (ha.entityOf_of_ne (hcdone d hd)).trans he⟩
      · exact ⟨c, List.mem_append_right _ (List.mem_singleton_self c), he⟩
    · rintro ⟨d, hd, he⟩
      rcases List.mem_append.mp hd with hd | hd
      · exact .inl ⟨d, hd, (ha.entityOf_of_ne (hcdone d hd)).symm.trans he⟩
      · obtain rfl := List.mem_singleton.mp hd
        exact .inr ⟨rfl, he, hi⟩
  · rcases (hmem i e).mp hi with hi | ⟨-, hown, -⟩
    · exact hf.free d (List.mem_cons_of_mem _ hd) e ((ha.entityOf_of_ne (hctodo d hd)).symm.trans he) i hi
    · exact hctodo d hd (hl'.entityOf_inj he hown)

theorem addVcpus_filling (hf : Filling xs n done todo h q) : wlp (addVcpus todo) (fun rs h' =>
    (∀ r ∈ rs, r = .ok) → ∃ q' : Fin n → List Node, Filling xs n (done ++ todo) [] h' q') h := by
  induction todo generalizing done h q with
  | nil =>
    rw [addVcpus, wlp_pure, List.append_nil]
    exact fun _ => ⟨q, hf⟩
  | cons c todo ih =>
    rw [addVcpus, wlp_bind]
    refine wlp_mono schedulerAddVcpu_adds ?_
    rintro r h₁ ⟨u, hu, ha⟩
    rw [wlp_bind]
    by_cases hr : r = .ok
    · subst hr
      obtain ⟨q₁, hf₁⟩ := hf.add hu ha
      refine wlp_mono (ih hf₁) fun rs h₂ hrest => ?_
      rw [wlp_pure]
      intro hok
      obtain ⟨q₂, hf₂⟩ := hrest fun r hr => hok r (List.mem_cons_of_mem _ hr)
      rw [List.append_assoc] at hf₂
      exact ⟨q₂, hf₂⟩
    · intro rs h₂ _
      rw [wlp_pure]
      exact fun hok => absurd (hok r List.mem_cons_self) hr

/-! ## Picking -/

/-- The vCPUs are scheduled by CFS and have the same weight. -/
def EqualCfs (h : Host) (cs : List Addr) : Prop := ∃ w, ∀ c ∈ cs, ∃ e s, h.entityOf c = some e ∧
  h.entities e = some s ∧ s.policy = .cfs ∧ s.weight = w

/-- **What `scheduler_schedule` returns**: one of the vCPUs, unless all of them have the largest runtime. -/
theorem Filling.schedule (hf : Filling xs n cs [] h q) (heq : EqualCfs h cs) (hne : cs ≠ []) :
    wp schedulerSchedule (fun r h' => h' = h ∧
      ((r = none ∧ ∀ c ∈ cs, h.vruntimeOf c = some 0xFFFFFFFFFFFFFFFF) ∨
        ∃ c ∈ cs, r = some c ∧ h.vruntimeOf c ≠ some 0xFFFFFFFFFFFFFFFF)) h := by
  obtain ⟨w, heq⟩ := heq
  have hpos : 0 < n := by
    rw [← hf.queues.cpus]
    exact hf.layout.cpus_pos
  have hqueued := hf.queued ⟨0, hpos⟩ rfl
  have hcpus : (h.gCpuCount == 0) = false := beq_false_of_ne hf.layout.cpus
  -- the first entity of the queue is scheduled by CFS
  obtain ⟨e, rest, hqi⟩ : ∃ e rest, q ⟨0, hpos⟩ = .entity e :: rest := by
    obtain ⟨c, hc⟩ := List.exists_mem_of_ne_nil cs hne
    obtain ⟨e, s, he, -⟩ := heq c hc
    have hmem := (hqueued e).mpr ⟨c, hc, he⟩
    obtain ⟨x, rest, hqi⟩ := List.exists_cons_of_ne_nil (List.ne_nil_of_mem hmem)
    obtain ⟨d, rfl, -⟩ := hf.queues.entities _ x (hqi ▸ List.mem_cons_self)
    exact ⟨d, rest, hqi⟩
  obtain ⟨c₀, hc₀, he₀⟩ := (hqueued e).mp (hqi ▸ List.mem_cons_self)
  obtain ⟨e', s, he', hs, hpolicy, -⟩ := heq c₀ hc₀
  rw [he₀] at he'
  cases he'
  have hnext : h.links.next (.head 0) = .entity e := by
    have hhead := (hf.queues.rings.ring ⟨0, hpos⟩).next_head
    rw [hqi] at hhead
    exact hhead
  simp only [schedulerSchedule, wp_bind, wp_get, hf.scheduler, hcpus, hf.idle, Bool.not_true,
    Bool.or_false, Bool.false_eq_true, if_false, pickByPolicy, hnext, wp_map, wp_getEntity]
  refine ⟨s, hs, ?_⟩
  rw [hpolicy]
  rw [schedulerCfsPickNext, wp_bind, runqueue, wp_fetch]
  refine ⟨q ⟨0, hpos⟩, hf.queues.runqueue hf.layout ⟨0, hpos⟩, ?_⟩
  rw [wp_bind]
  refine wp_mono (cfsScan_least (hf.queues.entities ⟨0, hpos⟩) none 0xFFFFFFFFFFFFFFFF) ?_
  rintro _ h ⟨rfl, ⟨rfl, hall⟩ | ⟨d, t, rfl, hd, ht, hlt⟩⟩
  · rw [wp_pure]
    refine ⟨rfl, .inl ⟨rfl, fun c hc => ?_⟩⟩
    obtain ⟨d, t, hd, ht, -⟩ := heq c hc
    have hle := hall d t ((hqueued d).mpr ⟨c, hc, hd⟩) ht
    have hmax : t.vruntime = 0xFFFFFFFFFFFFFFFF :=
      UInt64.le_antisymm (UInt64.le_iff_toNat_le.mpr (Nat.le_of_lt_succ t.vruntime.toNat_lt)) hle
    rw [Host.vruntimeOf, hd, Option.bind_some, ht, Option.map_some, hmax]
  · obtain ⟨c, hc, hcd⟩ := (hqueued d).mp hd
    refine wp_mono (vcpuOfEntity_spec hf.layout hf.registry d) ?_
    rintro r h ⟨rfl, hsome, hnone⟩
    obtain ⟨a, v, -, hv, hcv, -⟩ := hf.runs c (List.mem_append_left _ hc)
    have howns : h.Owns a c d := ⟨v, hv, hcv, hcd⟩
    refine ⟨rfl, .inr ⟨c, hc, ?_, ?_⟩⟩
    · cases r with
      | none => exact absurd howns (hnone rfl a c)
      | some c' =>
        obtain ⟨a', howns'⟩ := hsome c' rfl
        rw [(howns.unique hf.layout howns').2]
    · rw [Host.vruntimeOf, hcd, Option.bind_some, ht, Option.map_some, ne_eq, Option.some.injEq]
      exact UInt64.ne_of_lt hlt

/-! ## Calling it again and again -/

/-- The vCPUs that consecutive calls of `scheduler_schedule` return. -/
def scheduleTimes : ℕ → HostM (List (Option Addr))
  | 0 => return []
  | k + 1 => do
    let r ← schedulerSchedule
    return r :: (← scheduleTimes k)

/-- A bound on how much more often one of the vCPUs is returned than another. -/
def Fair (h : Host) (cs : List Addr) : Prop := ∃ C, ∀ k rs h', (scheduleTimes k).run h = some (rs, h') →
  ∀ c ∈ cs, ∀ d ∈ cs, rs.count (some c) ≤ rs.count (some d) + C

theorem scheduleTimes_replicate {r : Option Addr} (hr : schedulerSchedule.run h = some (r, h)) (k : ℕ) :
    (scheduleTimes k).run h = some (List.replicate k r, h) := by
  induction k with
  | zero => rfl
  | succ k ih =>
    rw [scheduleTimes, run_bind hr, run_bind ih]
    rfl

theorem Filling.fair (hf : Filling xs n cs [] h q) (heq : EqualCfs h cs) (htwo : 2 ≤ cs.length) :
    (∀ k, ∃ rs, (scheduleTimes k).run h = some (rs, h)) ∧
      (Fair h cs ↔ ∀ c ∈ cs, h.vruntimeOf c = some 0xFFFFFFFFFFFFFFFF) := by
  have hnd : cs.Nodup := List.append_nil cs ▸ hf.nodup
  have hne : cs ≠ [] := List.ne_nil_of_length_pos (Nat.lt_of_lt_of_le Nat.two_pos htwo)
  obtain ⟨r, h', hres, rfl, hpick⟩ := hf.schedule heq hne
  have htimes := scheduleTimes_replicate hres
  refine ⟨fun k => ⟨_, htimes k⟩, fun ⟨C, hC⟩ => ?_, fun hmax => ⟨0, fun k rs h' hrun c hc d _ => ?_⟩⟩
  · rcases hpick with ⟨-, hmax⟩ | ⟨c, hc, rfl, -⟩
    · exact hmax
    · -- another vCPU is never returned
      obtain ⟨d, hd, hdc⟩ : ∃ d ∈ cs, d ≠ c := by
        by_contra hno
        push Not at hno
        have hsub : cs.Subperm [c] := hnd.subperm fun d hd => List.mem_singleton.mpr (hno d hd)
        have hlen := hsub.length_le
        rw [List.length_singleton] at hlen
        omega
      have hle := hC (C + 1) _ _ (htimes (C + 1)) c hc d hd
      rw [List.count_replicate_self, List.count_replicate, if_neg (by simpa using hdc.symm)] at hle
      omega
  · rcases hpick with ⟨rfl, -⟩ | ⟨c', hc', -, hne⟩
    · rw [htimes] at hrun
      cases hrun
      rw [List.count_replicate, if_neg (by simp)]
      omega
    · exact absurd (hmax c' hc') hne

theorem filling_start (hl : Layout (fun _ => True) h) (hwf : WellFormedQueues h) (hr : Registry h xs)
    (hsched : h.gSchedulerInitialized = true) (hidle : h.current 0 = none)
    (hempty : h.runqueue 0 = some []) (hnd : cs.Nodup)
    (hruns : ∀ c ∈ cs, RunsOnCpu0 h c ∧ ∀ e ∈ h.entityOf c, ¬ h.Queued e) :
    ∃ q : Fin h.gCpuCount.toNat → List Node, Filling xs _ [] cs h q := by
  obtain ⟨q, hq⟩ := wellFormed_iff.mp hwf
  have hnil : ∀ i : Fin h.gCpuCount.toNat, i.val = 0 → q i = [] := fun i hi => by
    have hqi := hq.runqueue hl i
    rw [hi, hempty] at hqi
    exact (Option.some.inj hqi).symm
  refine ⟨q, hl, hq, hr, hsched, hidle, hnd, fun c hc => (hruns c hc).1, nofun, fun i hi e => ?_,
    fun c hc e he i hi => (hruns c hc).2 e he ((hq.queued_iff hl).mpr ⟨i, hi⟩)⟩
  simp [hnil i hi]

/-- No entity has been charged any runtime. -/
def Uncharged (h : Host) : Prop := ∀ e s, h.entities e = some s → s.vruntime = 0

theorem Adds.uncharged {r : Result} (ha : Adds c u h r h') (hz : Uncharged h) : Uncharged h' := by
  cases ha with
  | again | noMemory => exact hz
  | @fresh x vmId =>
    intro e s hs
    by_cases hx : e = x
    · subst hx
      obtain rfl : newEntity u vmId = s := Option.some.inj ((Function.update_self e _ _).symm.trans hs)
      rfl
    · exact hz e s ((Function.update_of_ne hx _ _).symm.trans hs)

theorem addVcpus_uncharged (hz : Uncharged h) : wlp (addVcpus cs) (fun _ h' => Uncharged h') h := by
  induction cs generalizing h with
  | nil =>
    rw [addVcpus, wlp_pure]
    exact hz
  | cons c cs ih =>
    rw [addVcpus, wlp_bind]
    refine wlp_mono schedulerAddVcpu_adds ?_
    rintro r h₁ ⟨u, -, ha⟩
    rw [wlp_bind]
    refine wlp_mono (ih (ha.uncharged hz)) fun rs h₂ hz₂ => ?_
    rw [wlp_pure]
    exact hz₂

/-- An entity without runtime does not have the largest possible one. -/
theorem Uncharged.vruntimeOf_ne (hz : Uncharged h) (heq : EqualCfs h cs) (hc : c ∈ cs) :
    h.vruntimeOf c ≠ some 0xFFFFFFFFFFFFFFFF := by
  obtain ⟨w, heq⟩ := heq
  obtain ⟨e, s, he, hs, -⟩ := heq c hc
  rw [Host.vruntimeOf, he, Option.bind_some, hs, Option.map_some, hz e s hs]
  decide

/-- **The calls are fair only if they return no vCPU.** Two or more vCPUs are put on the empty queue of
CPU 0. Their numbers of turns stay within some bound of each other just if all their runtimes are the
largest possible, which makes `scheduler_schedule` return `NULL` each time; and no run of the hypervisor leads
to a state in which they are. -/
theorem fair_iff {h₀ : Host} (hl : Layout (fun _ => True) h₀) (hwf : WellFormedQueues h₀)
    (hr : Registry h₀ xs) (hsched : h₀.gSchedulerInitialized = true) (hidle : h₀.current 0 = none)
    (hempty : h₀.runqueue 0 = some []) (hnd : cs.Nodup) (htwo : 2 ≤ cs.length)
    (hruns : ∀ c ∈ cs, RunsOnCpu0 h₀ c ∧ ∀ e ∈ h₀.entityOf c, ¬ h₀.Queued e) {rs : List Result}
    (hadd : (addVcpus cs).run h₀ = some (rs, h)) (hok : ∀ r ∈ rs, r = .ok) (heq : EqualCfs h cs) :
    (∀ k, ∃ rs, (scheduleTimes k).run h = some (rs, h)) ∧
      (Fair h cs ↔ ∀ c ∈ cs, h.vruntimeOf c = some 0xFFFFFFFFFFFFFFFF) ∧
      ∀ (b : Host) (ops : List HvOp), Boot b → (runOps HvOp.run ops).run b = some ((), h₀) → ¬ Fair h cs := by
  obtain ⟨q, hf⟩ := filling_start hl hwf hr hsched hidle hempty hnd hruns
  obtain ⟨q', hf'⟩ := addVcpus_filling hf rs h hadd hok
  obtain ⟨htimes, hfair⟩ := hf'.fair heq htwo
  refine ⟨htimes, hfair, fun b ops hboot hrun hc => ?_⟩
  have hi := hvInv_run hboot hrun
  have hz : Uncharged h := addVcpus_uncharged (fun e s hs => (hi.entities e s hs).2) rs h hadd
  obtain ⟨c, hcs⟩ := List.exists_mem_of_ne_nil cs (List.ne_nil_of_length_pos (Nat.lt_of_lt_of_le Nat.two_pos htwo))
  exact hz.vruntimeOf_ne heq hcs (hfair.mp hc c hcs)

/-- The VM of `twoCpus` with its vCPUs running. -/
def twoRunning : Host := twoCpus.mapVcpus [8192, 12288] fun u => { u with running := true }

theorem layout_twoRunning : Layout (fun _ => True) twoRunning :=
  layout_twoCpus.mapVcpus _ (fun _ => rfl) fun _ => rfl

theorem wellFormed_twoRunning : WellFormedQueues twoRunning :=
  (queues_twoCpus.congr rfl rfl fun _ => id : Queues 2 twoRunning _).wellFormed

theorem registry_twoRunning : Registry twoRunning [4096] where
  ring := by
    refine ⟨some 4096, ?_, by decide⟩
    unfold DList.Linked
    decide
  mem a := by
    change a ∈ [4096] ↔ (if a = 4096 then _ else none) ≠ none
    by_cases ha : a = 4096 <;> simp [ha]
  count := rfl

theorem runs_twoRunning : ∀ c ∈ [8192, 12288], RunsOnCpu0 twoRunning c ∧
    ∀ e ∈ twoRunning.entityOf c, ¬ twoRunning.Queued e := by
  intro c hc
  rcases List.mem_cons.mp hc with rfl | hc
  · exact ⟨⟨4096, _, _, rfl, by decide, rfl, rfl, by decide⟩, by decide⟩
  · obtain rfl := List.mem_singleton.mp hc
    exact ⟨⟨4096, _, _, rfl, by decide, rfl, rfl, by decide⟩, by decide⟩

theorem added_twoRunning : ∃ h, (addVcpus [8192, 12288]).run twoRunning = some ([.ok, .ok], h) ∧
    EqualCfs h [8192, 12288] ∧ h.vruntimeOf 8192 = some 0 := by
  have hres : ((addVcpus [8192, 12288]).run twoRunning).any (fun p => p.1 = [.ok, .ok] ∧
      p.2.vruntimeOf 8192 = some 0 ∧ ∀ c ∈ [8192, 12288], ∃ e ∈ p.2.entityOf c, ∃ s ∈ p.2.entities e,
        s.policy = .cfs ∧ s.weight = 1024) = true := by
    decide +kernel
  obtain ⟨⟨rs, h⟩, hrun, hres⟩ := (Option.any_eq_true _ _).mp hres
  obtain ⟨rfl, hzero, heq⟩ := of_decide_eq_true hres
  refine ⟨h, hrun, ⟨1024, fun c hc => ?_⟩, hzero⟩
  obtain ⟨e, he, s, hs, hpolicy, hweight⟩ := heq c hc
  exact ⟨e, s, he, hs, hpolicy, hweight⟩

/-- Two vCPUs without runtime: all calls return, and they are not fair. -/
theorem fair_iff_two_vcpus : ∃ h, (addVcpus [8192, 12288]).run twoRunning = some ([.ok, .ok], h) ∧
    (∀ k, ∃ rs, (scheduleTimes k).run h = some (rs, h)) ∧ h.vruntimeOf 8192 = some 0 ∧
    ¬ Fair h [8192, 12288] := by
  obtain ⟨h, hadd, heq, hzero⟩ := added_twoRunning
  obtain ⟨htimes, hfair, -⟩ := fair_iff layout_twoRunning wellFormed_twoRunning registry_twoRunning rfl rfl
    (by decide +kernel) (by decide) (by decide) runs_twoRunning hadd (by decide) heq
  refine ⟨h, hadd, htimes, hzero, fun hc => ?_⟩
  have hmax := hfair.mp hc 8192 List.mem_cons_self
  rw [hzero] at hmax
  exact absurd hmax (by decide)

/-- The same vCPU is returned each time, and the other one never. -/
theorem unfair_two_vcpus : ∃ h, (addVcpus [8192, 12288]).run twoRunning = some ([.ok, .ok], h) ∧
    EqualCfs h [8192, 12288] ∧ ¬ Fair h [8192, 12288] := by
  obtain ⟨h, hadd, heq, hzero⟩ := added_twoRunning
  obtain ⟨q, hf⟩ := filling_start layout_twoRunning wellFormed_twoRunning
    registry_twoRunning rfl rfl (by decide +kernel) (by decide) runs_twoRunning
  obtain ⟨q', hf'⟩ := addVcpus_filling hf _ h hadd (by decide)
  refine ⟨h, hadd, heq, fun hfair => ?_⟩
  have hmax := (hf'.fair heq (by decide)).2.mp hfair 8192 List.mem_cons_self
  rw [hzero] at hmax
  exact absurd hmax (by decide)

end NexusVM
