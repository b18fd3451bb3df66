import NexusVM.Choice
import NexusVM.Fairness
import NexusVM.Identity

/-!
# The accounting of virtual time

* `SchedEntity.tick_iterate`: what so many ticks add to the runtimes of an entity;
* `schedulerSchedule_tick`, `scheduleTimes_ticks`: `scheduler_schedule` charges the current vCPU a tick;
* `Roster.charges`: the calls return;
* **`weighted_time_iff`**: the product of the two `int`s is too large for one, so the charge is not what the
  weight says.
-/

namespace NexusVM

open Prog

variable {h : Host} {es xs : List Addr} {c e : Addr} {u : Nexusvcpu} {s : SchedEntity} {k : ℕ}

/-! ## Ticks -/

theorem tickCharge_toNat (w : UInt32) : (tickCharge w).toNat = 1650065408 / w.toNat := by
  have hproduct : (SCHED_TICK_NS * 1024).toUInt32.toNat = 1650065408 := by decide
  rw [tickCharge, UInt32.toNat_div, hproduct]

theorem SchedEntity.tick_runtime (s : SchedEntity) :
    s.tick.runtime.toNat = (s.runtime.toNat + 10000000) % 2 ^ 64 := by
  have htick : SCHED_TICK_NS.toInt64.toUInt64.toNat = 10000000 := by decide
  rw [tick, UInt64.toNat_add, htick]

theorem SchedEntity.tick_vruntime (s : SchedEntity) :
    s.tick.vruntime.toNat = (s.vruntime.toNat + 1650065408 / s.weight.toNat) % 2 ^ 64 := by
  rw [tick, UInt64.toNat_add, UInt32.toNat_toUInt64, tickCharge_toNat]

@[simp] theorem SchedEntity.tick_weight (s : SchedEntity) : s.tick.weight = s.weight := by
  unfold tick
  rfl

/-- **So many ticks.** -/
theorem SchedEntity.tick_iterate (s : SchedEntity) (k : ℕ) : (tick^[k] s).weight = s.weight ∧
    (tick^[k] s).runtime.toNat = (s.runtime.toNat + k * 10000000) % 2 ^ 64 ∧
    (tick^[k] s).vruntime.toNat = (s.vruntime.toNat + k * (1650065408 / s.weight.toNat)) % 2 ^ 64 := by
  induction k with
  | zero =>
    refine ⟨rfl, ?_, ?_⟩
    · rw [Function.iterate_zero_apply, Nat.zero_mul, Nat.add_zero, Nat.mod_eq_of_lt s.runtime.toNat_lt]
    · rw [Function.iterate_zero_apply, Nat.zero_mul, Nat.add_zero, Nat.mod_eq_of_lt s.vruntime.toNat_lt]
  | succ k ih =>
    obtain ⟨hweight, hruntime, hvruntime⟩ := ih
    rw [Function.iterate_succ_apply', tick_weight, tick_runtime, tick_vruntime, hweight, hruntime, hvruntime,
      Nat.mod_add_mod, Nat.mod_add_mod, Nat.add_assoc, Nat.add_assoc, Nat.succ_mul, Nat.succ_mul]
    exact ⟨rfl, rfl, rfl⟩

/-! ## Calls -/

/-- The current vCPU of CPU 0 is `c`, with the entity `e` that has the record `s`. -/
structure Charges (c e : Addr) (s : SchedEntity) (h : Host) : Prop where
  scheduler : h.gSchedulerInitialized = true
  cpus : h.gCpuCount ≠ 0
  current : h.current 0 = some c
  entity : h.vcpus c ≠ none ∧ h.entityOf c = some e
  record : h.entities e = some s
  weight : s.weight ≠ 0

/-- The host after the entity has been charged a tick. -/
def Host.charge (h : Host) (e : Addr) (s : SchedEntity) (l : DList.Links Node) : Host :=
  (h.setEntity e (some s.tick)).setLinks l

theorem Charges.tick (hc : Charges c e s h) (l : DList.Links Node) : Charges c e s.tick (h.charge e s l) :=
  ⟨hc.scheduler, hc.cpus, hc.current, hc.entity, Function.update_self _ _ _, by rw [s.tick_weight]; exact hc.weight⟩

/-- **`scheduler_schedule` charges the current vCPU a tick**, and lets it run on or puts it at the end of the
queue; nothing else changes. -/
theorem schedulerSchedule_tick (hc : Charges c e s h) :
    wlp schedulerSchedule (fun _ h' => ∃ l, h' = h.charge e s l) h := by
  obtain ⟨u, hu⟩ := Option.ne_none_iff_exists'.mp hc.entity.1
  have he : u.schedEntity = some e := (entityOf_some hu).symm.trans hc.entity.2
  have hzero : (h.gCpuCount == 0) = false := beq_false_of_ne hc.cpus
  simp only [schedulerSchedule, wlp_bind, wlp_get, hc.scheduler, hzero, hc.current, Bool.not_true,
    Bool.or_false, Bool.false_eq_true, if_false, wlp_getVcpu]
  rintro w hw
  obtain rfl : u = w := Option.some.inj (hu.symm.trans hw)
  rw [he]
  simp only [wlp_bind, wlp_getEntity, wlp_require, wlp_putEntity]
  rintro t ht -
  obtain rfl : s = t := Option.some.inj (hc.record.symm.trans ht)
  refine wlp_ite (fun _ => ?_) fun _ => ?_
  · rw [wlp_pure]
    exact ⟨h.links, rfl⟩
  · simp only [wlp_bind, wlp_getLinks, wlp_putLinks]
    exact pickByPolicy_preserves 0 _ ⟨_, rfl⟩

/-- **So many calls charge as many ticks.** -/
theorem scheduleTimes_ticks (hc : Charges c e s h) (k : ℕ) :
    wlp (scheduleTimes k) (fun _ h' => Charges c e (SchedEntity.tick^[k] s) h') h := by
  induction k generalizing s h with
  | zero =>
    rw [scheduleTimes, wlp_pure]
    exact hc
  | succ k ih =>
    rw [scheduleTimes, wlp_bind]
    refine wlp_mono (schedulerSchedule_tick hc) ?_
    rintro _ _ ⟨l, rfl⟩
    rw [wlp_bind]
    refine wlp_mono (ih (hc.tick l)) fun _ _ hc' => ?_
    rw [wlp_pure, Function.iterate_succ_apply]
    exact hc'

/-! ## The calls return -/

/-- A call returns if the queue is well formed and the current vCPU is on it; it stays there. -/
theorem Roster.charge (hr : Roster h 0 es xs) (hc : Charges c e s h) (he : e ∈ es) :
    wp schedulerSchedule (fun _ h' => ∃ es' l, h' = h.charge e s l ∧ Roster h' 0 es' xs ∧ e ∈ es') h := by
  obtain ⟨u, hu⟩ := Option.ne_none_iff_exists'.mp hc.entity.1
  have hue : u.schedEntity = some e := (entityOf_some hu).symm.trans hc.entity.2
  have hzero : (h.gCpuCount == 0) = false := beq_false_of_ne hc.cpus
  have hents : ∀ (l : DList.Links Node) (d : Addr), h.entities d ≠ none → (h.charge e s l).entities d ≠ none := by
    intro l d hd
    change Function.update h.entities e (some s.tick) d ≠ none
    by_cases hde : d = e
    · rw [hde, Function.update_self]
      exact Option.some_ne_none _
    · rwa [Function.update_of_ne hde]
  simp only [schedulerSchedule, wp_bind, wp_get, hc.scheduler, hzero, hc.current, Bool.not_true,
    Bool.or_false, Bool.false_eq_true, if_false, wp_getVcpu]
  refine ⟨u, hu, ?_⟩
  rw [hue]
  simp only [wp_bind, wp_getEntity, wp_require, wp_putEntity]
  refine ⟨s, hc.record, hc.weight, wp_ite (fun _ => ?_) fun _ => ?_⟩
  · rw [wp_pure]
    exact ⟨es, h.links, rfl, hr.congr hr.ring (fun _ => id) rfl rfl rfl rfl rfl (hents h.links), he⟩
  · simp only [wp_bind, wp_getLinks, wp_putLinks]
    have hrest := hr.ring.erase (List.mem_map_of_mem he)
    rw [← List.map_erase Node.entity_injective] at hrest
    have hnot : Node.entity e ∉ .head 0 :: (es.erase e).map Node.entity := by
      have hnd := (List.nodup_cons.mp hr.ring.nodup).2.of_map _
      rw [List.mem_cons, List.mem_map_of_injective Node.entity_injective, not_or]
      exact ⟨by simp, hnd.not_mem_erase⟩
    have hring := hrest.insertBefore hnot
    have hr' : Roster (h.charge e s _) 0 (es.erase e ++ [e]) xs := hr.congr
      (by rw [List.map_append]; exact hring) (fun d hd => ?_) rfl rfl rfl rfl rfl (hents _)
    · exact wp_mono (hr'.pick (by simp)) fun _ _ hq => ⟨_, _, hq, hq ▸ hr', by simp⟩
    · rcases List.mem_append.mp hd with hd | hd
      · exact List.mem_of_mem_erase hd
      · exact List.mem_singleton.mp hd ▸ he

theorem Roster.charges (hr : Roster h 0 es xs) (hc : Charges c e s h) (he : e ∈ es) (k : ℕ) :
    ∃ rs h', (scheduleTimes k).run h = some (rs, h') := by
  suffices key : wp (scheduleTimes k) (fun _ _ => True) h by
    obtain ⟨rs, h', hrun, -⟩ := key
    exact ⟨rs, h', hrun⟩
  induction k generalizing s es h with
  | zero =>
    rw [scheduleTimes, wp_pure]
    trivial
  | succ k ih =>
    rw [scheduleTimes, wp_bind]
    refine wp_mono (hr.charge hc he) ?_
    rintro _ _ ⟨es', l, rfl, hr', he'⟩
    rw [wp_bind]
    refine wp_mono (ih hr' (hc.tick l) he') fun _ _ _ => ?_
    rw [wp_pure]
    trivial

/-! ## The charge -/

theorem charges_eq_iff {a m n k r : ℕ} (hle : n ≤ m) :
    (a + k * n) % r = (a + k * m) % r ↔ r ∣ k * (m - n) := by
  rw [Nat.mul_sub, ← Nat.modEq_iff_dvd' (Nat.mul_le_mul_left k hle)]
  exact ⟨Nat.ModEq.add_left_cancel' a, Nat.ModEq.add_left a⟩

/-- `s'` is `s` after `k` ticks, each charged by the weight. -/
def SchedEntity.Weighted (s : SchedEntity) (k : ℕ) (s' : SchedEntity) : Prop :=
  s'.runtime.toNat = (s.runtime.toNat + k * 10000000) % 2 ^ 64 ∧
    s'.vruntime.toNat = (s.vruntime.toNat + k * (10000000 * 1024 / s.weight.toNat)) % 2 ^ 64

instance (s : SchedEntity) (k : ℕ) (s' : SchedEntity) : Decidable (s.Weighted k s') :=
  inferInstanceAs (Decidable (_ ∧ _))

/-- **Weighted virtual time.** In `k` calls the entity of the current vCPU is charged the virtual runtime that
its weight says just if what is missing in all of them is a multiple of the range of the counter: the product
`SCHED_TICK_NS * 1024` is one of `int`s, and is 1650065408. The runtime is right. -/
theorem weighted_time_iff (hsched : h.gSchedulerInitialized = true) (hcpus : h.gCpuCount ≠ 0)
    (hcurrent : h.current 0 = some c) (hu : h.vcpus c = some u) (he : u.schedEntity = some e)
    (hs : h.entities e = some s) (hw : s.weight ≠ 0) (k : ℕ) :
    ((∃ es xs, Roster h 0 es xs ∧ e ∈ es) → ∃ rs h', (scheduleTimes k).run h = some (rs, h')) ∧
      ∀ rs h', (scheduleTimes k).run h = some (rs, h') → ∃ s', h'.entities e = some s' ∧
        s'.runtime.toNat = (s.runtime.toNat + k * 10000000) % 2 ^ 64 ∧
        (s.Weighted k s' ↔
          2 ^ 64 ∣ k * (10000000 * 1024 / s.weight.toNat - 1650065408 / s.weight.toNat)) := by
  have hc : Charges c e s h := ⟨hsched, hcpus, hcurrent, ⟨by rw [hu]; exact Option.some_ne_none u,
    (entityOf_some hu).trans he⟩, hs, hw⟩
  refine ⟨fun ⟨es, xs, hr, hmem⟩ => hr.charges hc hmem k, fun rs h' hrun => ?_⟩
  have hafter := scheduleTimes_ticks hc k rs h' hrun
  obtain ⟨-, hruntime, hvruntime⟩ := s.tick_iterate k
  refine ⟨_, hafter.record, hruntime, ?_⟩
  rw [SchedEntity.Weighted, and_iff_right hruntime, hvruntime]
  exact charges_eq_iff (Nat.div_le_div_right (by decide))

/-- The VM of `twoQueued`, with its first vCPU the current one of CPU 0. -/
def twoCurrent (s t : SchedEntity) : Host := { twoQueued s t with current := fun _ => some 8192 }

theorem roster_twoCurrent (s t : SchedEntity) : Roster (twoCurrent s t) 0 [16384, 20480] [4096] :=
  (roster_twoQueued s t).congr (roster_twoQueued s t).ring (fun _ => id) rfl rfl rfl rfl rfl fun _ => id

theorem weighted_time_iff_two_ticks : ∃ rs h' s', (scheduleTimes 2).run (twoCurrent { weight := 1024 } {}) =
    some (rs, h') ∧ h'.entities 16384 = some s' ∧ s'.runtime.toNat = 20000000 ∧
    ¬ SchedEntity.Weighted { weight := 1024 } 2 s' := by
  obtain ⟨hreturns, hcharged⟩ := weighted_time_iff (h := twoCurrent { weight := 1024 } {}) rfl (by decide) rfl
    rfl rfl rfl (by decide) 2
  obtain ⟨rs, h', hrun⟩ := hreturns ⟨_, _, roster_twoCurrent _ _, by decide⟩
  obtain ⟨s', hs', hruntime, hiff⟩ := hcharged rs h' hrun
  exact ⟨rs, h', s', hrun, hs', hruntime, hiff.not.mpr (by decide)⟩

/-- **A weight of 1024** makes the virtual runtime advance by 1611392 a tick, not by the 10000000 of the
runtime. -/
theorem vruntime_behind_runtime : ∃ h' s', schedulerSchedule.run (twoCurrent { weight := 1024 } {}) =
    some (some 12288, h') ∧ h'.entities 16384 = some s' ∧ s'.runtime = 10000000 ∧ s'.vruntime = 1611392 ∧
    ¬ SchedEntity.Weighted { weight := 1024 } 1 s' := by
  have hres : (schedulerSchedule.run (twoCurrent { weight := 1024 } {})).any (fun p => p.1 = some 12288 ∧
      ∃ s' ∈ p.2.entities 16384, s'.runtime = 10000000 ∧ s'.vruntime = 1611392 ∧
        ¬ SchedEntity.Weighted { weight := 1024 } 1 s') = true := by decide +kernel
  obtain ⟨⟨r, h'⟩, hrun, hres⟩ := (Option.any_eq_true _ _).mp hres
  obtain ⟨rfl, s', hs', hrest⟩ := of_decide_eq_true hres
  exact ⟨h', s', hrun, hs', hrest⟩

end NexusVM
