import NexusVM.Choice
import NexusVM.Lib.Rota

/-!
# Round robin

* `turn`, `turns`: `scheduler_schedule`, and `scheduler_yield` of what it returns;
* `Rotation`, **`Rotation.turn`**: a queue of round robin entities with the same virtual runtime, and what a turn
  does to it;
* **`round_robin_rotates`**: all the vCPUs have their turns, in the order of the queue.
-/

namespace NexusVM

open Prog FirstMin

variable {h : Host} {es cs xs : List Addr} {c e : Addr}

/-- `v = scheduler_schedule(); scheduler_yield(v);` -/
def turn : HostM (Option Addr) := do
  let v ← schedulerSchedule
  schedulerYield v
  return v

/-- So many turns, with what `scheduler_schedule` returned. -/
def turns : ℕ → HostM (List (Option Addr))
  | 0 => return []
  | k + 1 => do
    let v ← turn
    return v :: (← turns k)

/-- The queue of CPU 0 has the round robin entities `es`, of the same virtual runtime, and `cs` are their vCPUs;
these are on CPU 0. -/
structure Rotation (es cs xs : List Addr) (h : Host) : Prop where
  roster : Roster h 0 es xs
  scheduler : h.gSchedulerInitialized = true
  cpus : h.gCpuCount ≠ 0
  idle : h.current 0 = none
  policy : ∀ e ∈ es, (h.entityAt e).policy = .rr
  vruntime : ∃ m < 2 ^ 64 - 1, ∀ e ∈ es, (h.entityAt e).vruntime.toNat = m
  owners : List.Forall₂ (fun e c => h.OwnedBy xs e c ∧ ∀ d, h.OwnedBy xs e d → d = c) es cs
  pinned : ∀ c ∈ cs, ∃ u, h.vcpus c = some u ∧ u.physicalCpu = 0

theorem Rotation.least (hr : Rotation (e :: es) cs xs h) : h.LeastRun (e :: es) e := by
  obtain ⟨m, hm, heven⟩ := hr.vruntime
  rw [List.forall_mem_cons] at heven
  refine ⟨trivial, ?_, [], es, rfl, by simp, fun d hd _ => ?_⟩
  · rw [heven.1]
    exact hm
  · rw [heven.1, heven.2 d hd]

/-- **`scheduler_schedule` returns the vCPU of the first entity**, over `scheduler_fifo_pick_next` and
`scheduler_cfs_pick_next`. -/
theorem Rotation.schedule (hr : Rotation (e :: es) (c :: cs) xs h) :
    wp schedulerSchedule (fun r h' => h' = h ∧ r = some c) h := by
  obtain ⟨⟨-, hunique⟩, -⟩ := List.forall₂_cons.mp hr.owners
  have hpolicy := hr.policy e List.mem_cons_self
  have hleast := hr.least
  rw [wp_schedulerSchedule_idle hr.scheduler hr.cpus hr.idle, wp_pickByPolicy hr.roster, pickerOf,
    if_pos (.inr hpolicy)]
  refine wp_mono hr.roster.fifo ?_
  rintro r _ ⟨rfl, ⟨⟨d, hd⟩, -⟩ | ⟨-, hrun⟩⟩
  · -- none of them is a FIFO entity
    have hrr := hr.policy d hd.mem
    rw [hd.prop] at hrr
    cases hrr
  · obtain ⟨-, hnone, hsome⟩ := wp_run hr.roster.cfs hrun
    cases r with
    | none => exact absurd hleast (hnone rfl e)
    | some d =>
      obtain ⟨e', he', ho⟩ := hsome d rfl
      obtain rfl := he'.unique hleast
      exact ⟨rfl, congrArg some (hunique d ho)⟩

/-- The home of a vCPU that is on CPU 0. -/
theorem Nexusvcpu.home_zero {u : Nexusvcpu} {count : UInt32} (hcount : count ≠ 0) (hu : u.physicalCpu = 0) :
    u.home count = 0 := by
  have hlt : ¬ 0 ≥ count := UInt32.not_le.mpr (UInt32.pos_iff_ne_zero.mpr hcount)
  rw [Nexusvcpu.home, hu, if_neg hlt]

/-- `scheduler_yield` moves the entity from the front of the queue to its end. -/
theorem Rotation.yield (hr : Rotation (e :: es) (c :: cs) xs h) : wp (schedulerYield (some c))
    (fun _ h' => ∃ l, h' = h.setLinks l ∧
      DList.Ring l (.head 0) ((es ++ [e]).map Node.entity)) h := by
  obtain ⟨⟨⟨a, -, v, -, -, he⟩, -⟩, -⟩ := List.forall₂_cons.mp hr.owners
  obtain ⟨⟨u, hu, hzero⟩, -⟩ := List.forall_mem_cons.mp hr.pinned
  rw [entityOf_some hu] at he
  simp only [schedulerYield, wp_bind, wp_getVcpu]
  refine ⟨u, hu, ?_⟩
  rw [he, wp_bind]
  refine wp_mono (homeCpu_at hr.cpus u) ?_
  rintro _ _ ⟨rfl, rfl⟩
  rw [Nexusvcpu.home_zero hr.cpus hzero]
  simp only [wp_bind, wp_getLinks, wp_putLinks]
  have hring : DList.Ring _ _ ([] ++ Node.entity e :: es.map Node.entity) := hr.roster.ring
  refine ⟨_, rfl, ?_⟩
  rw [List.map_append]
  refine hring.remove.insertBefore ?_
  rw [List.nil_append, List.mem_cons, not_or]
  exact ⟨by simp, (List.nodup_cons.mp (List.nodup_cons.mp hring.nodup).2).1⟩

/-- The order of the queue is all that the rest depends on. -/
theorem Rotation.reorder (hr : Rotation (e :: es) (c :: cs) xs h) {l : DList.Links Node}
    (hring : DList.Ring l (.head 0) ((es ++ [e]).map Node.entity)) :
    Rotation (es ++ [e]) (cs ++ [c]) xs (h.setLinks l) := by
  have hmem : ∀ {d}, d ∈ es ++ [e] → d ∈ e :: es := fun hd => by simpa [or_comm] using hd
  obtain ⟨howner, howners⟩ := List.forall₂_cons.mp hr.owners
  obtain ⟨m, hm, heven⟩ := hr.vruntime
  exact {
    roster := hr.roster.congr hring (fun d hd => hmem hd) rfl rfl rfl rfl rfl fun _ => id
    scheduler := hr.scheduler
    cpus := hr.cpus
    idle := hr.idle
    policy := fun d hd => hr.policy d (hmem hd)
    vruntime := ⟨m, hm, fun d hd => heven d (hmem hd)⟩
    owners := List.rel_append howners (.cons howner .nil)
    pinned := fun d hd => hr.pinned d (by simpa [or_comm] using hd) }

/-- **A turn** is that of the first vCPU, and its entity goes to the end of the queue. -/
theorem Rotation.turn (hr : Rotation (e :: es) (c :: cs) xs h) : wp turn (fun r h' => r = some c ∧
    ∃ l, h' = h.setLinks l ∧ Rotation (es ++ [e]) (cs ++ [c]) xs h') h := by
  rw [NexusVM.turn, wp_bind]
  refine wp_mono hr.schedule ?_
  rintro _ _ ⟨rfl, rfl⟩
  rw [wp_bind]
  refine wp_mono hr.yield ?_
  rintro _ _ ⟨l, rfl, hring⟩
  rw [wp_pure]
  exact ⟨rfl, l, rfl, hr.reorder hring⟩

/-- **Turns** go around the queue. -/
theorem Rotation.turns (hr : Rotation es cs xs h) (hne : es ≠ []) (k : ℕ) : wp (turns k) (fun rs h' =>
    rs = Rota.turns cs k ∧ ∃ l, h' = h.setLinks l ∧ Rotation (es.rotate k) (cs.rotate k) xs h') h := by
  induction k generalizing es cs h with
  | zero =>
    rw [NexusVM.turns, wp_pure, List.rotate_zero, List.rotate_zero]
    exact ⟨rfl, h.links, rfl, hr⟩
  | succ k ih =>
    obtain ⟨e, es, rfl⟩ := List.exists_cons_of_ne_nil hne
    obtain ⟨c, cs, -, -, rfl⟩ := List.forall₂_cons_left_iff.mp hr.owners
    rw [NexusVM.turns, wp_bind]
    refine wp_mono hr.turn ?_
    rintro _ _ ⟨rfl, l, rfl, hr'⟩
    rw [wp_bind]
    refine wp_mono (ih hr' (by simp)) ?_
    rintro _ _ ⟨rfl, l', rfl, hr''⟩
    rw [wp_pure]
    refine ⟨?_, l', rfl, ?_⟩
    · rw [Rota.turns, List.rotate_cons_succ, List.rotate_zero]
      rfl
    · rw [List.rotate_cons_succ, List.rotate_cons_succ]
      exact hr''

/-- **Round robin rotates.** The queue of CPU 0 has one or more round robin entities with the same virtual
runtime, each of exactly one vCPU that is on CPU 0, and no vCPU is current. As many turns as there are entities
return each vCPU once, in the order of the queue, and leave the queue in its order. In any number of turns a
vCPU is returned as often as any other, up to rounding. -/
theorem round_robin_rotates (hr : Roster h 0 es xs) (hne : es ≠ [])
    (hsched : h.gSchedulerInitialized = true) (hcpus : h.gCpuCount ≠ 0) (hidle : h.current 0 = none)
    (hpolicy : ∀ e ∈ es, (h.entityAt e).policy = .rr)
    (heven : ∃ m < 2 ^ 64 - 1, ∀ e ∈ es, (h.entityAt e).vruntime.toNat = m)
    (hone : ∀ e ∈ es, ∃! c, h.OwnedBy xs e c)
    (hpin : ∀ e ∈ es, ∀ c, h.OwnedBy xs e c → ∃ u, h.vcpus c = some u ∧ u.physicalCpu = 0) :
    ∃ cs, List.Forall₂ (h.OwnedBy xs) es cs ∧ cs.Nodup ∧
      (∃ l, (turns es.length).run h = some (cs.map some, h.setLinks l) ∧
        DList.Ring l (.head 0) (es.map Node.entity)) ∧
      ∀ k, ∃ rs l, (turns k).run h = some (rs, h.setLinks l) ∧ rs.length = k ∧
        ∀ c ∈ cs, rs.count (some c) = k / es.length ∨ rs.count (some c) = (k + es.length - 1) / es.length := by
  choose! f hf hunique using hone
  have hnd : es.Nodup := (List.nodup_cons.mp hr.ring.nodup).2.of_map _
  have hnodup : (es.map f).Nodup := hnd.map_on fun d hd e he heq => by
    have ho := hf d hd
    rw [heq] at ho
    exact ho.entity_unique (hf e he)
  have hrot : Rotation es (es.map f) xs h :=
    { roster := hr
      scheduler := hsched
      cpus := hcpus
      idle := hidle
      policy := hpolicy
      vruntime := heven
      owners := List.forall₂_map_right_iff.mpr (List.forall₂_same.mpr fun e he => ⟨hf e he, hunique e he⟩)
      pinned := fun c hc => by
        obtain ⟨e, he, rfl⟩ := List.mem_map.mp hc
        exact hpin e he _ (hf e he) }
  have hlen : (es.map f).length = es.length := List.length_map f
  have hne' : es.map f ≠ [] := fun hnil => hne (List.map_eq_nil_iff.mp hnil)
  refine ⟨es.map f, List.forall₂_map_right_iff.mpr (List.forall₂_same.mpr hf), hnodup, ?_, fun k => ?_⟩
  · obtain ⟨_, _, hrun, rfl, l, rfl, hr'⟩ := hrot.turns hne es.length
    have hback := hr'.roster.ring
    rw [List.rotate_length] at hback
    refine ⟨l, ?_, hback⟩
    rw [hrun, ← hlen, Rota.turns_length hne']
  · obtain ⟨_, _, hrun, rfl, l, rfl, -⟩ := hrot.turns hne k
    refine ⟨_, l, hrun, ?_, fun c hc => ?_⟩
    · rw [Rota.turns_eq hne', List.length_map, List.length_range]
    · rw [← hlen]
      exact Rota.count_turns hnodup hc k

theorem round_robin_rotates_two : ∃ h l, h = twoQueued { policy := .rr } { policy := .rr } ∧
    (turns 2).run h = some ([some 8192, some 12288], h.setLinks l) ∧
    DList.Ring l (.head 0) [.entity 16384, .entity 20480] := by
  obtain ⟨cs, howners, -, ⟨l, hrun, hring⟩, -⟩ := round_robin_rotates
    (roster_twoQueued { policy := .rr } { policy := .rr }) (by simp) rfl (by decide) rfl (by decide)
    ⟨0, by decide, by decide⟩ (one_owner_twoQueued _ _) fun e _ c ho => by
      rcases twoQueued_ownedBy ho with ⟨-, rfl⟩ | ⟨-, rfl⟩ <;> exact ⟨_, rfl, rfl⟩
  obtain ⟨c, _, hc, hrest, rfl⟩ := List.forall₂_cons_left_iff.mp howners
  obtain ⟨d, _, hd, hnil, rfl⟩ := List.forall₂_cons_left_iff.mp hrest
  obtain rfl := List.forall₂_nil_left_iff.mp hnil
  obtain ⟨-, rfl⟩ | ⟨he, -⟩ := twoQueued_ownedBy hc
  · obtain ⟨he, -⟩ | ⟨-, rfl⟩ := twoQueued_ownedBy hd
    · cases he
    · exact ⟨_, l, rfl, hrun, hring⟩
  · cases he

end NexusVM
