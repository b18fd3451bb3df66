import NexusVM.Lib.FirstMin
import NexusVM.Homes
import NexusVM.Picking

/-!
# Which vCPU the pickers choose

* `Roster`: a runqueue and a list of VMs that have the vCPUs of its entities;
* `cfsScan_scan`, `fifoScan_scan`: the loops of the pickers;
* `Host.LeastRun`, `Host.NextDeadline`, `Picks`: what the pickers are to choose;
* `Roster.cfs`, `Roster.fifo`, **`pickers_choose`**: they do;
* `wp_schedulerSchedule_idle`, `wp_pickByPolicy`: `scheduler_schedule` chooses the picker by the policy of the
  first entity;
* **`real_time_first_iff`**: when real-time vCPUs come first.
-/

namespace NexusVM

open Prog FirstMin

variable {h h' : Host} {cpu : ℕ} {es xs ys : List Addr} {a c d e : Addr} {s : SchedEntity}

/-! ## The queue and the VMs -/

theorem DoublyLinked.unique {prev prev' p : Option Addr} (hl : DoublyLinked h prev xs p)
    (hl' : DoublyLinked h prev' ys p) : xs = ys := by
  induction xs generalizing prev prev' p ys with
  | nil =>
    obtain rfl := hl
    cases ys with
    | nil => rfl
    | cons b ys => exact absurd hl'.1 (Option.some_ne_none b).symm
  | cons a xs ih =>
    obtain ⟨rfl, v, hv, -, hrest⟩ := hl
    cases ys with
    | nil => exact absurd hl' (Option.some_ne_none a)
    | cons b ys =>
      obtain ⟨hab, w, hw, -, hrest'⟩ := hl'
      obtain rfl := Option.some.inj hab
      rw [hv] at hw
      obtain rfl := Option.some.inj hw
      rw [ih hrest hrest']

theorem DoublyLinked.suffix {prev p : Option Addr} (hl : DoublyLinked h prev (xs ++ a :: ys) p) :
    ∃ prev', DoublyLinked h prev' (a :: ys) (some a) := by
  induction xs generalizing prev p with
  | nil =>
    obtain ⟨rfl, hrest⟩ := hl
    exact ⟨prev, rfl, hrest⟩
  | cons b xs ih =>
    obtain ⟨-, v, -, -, hrest⟩ := hl
    exact ih hrest

theorem DoublyLinked.congr {prev p : Option Addr} (hl : DoublyLinked h prev xs p) (hvms : h'.vms = h.vms) :
    DoublyLinked h' prev xs p := by
  induction xs generalizing prev p with
  | nil => exact hl
  | cons a xs ih =>
    obtain ⟨rfl, v, hv, hprev, hrest⟩ := hl
    exact ⟨rfl, v, by rw [hvms, hv], hprev, ih hrest⟩

/-- **A list that ends visits no VM twice.** -/
theorem DoublyLinked.nodup {prev p : Option Addr} (hl : DoublyLinked h prev xs p) : xs.Nodup := by
  induction xs generalizing prev p with
  | nil => exact List.nodup_nil
  | cons a xs ih =>
    obtain ⟨rfl, v, hv, hprev, hrest⟩ := hl
    refine List.nodup_cons.mpr ⟨fun ha => ?_, ih hrest⟩
    obtain ⟨as, bs, rfl⟩ := List.append_of_mem ha
    obtain ⟨prev', hsuffix⟩ := hrest.suffix
    have hwhole : DoublyLinked h prev (a :: (as ++ a :: bs)) (some a) := ⟨rfl, v, hv, hprev, hrest⟩
    have hlen := congrArg List.length (hsuffix.unique hwhole)
    simp only [List.length_cons, List.length_append] at hlen
    omega

/-- The record of an entity. -/
def Host.entityAt (h : Host) (e : Addr) : SchedEntity := (h.entities e).getD {}

theorem Host.entityAt_of_some (hs : h.entities e = some s) : h.entityAt e = s := by
  rw [Host.entityAt, hs]
  rfl

/-- `e` is the entity of `c`, which is a vCPU of one of the VMs. -/
def Host.OwnedBy (h : Host) (xs : List Addr) (e c : Addr) : Prop := ∃ a ∈ xs, h.Owns a c e

theorem Host.OwnedBy.entity_unique (hd : h.OwnedBy xs d c) (he : h.OwnedBy xs e c) : d = e := by
  obtain ⟨-, -, -, -, -, hd⟩ := hd
  obtain ⟨-, -, -, -, -, he⟩ := he
  exact Option.some.inj (hd.symm.trans he)

/-- The runqueue of the CPU consists of the entities `es`, the list of VMs of `xs`, and each entity on the
queue is the one of a vCPU of these VMs. -/
structure Roster (h : Host) (cpu : ℕ) (es xs : List Addr) : Prop where
  initialized : h.gInitialized = true
  ring : DList.Ring h.links (.head cpu) (es.map Node.entity)
  entities : ∀ e ∈ es, h.entities e ≠ none
  entityHeld : ∀ e ∈ es, h.mem.heap.Holds .entity e
  vms : DoublyLinked h none xs h.hv.vms
  vmHeld : ∀ a ∈ xs, h.mem.heap.Holds .vm a
  vcpus : h.HasVcpusOf xs
  owned : ∀ e ∈ es, ∃ c, h.OwnedBy xs e c

theorem Roster.congr {es' : List Addr} (hr : Roster h cpu es xs)
    (hring : DList.Ring h'.links (.head cpu) (es'.map Node.entity)) (hsub : ∀ d ∈ es', d ∈ es)
    (hinit : h'.gInitialized = h.gInitialized) (hhv : h'.hv = h.hv) (hmem : h'.mem = h.mem)
    (hvms : h'.vms = h.vms) (hvcpus : h'.vcpus = h.vcpus)
    (hents : ∀ d, h.entities d ≠ none → h'.entities d ≠ none) : Roster h' cpu es' xs where
  initialized := hinit.trans hr.initialized
  ring := hring
  entities d hd := hents d (hr.entities d (hsub d hd))
  entityHeld d hd := by
    rw [hmem]
    exact hr.entityHeld d (hsub d hd)
  vms := by
    rw [hhv]
    exact hr.vms.congr hvms
  vmHeld := by
    rw [hmem]
    exact hr.vmHeld
  vcpus := by
    rw [Host.HasVcpusOf, hvms, hvcpus]
    exact hr.vcpus
  owned d hd := by
    obtain ⟨c, a, ha, v, hv, hc, he⟩ := hr.owned d (hsub d hd)
    refine ⟨c, a, ha, v, by rw [hvms, hv], hc, ?_⟩
    rw [Host.entityOf, hvcpus]
    exact he

theorem Roster.runqueue (hr : Roster h cpu es xs) : h.runqueue cpu = some (es.map Node.entity) :=
  runqueue_of_held hr.ring hr.entityHeld

/-- **The search for the vCPU of an entity** on the queue. -/
theorem Roster.search (hr : Roster h cpu es xs) (he : e ∈ es) :
    wp (vcpuOfEntity e) (fun r h' => h' = h ∧ ∃ c, r = some c ∧ h.OwnedBy xs e c) h := by
  have hlen := Heap.length_le_live hr.vms.nodup hr.vmHeld
  rw [vcpuOfEntity, wp_bind, wp_getHv]
  refine ⟨hr.initialized, ?_⟩
  rw [wp_bind, wp_get]
  refine wp_mono (findVcpu_spec hr.vcpus hr.vms (by unfold Host.fuel; omega)) ?_
  rintro r _ ⟨rfl, hsome, hnone⟩
  obtain ⟨c, a, ha, ho⟩ := hr.owned e he
  cases r with
  | none => exact absurd ho (hnone rfl a ha c)
  | some d => exact ⟨rfl, d, rfl, hsome d rfl⟩

/-! ## The loops -/

theorem cfsScan_scan (hes : ∀ e ∈ es, h.entities e ≠ none) (best : Option Addr) (m : UInt64) :
    wp (cfsScan (es.map Node.entity) best m) (fun r h' => h' = h ∧
      r = scan (fun _ => True) (fun e => (h.entityAt e).vruntime.toNat) es best m.toNat) h := by
  induction es generalizing best m with
  | nil =>
    rw [List.map_nil, cfsScan, wp_pure]
    exact ⟨rfl, rfl⟩
  | cons e es ih =>
    obtain ⟨s, hs⟩ := Option.ne_none_iff_exists'.mp (hes e List.mem_cons_self)
    have hrest := fun d hd => hes d (List.mem_cons_of_mem _ hd)
    rw [List.map_cons, cfsScan, listEntry, pure_bind, wp_bind, wp_getEntity]
    refine ⟨s, hs, wp_ite (fun hlt => ?_) fun hge => ?_⟩
    · rw [UInt64.lt_iff_toNat_lt] at hlt
      rw [scan, Host.entityAt_of_some hs, if_pos ⟨trivial, hlt⟩]
      exact ih hrest (some e) s.vruntime
    · rw [UInt64.lt_iff_toNat_lt] at hge
      rw [scan, Host.entityAt_of_some hs, if_neg fun hlt => hge hlt.2]
      exact ih hrest best m

theorem fifoScan_scan (hes : ∀ e ∈ es, h.entities e ≠ none) (best : Option Addr) (m : UInt64) :
    wp (fifoScan (es.map Node.entity) best m) (fun r h' => h' = h ∧
      r = scan (fun e => (h.entityAt e).policy = .fifo) (fun e => (h.entityAt e).deadline.toNat) es best
        m.toNat) h := by
  induction es generalizing best m with
  | nil =>
    rw [List.map_nil, fifoScan, wp_pure]
    exact ⟨rfl, rfl⟩
  | cons e es ih =>
    obtain ⟨s, hs⟩ := Option.ne_none_iff_exists'.mp (hes e List.mem_cons_self)
    have hrest := fun d hd => hes d (List.mem_cons_of_mem _ hd)
    rw [List.map_cons, fifoScan, listEntry, pure_bind, wp_bind, wp_getEntity]
    refine ⟨s, hs, wp_ite (fun hlt => ?_) fun hge => ?_⟩
    · rw [UInt64.lt_iff_toNat_lt] at hlt
      rw [scan, Host.entityAt_of_some hs, if_pos hlt]
      exact ih hrest (some e) s.deadline
    · rw [UInt64.lt_iff_toNat_lt] at hge
      rw [scan, Host.entityAt_of_some hs, if_neg hge]
      exact ih hrest best m

/-! ## The pickers -/

/-- `e` is the first of the entities with the least virtual runtime. -/
def Host.LeastRun (h : Host) (es : List Addr) (e : Addr) : Prop :=
  FirstLeast (fun _ => True) (fun e => (h.entityAt e).vruntime.toNat) (2 ^ 64 - 1) es e

/-- `e` is the first of the FIFO entities with the least deadline. -/
def Host.NextDeadline (h : Host) (es : List Addr) (e : Addr) : Prop :=
  FirstLeast (fun e => (h.entityAt e).policy = .fifo) (fun e => (h.entityAt e).deadline.toNat) (2 ^ 64 - 1) es e

/-- The answer is the vCPU of an entity with the property, if there is one. -/
def Picks (h : Host) (xs : List Addr) (P : Addr → Prop) (r : Option Addr) : Prop :=
  (r = none → ∀ e, ¬ P e) ∧ ∀ c, r = some c → ∃ e, P e ∧ h.OwnedBy xs e c

/-- **`scheduler_cfs_pick_next`** picks the first vCPU with the least virtual runtime. -/
theorem Roster.cfs (hr : Roster h cpu es xs) :
    wp (schedulerCfsPickNext cpu) (fun r h' => h' = h ∧ Picks h xs (h.LeastRun es) r) h := by
  rw [schedulerCfsPickNext, wp_bind, NexusVM.runqueue, wp_fetch]
  refine ⟨_, hr.runqueue, ?_⟩
  rw [wp_bind]
  refine wp_mono (cfsScan_scan hr.entities none _) ?_
  rintro best _ ⟨rfl, hbest⟩
  cases best with
  | none =>
    rw [wp_pure]
    refine ⟨rfl, fun _ e he => ?_, by simp⟩
    exact absurd (hbest.trans (scan_eq_some_iff.mpr he)) (by simp)
  | some e =>
    have he := scan_eq_some_iff.mp hbest.symm
    refine wp_mono (hr.search he.mem) ?_
    rintro _ _ ⟨rfl, c, rfl, hc⟩
    refine ⟨rfl, by simp, fun d hd => ?_⟩
    obtain rfl := Option.some.inj hd
    exact ⟨e, he, hc⟩

/-- **`scheduler_fifo_pick_next`** picks the first vCPU with the least deadline of the FIFO ones, and leaves
the choice to `scheduler_cfs_pick_next` if there is none. -/
theorem Roster.fifo (hr : Roster h cpu es xs) :
    wp (schedulerFifoPickNext cpu) (fun r h' => h' = h ∧
      ((∃ e, h.NextDeadline es e) ∧ Picks h xs (h.NextDeadline es) r ∨
        (∀ e, ¬ h.NextDeadline es e) ∧ (schedulerCfsPickNext cpu).run h = some (r, h))) h := by
  rw [schedulerFifoPickNext, wp_bind, NexusVM.runqueue, wp_fetch]
  refine ⟨_, hr.runqueue, ?_⟩
  rw [wp_bind]
  refine wp_mono (fifoScan_scan hr.entities none _) ?_
  rintro best _ ⟨rfl, hbest⟩
  cases best with
  | none =>
    obtain ⟨r, _, hrun, rfl, -⟩ := hr.cfs
    refine ⟨r, _, hrun, rfl, .inr ⟨fun e he => ?_, hrun⟩⟩
    exact absurd (hbest.trans (scan_eq_some_iff.mpr he)) (by simp)
  | some e =>
    have he := scan_eq_some_iff.mp hbest.symm
    refine wp_mono (hr.search he.mem) ?_
    rintro _ _ ⟨rfl, c, rfl, hc⟩
    refine ⟨rfl, .inl ⟨⟨e, he⟩, by simp, fun d hd => ?_⟩⟩
    obtain rfl := Option.some.inj hd
    exact ⟨e, he, hc⟩

theorem Picks.some_iff {P : Addr → Prop} {r : Option Addr} (hp : Picks h xs P r)
    (hone : ∀ e, P e → ∃! c, h.OwnedBy xs e c) (huniq : ∀ d e, P d → P e → d = e) :
    r = some c ↔ ∃ e, P e ∧ h.OwnedBy xs e c := by
  refine ⟨hp.2 c, ?_⟩
  rintro ⟨e, he, hc⟩
  cases r with
  | none => exact absurd he (hp.1 rfl e)
  | some d =>
    obtain ⟨e', he', hd⟩ := hp.2 d rfl
    obtain rfl := huniq e e' he he'
    rw [(hone e he).unique hd hc]

theorem exists_least_iff : (∃ e, h.LeastRun es e) ↔ ∃ e ∈ es, (h.entityAt e).vruntime.toNat < 2 ^ 64 - 1 := by
  refine exists_iff.trans ?_
  simp

theorem exists_deadline_iff : (∃ e, h.NextDeadline es e) ↔
    ∃ e ∈ es, (h.entityAt e).policy = .fifo ∧ (h.entityAt e).deadline.toNat < 2 ^ 64 - 1 :=
  exists_iff

/-- **The pickers choose the right vCPU.** If each entity on the queue is the one of exactly one vCPU of a
listed VM, `scheduler_cfs_pick_next` returns the vCPU of the first entity with the least virtual runtime, and
`NULL` just if no runtime is below the largest value. `scheduler_fifo_pick_next` returns the vCPU of the first
FIFO entity with the least deadline, of those with a deadline below the largest value, and if there is none
it returns what `scheduler_cfs_pick_next` returns. -/
theorem pickers_choose (hr : Roster h cpu es xs) (hone : ∀ e ∈ es, ∃! c, h.OwnedBy xs e c) :
    ∃ r r', (schedulerCfsPickNext cpu).run h = some (r, h) ∧ (schedulerFifoPickNext cpu).run h = some (r', h) ∧
      (∀ c, r = some c ↔ ∃ e, h.LeastRun es e ∧ h.OwnedBy xs e c) ∧
      (r = none ↔ ¬ ∃ e ∈ es, (h.entityAt e).vruntime.toNat < 2 ^ 64 - 1) ∧
      ((∃ e ∈ es, (h.entityAt e).policy = .fifo ∧ (h.entityAt e).deadline.toNat < 2 ^ 64 - 1) →
        ∀ c, r' = some c ↔ ∃ e, h.NextDeadline es e ∧ h.OwnedBy xs e c) ∧
      ((¬ ∃ e ∈ es, (h.entityAt e).policy = .fifo ∧ (h.entityAt e).deadline.toNat < 2 ^ 64 - 1) → r' = r) := by
  obtain ⟨r, _, hcfs, rfl, hpick⟩ := hr.cfs
  obtain ⟨r', _, hfifo, rfl, hchoice⟩ := hr.fifo
  refine ⟨r, r', hcfs, hfifo, fun c => ?_, ?_, ?_⟩
  · exact hpick.some_iff (fun e he => hone e he.mem) fun d e hd he => hd.unique he
  · rw [← exists_least_iff]
    refine ⟨fun hnone ⟨e, he⟩ => hpick.1 hnone e he, fun hno => ?_⟩
    cases r with
    | none => rfl
    | some c =>
      obtain ⟨e, he, -⟩ := hpick.2 c rfl
      exact absurd ⟨e, he⟩ hno
  · rw [← exists_deadline_iff]
    rcases hchoice with ⟨hex, hfirst⟩ | ⟨hno, hrun⟩
    · exact ⟨fun _ c => hfirst.some_iff (fun e he => hone e he.mem) fun d e hd he => hd.unique he,
        fun hnot => absurd hex hnot⟩
    · refine ⟨fun ⟨e, he⟩ => absurd he (hno e), fun _ => ?_⟩
      rw [hcfs] at hrun
      cases hrun
      rfl

/-- The VM of `twoCpus`, with its vCPUs on the queue of CPU 0: the one with the entity `s`, then the one
with the entity `t`. -/
def twoQueued (s t : SchedEntity) : Host where
  __ := twoCpus
  vcpus a := if a = 8192 then some { vm := 4096, schedEntity := some 16384 }
    else if a = 12288 then some { vcpuId := 1, vm := 4096, schedEntity := some 20480 } else none
  entities a := if a = 16384 then some s else if a = 20480 then some t else none
  links := listAddTail (listAddTail twoCpus.links (.entity 16384) (.head 0)) (.entity 20480) (.head 0)
  mem := { bumpMem with heap := { bumpHeap with
    live := ⟨.entity, 20480, sizeofSchedEntity⟩ :: ⟨.entity, 16384, sizeofSchedEntity⟩ :: twoCpus.mem.heap.live
    asked := 5 } }

theorem twoQueued_vms (s t : SchedEntity) : (twoQueued s t).vms = twoCpus.vms := rfl

theorem twoQueued_ownedBy {s t : SchedEntity} (ho : (twoQueued s t).OwnedBy [4096] e c) :
    e = 16384 ∧ c = 8192 ∨ e = 20480 ∧ c = 12288 := by
  obtain ⟨a, ha, v, hv, hc, he⟩ := ho
  obtain rfl := List.mem_singleton.mp ha
  rw [twoQueued_vms] at hv
  obtain ⟨-, rfl⟩ := twoCpus_vms hv
  rcases List.mem_cons.mp hc with rfl | hc
  · exact .inl ⟨(Option.some.inj he).symm, rfl⟩
  · obtain rfl := List.mem_singleton.mp hc
    exact .inr ⟨(Option.some.inj he).symm, rfl⟩

theorem roster_twoQueued (s t : SchedEntity) : Roster (twoQueued s t) 0 [16384, 20480] [4096] where
  initialized := rfl
  ring := ((queues_twoCpus.rings.ring 0).insertBefore (by simp)).insertBefore (by simp)
  entities e he := by
    rcases List.mem_cons.mp he with rfl | he
    · exact Option.some_ne_none s
    · obtain rfl := List.mem_singleton.mp he
      exact Option.some_ne_none t
  entityHeld e he := by
    rcases List.mem_cons.mp he with rfl | he
    · exact ⟨⟨.entity, 16384, sizeofSchedEntity⟩, by simp [twoQueued], rfl, rfl⟩
    · obtain rfl := List.mem_singleton.mp he
      exact ⟨⟨.entity, 20480, sizeofSchedEntity⟩, by simp [twoQueued], rfl, rfl⟩
  vms := ⟨rfl, _, rfl, rfl, rfl⟩
  vmHeld a ha := by
    obtain rfl := List.mem_singleton.mp ha
    exact ⟨⟨.vm, 4096, sizeofNexusvm⟩, by simp [twoQueued, twoCpus], rfl, rfl⟩
  vcpus a ha v hv c hc := by
    rw [twoQueued_vms] at hv
    obtain ⟨-, rfl⟩ := twoCpus_vms hv
    rcases List.mem_cons.mp hc with rfl | hc
    · exact Option.some_ne_none _
    · obtain rfl := List.mem_singleton.mp hc
      exact Option.some_ne_none _
  owned e he := by
    rcases List.mem_cons.mp he with rfl | he
    · exact ⟨8192, 4096, List.mem_singleton_self _, _, rfl, by decide, rfl⟩
    · obtain rfl := List.mem_singleton.mp he
      exact ⟨12288, 4096, List.mem_singleton_self _, _, rfl, by decide, rfl⟩

theorem one_owner_twoQueued (s t : SchedEntity) :
    ∀ e ∈ [16384, 20480], ∃! c, (twoQueued s t).OwnedBy [4096] e c := by
  intro e he
  obtain ⟨c, hc⟩ := (roster_twoQueued s t).owned e he
  refine ⟨c, hc, fun d hd => ?_⟩
  rcases twoQueued_ownedBy hc with ⟨rfl, rfl⟩ | ⟨rfl, rfl⟩ <;>
    rcases twoQueued_ownedBy hd with ⟨he, rfl⟩ | ⟨he, rfl⟩ <;> first | rfl | cases he

theorem pickers_choose_two : ∃ h r r', h = twoQueued { vruntime := 1 } {} ∧
    (schedulerCfsPickNext 0).run h = some (r, h) ∧ (schedulerFifoPickNext 0).run h = some (r', h) ∧
    r = some 12288 ∧ h.LeastRun [16384, 20480] 20480 ∧ r' = some 8192 ∧
    h.NextDeadline [16384, 20480] 16384 := by
  obtain ⟨r, r', hcfs, hfifo, hleast, -, hnext, -⟩ := pickers_choose
    (roster_twoQueued { vruntime := 1 } {}) (one_owner_twoQueued _ _)
  have hanswers : ((schedulerCfsPickNext 0).run (twoQueued { vruntime := 1 } {})).map Prod.fst =
      some (some 12288) ∧ ((schedulerFifoPickNext 0).run (twoQueued { vruntime := 1 } {})).map Prod.fst =
        some (some 8192) := by decide +kernel
  rw [hcfs, hfifo] at hanswers
  have hr : r = some 12288 := Option.some.inj hanswers.1
  have hr' : r' = some 8192 := Option.some.inj hanswers.2
  obtain ⟨e, he, ho⟩ := (hleast 12288).mp hr
  obtain ⟨e', he', ho'⟩ := (hnext ⟨16384, by decide, rfl, by decide⟩ 8192).mp hr'
  obtain ⟨-, hc⟩ | ⟨rfl, -⟩ := twoQueued_ownedBy ho
  · cases hc
  obtain ⟨rfl, -⟩ | ⟨-, hc⟩ := twoQueued_ownedBy ho'
  · exact ⟨_, r, r', rfl, hcfs, hfifo, hr, he, hr', he'⟩
  · cases hc

/-! ## Dispatch -/

/-- The picker that is used for a policy. -/
def pickerOf (policy : SchedPolicy) (cpu : ℕ) : HostM (Option Addr) :=
  if policy = .fifo ∨ policy = .rr then schedulerFifoPickNext cpu else schedulerCfsPickNext cpu

theorem wp_pickByPolicy (hr : Roster h cpu (e :: es) xs) {Q : Option Addr → Host → Prop} :
    wp (pickByPolicy cpu) Q h ↔ wp (pickerOf (h.entityAt e).policy cpu) Q h := by
  obtain ⟨s, hs⟩ := Option.ne_none_iff_exists'.mp (hr.entities e List.mem_cons_self)
  have hnext : h.links.next (.head cpu) = .entity e := hr.ring.next_head
  simp only [pickByPolicy, wp_bind, wp_get, hnext, wp_map, wp_getEntity, hs, Option.some.injEq,
    exists_eq_left', Host.entityAt_of_some hs]
  cases s.policy <;> rfl

theorem Roster.pick (hr : Roster h cpu es xs) (hne : es ≠ []) :
    wp (pickByPolicy cpu) (fun _ h' => h' = h) h := by
  obtain ⟨e, es, rfl⟩ := List.exists_cons_of_ne_nil hne
  rw [wp_pickByPolicy hr, pickerOf]
  exact wp_ite (fun _ => wp_mono hr.fifo fun _ _ hq => hq.1) fun _ => wp_mono hr.cfs fun _ _ hq => hq.1

theorem wp_schedulerSchedule_idle (hsched : h.gSchedulerInitialized = true) (hcpus : h.gCpuCount ≠ 0)
    (hidle : h.current 0 = none) {Q : Option Addr → Host → Prop} :
    wp schedulerSchedule Q h ↔ wp (pickByPolicy 0) Q h := by
  have hzero : (h.gCpuCount == 0) = false := beq_false_of_ne hcpus
  simp only [schedulerSchedule, wp_bind, wp_get, hsched, hzero, hidle, Bool.not_true, Bool.or_false,
    Bool.false_eq_true, if_false]

/-- `e` is a FIFO entity on the queue, and no other has an earlier deadline. -/
def Host.MostUrgent (h : Host) (es : List Addr) (e : Addr) : Prop :=
  e ∈ es ∧ (h.entityAt e).policy = .fifo ∧ ∀ d ∈ es, (h.entityAt d).policy = .fifo →
    (h.entityAt e).deadline ≤ (h.entityAt d).deadline

theorem Host.NextDeadline.mostUrgent (he : h.NextDeadline es e) : h.MostUrgent es e :=
  ⟨he.mem, he.prop, fun _ hd hp => UInt64.le_iff_toNat_le.mpr (he.le hd hp)⟩

/-- **Real-time vCPUs come first just if the queue looks so.** The queue of CPU 0 has a FIFO entity with a
deadline below the largest value, and no vCPU is current. Then `scheduler_schedule` returns the vCPU of a FIFO
entity with the least deadline just if the policy of the first entity on the queue is FIFO or round robin, or
the first entity with the least virtual runtime is such an entity. -/
theorem real_time_first_iff (hr : Roster h 0 (d :: es) xs) (hsched : h.gSchedulerInitialized = true)
    (hcpus : h.gCpuCount ≠ 0) (hidle : h.current 0 = none)
    (hfifo : ∃ e ∈ d :: es, (h.entityAt e).policy = .fifo ∧ (h.entityAt e).deadline.toNat < 2 ^ 64 - 1) :
    ∃ r, schedulerSchedule.run h = some (r, h) ∧
      ((∃ c e, r = some c ∧ h.OwnedBy xs e c ∧ h.MostUrgent (d :: es) e) ↔
        ((h.entityAt d).policy = .fifo ∨ (h.entityAt d).policy = .rr) ∨
          ∃ e, h.LeastRun (d :: es) e ∧ h.MostUrgent (d :: es) e) := by
  suffices key : wp schedulerSchedule (fun r h' => h' = h ∧
      ((∃ c e, r = some c ∧ h.OwnedBy xs e c ∧ h.MostUrgent (d :: es) e) ↔
        ((h.entityAt d).policy = .fifo ∨ (h.entityAt d).policy = .rr) ∨
          ∃ e, h.LeastRun (d :: es) e ∧ h.MostUrgent (d :: es) e)) h by
    obtain ⟨r, h', hrun, rfl, hiff⟩ := key
    exact ⟨r, hrun, hiff⟩
  rw [wp_schedulerSchedule_idle hsched hcpus hidle, wp_pickByPolicy hr, pickerOf]
  refine wp_ite (fun hpolicy => ?_) fun hpolicy => ?_
  · refine wp_mono hr.fifo ?_
    rintro r _ ⟨rfl, ⟨hex, hpick⟩ | ⟨hno, -⟩⟩
    · refine ⟨rfl, fun _ => .inl hpolicy, fun _ => ?_⟩
      cases r with
      | none =>
        obtain ⟨e, he⟩ := hex
        exact absurd he (hpick.1 rfl e)
      | some c =>
        obtain ⟨e, he, ho⟩ := hpick.2 c rfl
        exact ⟨c, e, rfl, ho, he.mostUrgent⟩
    · obtain ⟨e, he⟩ := exists_deadline_iff.mpr hfifo
      exact absurd he (hno e)
  · refine wp_mono hr.cfs ?_
    rintro r _ ⟨rfl, hnone, hsome⟩
    refine ⟨rfl, ?_, ?_⟩
    · rintro ⟨c, e, rfl, ho, hurgent⟩
      obtain ⟨e', he', ho'⟩ := hsome c rfl
      obtain rfl := ho.entity_unique ho'
      exact .inr ⟨e, he', hurgent⟩
    · rintro (hp | ⟨e, he, hurgent⟩)
      · exact absurd hp hpolicy
      · cases r with
        | none => exact absurd he (hnone rfl e)
        | some c =>
          obtain ⟨e', he', ho⟩ := hsome c rfl
          obtain rfl := he.unique he'
          exact ⟨c, e, rfl, ho, hurgent⟩

theorem real_time_first_iff_round_robin : ∃ h r, h = twoQueued { policy := .rr } {} ∧
    schedulerSchedule.run h = some (r, h) ∧
    ∃ c e, r = some c ∧ h.OwnedBy [4096] e c ∧ h.MostUrgent [16384, 20480] e := by
  obtain ⟨r, hrun, hiff⟩ := real_time_first_iff (roster_twoQueued { policy := .rr } {}) rfl (by decide) rfl
    ⟨20480, by decide, rfl, by decide⟩
  exact ⟨_, r, rfl, hrun, hiff.mpr (.inl (.inr rfl))⟩

/-- **A real-time vCPU that waits**: the first entity on the queue has the policy CFS, and the second one is a
FIFO entity with the deadline 0. -/
theorem real_time_waits : ∃ h, h = twoQueued { policy := .cfs } {} ∧
    Roster h 0 [16384, 20480] [4096] ∧ h.gSchedulerInitialized = true ∧ h.gCpuCount ≠ 0 ∧
    h.current 0 = none ∧ (h.entityAt 20480).policy = .fifo ∧ (h.entityAt 20480).deadline = 0 ∧
    schedulerSchedule.run h = some (some 8192, h) ∧
    ¬ ∃ c e, some 8192 = some c ∧ h.OwnedBy [4096] e c ∧ h.MostUrgent [16384, 20480] e := by
  have hr := roster_twoQueued { policy := .cfs } {}
  have hcpus : (twoQueued { policy := .cfs } {}).gCpuCount ≠ 0 := by decide
  have hres : (schedulerSchedule.run (twoQueued { policy := .cfs } {})).map Prod.fst =
      some (some 8192) := by decide +kernel
  obtain ⟨r, h', hrun, rfl, -⟩ : wp schedulerSchedule
      (fun _ h' => h' = twoQueued { policy := .cfs } {} ∧ True) _ := by
    rw [wp_schedulerSchedule_idle rfl hcpus rfl]
    exact wp_mono (hr.pick (by simp)) fun _ _ hq => ⟨hq, trivial⟩
  rw [hrun] at hres
  obtain rfl : r = some 8192 := Option.some.inj hres
  refine ⟨_, rfl, hr, rfl, hcpus, rfl, rfl, rfl, hrun, ?_⟩
  rintro ⟨c, e, hc, ho, -, hfifo, -⟩
  obtain rfl := Option.some.inj hc
  obtain ⟨rfl, -⟩ | ⟨-, hc⟩ := twoQueued_ownedBy ho
  · cases hfifo
  · cases hc

end NexusVM
