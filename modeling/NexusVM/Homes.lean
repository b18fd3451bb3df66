import NexusVM.Queues

/-!
# The queue of a vCPU

The calls that put a vCPU on a runqueue, take it off or move it, and the CPU that they work out for it.

* `Nexusvcpu.home`: that CPU, from the fields of the vCPU;
* `SchedOp`, `SchedStep`, `schedOp_step`: the calls, and what each of them does;
* `SchedStep.queues`: the queues afterwards;
* **`queued_at_home`**: a queued entity is on the queue of that CPU as long as no load balancing moves an
  entity and no queued vCPU is migrated.
-/

namespace NexusVM

open Prog

variable {n : ℕ} {q : Fin n → List Node} {h h' : Host} {c e : Addr} {u : Nexusvcpu}
  {P : Addr → Prop}

/-! ## Homes -/

/-- The CPU of `count` whose runqueue a vCPU uses. -/
def Nexusvcpu.home (u : Nexusvcpu) (count : UInt32) : UInt32 :=
  if u.physicalCpu ≥ count then u.vcpuId % count else u.physicalCpu

theorem Nexusvcpu.home_lt (u : Nexusvcpu) {count : UInt32} (hcount : count ≠ 0) :
    (u.home count).toNat < count.toNat := by
  have hpos : 0 < count.toNat := UInt32.lt_iff_toNat_lt.mp (UInt32.pos_iff_ne_zero.mpr hcount)
  unfold home
  split_ifs with hge
  · rw [UInt32.toNat_mod]
    exact Nat.mod_lt _ hpos
  · exact UInt32.lt_iff_toNat_lt.mp (UInt32.not_le.mp hge)

theorem homeCpu_home (u : Nexusvcpu) :
    wlp (homeCpu u) (fun cpu h' => h' = h ∧ cpu = u.home h.gCpuCount) h := by
  rw [homeCpu, wlp_bind, wlp_get]
  refine wlp_ite (fun hge => ?_) fun hlt => ?_
  · rw [wlp_bind, wlp_require, wlp_pure]
    exact fun _ => ⟨rfl, (if_pos hge).symm⟩
  · rw [wlp_pure]
    exact ⟨rfl, (if_neg hlt).symm⟩

theorem homeCpu_at (hcpus : h.gCpuCount ≠ 0) (u : Nexusvcpu) :
    wp (homeCpu u) (fun x h' => h' = h ∧ x = u.home h.gCpuCount) h := by
  obtain ⟨x, g, hrun, -, hhome⟩ := wp_and_wlp (homeCpu_spec hcpus u) (homeCpu_home u)
  exact ⟨x, g, hrun, hhome⟩

/-! ## Calls -/

/-- A call of the scheduler, or a migration. -/
inductive SchedOp
  | add (c : Addr)
  | remove (c : Addr)
  | yield (c : Addr)
  | wake (c : Addr)
  | loadBalance (cpu : UInt32)
  | migrate (c : Addr) (targetCpu : UInt32)

def SchedOp.run : SchedOp → HostM Unit
  | .add c => discard (schedulerAddVcpu (some c))
  | .remove c => discard (schedulerRemoveVcpu (some c))
  | .yield c => schedulerYield (some c)
  | .wake c => schedulerWake (some c)
  | .loadBalance cpu => schedulerLoadBalance cpu
  | .migrate c targetCpu => discard (vcpuMigrate (some c) targetCpu)

/-- A vCPU is added when it is on no queue, and removed, put back and woken when it is on one. -/
def SchedOp.Proper : SchedOp → Host → Prop
  | .add c, h => ∀ e ∈ h.entityOf c, ¬ h.Queued e
  | .remove c, h | .yield c, h | .wake c, h => ∀ e ∈ h.entityOf c, h.Queued e
  | .loadBalance _, _ | .migrate _ _, _ => True

instance (op : SchedOp) (h : Host) : Decidable (op.Proper h) := by
  unfold SchedOp.Proper
  split <;> infer_instance

/-! ### Adding -/

/-- The entity of a vCPU that gets one. -/
def newEntity (u : Nexusvcpu) (vmId : UInt32) : SchedEntity where
  vcpuId := u.vcpuId
  vmId := vmId
  policy := .cfs
  priority := .normal
  weight := 1024

/-- An entity is linked in at the end of a queue. -/
def Host.enqueue (h : Host) (e : Addr) (cpu : ℕ) : Host :=
  h.setLinks (listAddTail h.links (.entity e) (.head cpu))

/-- A vCPU gets a new entity. -/
def Host.giveEntity (h : Host) (c e : Addr) (u : Nexusvcpu) (vmId : UInt32) : Host :=
  ((h.grant ⟨.entity, e, 1 * sizeofSchedEntity⟩).setVcpu c
    (some { u with schedEntity := some e })).setEntity e (some (newEntity u vmId))

@[simp] theorem Host.enqueue_vcpus (h : Host) (e : Addr) (cpu : ℕ) :
    (h.enqueue e cpu).vcpus = h.vcpus := rfl

@[simp] theorem Host.giveEntity_vcpus (h : Host) (c e : Addr) (u : Nexusvcpu) (vmId : UInt32) :
    (h.giveEntity c e u vmId).vcpus = Function.update h.vcpus c (some { u with schedEntity := some e }) :=
  rfl

/-- What `scheduler_add_vcpu` does. -/
inductive Adds (c : Addr) (u : Nexusvcpu) (h : Host) : Result → Host → Prop
  | again {e : Addr} : u.schedEntity = some e →
      Adds c u h .ok (h.enqueue e (u.home h.gCpuCount).toNat)
  | noMemory : u.schedEntity = none → ¬ h.mem.heap.Serves .entity 16 (1 * sizeofSchedEntity) 1 →
      Adds c u h .errNoMemory h.refuse
  | fresh {e : Addr} {vmId : UInt32} : u.schedEntity = none →
      h.mem.heap.Fits 16 ⟨.entity, e, 1 * sizeofSchedEntity⟩ → h.mem.heap.answer h.mem.heap.asked = some e →
      Adds c u h .ok ((h.giveEntity c e u vmId).enqueue e (u.home h.gCpuCount).toNat)

theorem schedulerAddVcpu_adds : wlp (schedulerAddVcpu (some c))
    (fun r h' => ∃ u, h.vcpus c = some u ∧ Adds c u h r h') h := by
  rw [schedulerAddVcpu, wlp_bind, wlp_getVcpu]
  intro u hu
  rw [wlp_bind]
  refine wlp_mono (homeCpu_home u) ?_
  rintro cpu _ ⟨rfl, rfl⟩
  cases he : u.schedEntity with
  | some e =>
    simp only [wlp_bind, wlp_getLinks, wlp_putLinks, wlp_pure]
    exact ⟨u, hu, .again he⟩
  | none =>
    rw [wlp_bind]
    refine (wp_alignedAlloc_iff.mpr ⟨fun e hanswer hfit => ?_, fun hno => ?_⟩).wlp
    · simp only [wlp_bind, wlp_getVm, wlp_putVcpu, wlp_putEntity, wlp_getLinks, wlp_putLinks, wlp_pure]
      exact fun v _ => ⟨u, hu, .fresh he hfit hanswer⟩
    · rw [wlp_pure]
      exact ⟨u, hu, .noMemory he hno⟩

/-! ### Balancing -/

/-- The number of nodes on a runqueue, as the loops count it. -/
def Host.load (h : Host) (cpu : ℕ) : UInt32 := UInt32.ofNat ((h.runqueue cpu).getD []).length

/-- The CPU that load balancing takes entities to: the first of the least loaded others. -/
structure LeastLoaded (h : Host) (cpu tgt : ℕ) : Prop where
  lt : tgt < h.gCpuCount.toNat
  ne : tgt ≠ cpu
  le : ∀ i < h.gCpuCount.toNat, i ≠ cpu → h.load tgt ≤ h.load i
  first : ∀ i < tgt, i ≠ cpu → h.load tgt < h.load i

theorem queueLoad_load (cpu : ℕ) : wlp (queueLoad cpu) (fun r h' => h' = h ∧ r = h.load cpu) h := by
  simp only [queueLoad, runqueue, wlp_bind, wlp_fetch, wlp_pure]
  intro nodes hnodes
  exact ⟨trivial, by rw [Host.load, hnodes]; rfl⟩

/-- What the scan knows after the first `k` CPUs. -/
structure Scanned (h : Host) (cpu k : ℕ) (minLoad : UInt32) (tgt : ℕ) : Prop where
  le : ∀ i < k, i ≠ cpu → minLoad ≤ h.load i
  found : (minLoad = 0xFFFFFFFF ∧ tgt = 0) ∨
    tgt < k ∧ tgt ≠ cpu ∧ minLoad = h.load tgt ∧ ∀ i < tgt, i ≠ cpu → minLoad < h.load i

theorem Scanned.next {cpu k tgt : ℕ} {minLoad : UInt32} (hs : Scanned h cpu k minLoad tgt)
    (hk : k = cpu ∨ ¬ h.load k < minLoad) : Scanned h cpu (k + 1) minLoad tgt := by
  refine ⟨fun i hi hne => ?_, ?_⟩
  · rcases Nat.lt_succ_iff_lt_or_eq.mp hi with hi | rfl
    · exact hs.le i hi hne
    · exact UInt32.not_lt.mp (hk.resolve_left hne)
  · rcases hs.found with hnone | ⟨hlt, hrest⟩
    · exact .inl hnone
    · exact .inr ⟨by omega, hrest⟩

theorem Scanned.take {cpu k tgt : ℕ} {minLoad : UInt32} (hs : Scanned h cpu k minLoad tgt)
    (hk : k ≠ cpu) (hlt : h.load k < minLoad) : Scanned h cpu (k + 1) (h.load k) k := by
  refine ⟨fun i hi hne => ?_, .inr ⟨k.lt_succ_self, hk, rfl, fun i hi hne => ?_⟩⟩
  · rcases Nat.lt_succ_iff_lt_or_eq.mp hi with hi | rfl
    · exact UInt32.le_trans (UInt32.le_of_lt hlt) (hs.le i hi hne)
    · exact UInt32.le_refl _
  · exact UInt32.lt_of_lt_of_le hlt (hs.le i hi hne)

theorem leastLoaded_scanned {cpu k m tgt : ℕ} {minLoad : UInt32} (hs : Scanned h cpu k minLoad tgt) :
    wlp (leastLoaded cpu (List.range' k m) minLoad tgt)
      (fun r h' => h' = h ∧ Scanned h cpu (k + m) r.1 r.2) h := by
  induction m generalizing k minLoad tgt with
  | zero =>
    rw [List.range'_zero, leastLoaded, wlp_pure]
    exact ⟨rfl, hs⟩
  | succ m ih =>
    rw [List.range'_succ, leastLoaded, show k + (m + 1) = k + 1 + m by omega]
    refine wlp_ite (fun hk => ih (hs.next (.inl hk))) fun hk => ?_
    rw [wlp_bind]
    refine wlp_mono (queueLoad_load k) ?_
    rintro _ _ ⟨rfl, rfl⟩
    exact wlp_ite (fun hlt => ih (hs.take hk hlt)) fun hge => ih (hs.next (.inr hge))

theorem eq_of_max_le {x : UInt32} (hx : 0xFFFFFFFF ≤ x) : x = 0xFFFFFFFF := by
  have hlt := x.toNat_lt
  have hle : 2 ^ 32 - 1 ≤ x.toNat := UInt32.le_iff_toNat_le.mp hx
  exact UInt32.toNat_inj.mp (by change x.toNat = 2 ^ 32 - 1; omega)

/-- The scan finds the least loaded CPU, unless it stays with the one it started from. -/
theorem Scanned.leastLoaded {cpu tgt : ℕ} {minLoad : UInt32} (hpos : 0 < h.gCpuCount.toNat)
    (hs : Scanned h cpu h.gCpuCount.toNat minLoad tgt) :
    tgt = cpu ∨ LeastLoaded h cpu tgt ∧ minLoad = h.load tgt := by
  rcases hs.found with ⟨rfl, rfl⟩ | ⟨hlt, hne, rfl, hfirst⟩
  · by_cases hcpu : 0 = cpu
    · exact .inl hcpu
    · have hmax : ∀ i < h.gCpuCount.toNat, i ≠ cpu → h.load i = 0xFFFFFFFF :=
        fun i hi hne => eq_of_max_le (hs.le i hi hne)
      refine .inr ⟨⟨hpos, hcpu, fun i hi hne => ?_, fun i hi => absurd hi i.not_lt_zero⟩,
        (hmax 0 hpos hcpu).symm⟩
      rw [hmax 0 hpos hcpu, hmax i hi hne]
      exact UInt32.le_refl _
  · exact .inr ⟨⟨hlt, hne, hs.le, hfirst⟩, rfl⟩

/-! ### Steps -/

/-- What a call does where it does anything. -/
inductive SchedStep (h : Host) : SchedOp → Host → Prop
  | add {c : Addr} {u : Nexusvcpu} {r : Result} {h' : Host} : h.vcpus c = some u → Adds c u h r h' →
      SchedStep h (.add c) h'
  | remove {c e : Addr} {u : Nexusvcpu} : h.vcpus c = some u → u.schedEntity = some e →
      SchedStep h (.remove c) (h.setLinks (listDel h.links (.entity e)))
  | yield {c e : Addr} {u : Nexusvcpu} : h.vcpus c = some u → u.schedEntity = some e →
      SchedStep h (.yield c) (h.setLinks (listAddTail (listDel h.links (.entity e)) (.entity e)
        (.head (u.home h.gCpuCount).toNat)))
  | wake {c e : Addr} {u : Nexusvcpu} : h.vcpus c = some u → u.schedEntity = some e →
      SchedStep h (.wake c) (h.setLinks (listAdd (listDel h.links (.entity e)) (.entity e)
        (.head (u.home h.gCpuCount).toNat)))
  | loadBalance {cpu : UInt32} {tgt : ℕ} : cpu < h.gCpuCount →
      h.links.next (.head cpu.toNat) ≠ .head cpu.toNat →
      (tgt = cpu.toNat ∨ LeastLoaded h cpu.toNat tgt ∧ h.load cpu.toNat > h.load tgt + 2) →
      SchedStep h (.loadBalance cpu) (h.setLinks (listAddTail
        (listDel h.links (h.links.next (.head cpu.toNat))) (h.links.next (.head cpu.toNat))
        (.head tgt)))
  | migrate {c : Addr} {u : Nexusvcpu} {targetCpu : UInt32} : h.vcpus c = some u →
      targetCpu < h.hv.onlineCpuCount →
      SchedStep h (.migrate c targetCpu) (h.setVcpu c (some { u with physicalCpu := targetCpu }))

theorem schedulerLoadBalance_step (hpos : 0 < h.gCpuCount.toNat) (cpu : UInt32) :
    wlp (schedulerLoadBalance cpu) (fun _ h' => h' = h ∨ SchedStep h (.loadBalance cpu) h') h := by
  rw [schedulerLoadBalance, wlp_bind, wlp_get]
  refine wlp_ite (fun _ => ?_) fun hcpu => ?_
  · rw [wlp_pure]
    exact .inl rfl
  have hscan : Scanned h cpu.toNat 0 0xFFFFFFFF 0 :=
    ⟨fun i hi => absurd hi i.not_lt_zero, .inl ⟨rfl, rfl⟩⟩
  rw [wlp_bind, List.range_eq_range']
  refine wlp_mono (leastLoaded_scanned hscan) ?_
  rintro ⟨minLoad, tgt⟩ _ ⟨rfl, hs⟩
  rw [Nat.zero_add] at hs
  rw [wlp_bind]
  refine wlp_mono (queueLoad_load _) ?_
  rintro _ _ ⟨rfl, rfl⟩
  refine wlp_ite (fun hload => wlp_ite (fun hne => ?_) fun _ => ?_) fun _ => ?_
  · rw [wlp_putLinks]
    refine .inr (.loadBalance (UInt32.not_le.mp hcpu) (by simpa [listEmpty] using hne) ?_)
    rcases hs.leastLoaded hpos with hself | ⟨hleast, hmin⟩
    · exact .inl hself
    · exact .inr ⟨hleast, hmin ▸ hload⟩
  · rw [wlp_pure]
    exact .inl rfl
  · rw [wlp_pure]
    exact .inl rfl

theorem entityOf_some (hu : h.vcpus c = some u) : h.entityOf c = u.schedEntity := by
  rw [Host.entityOf, hu]
  rfl

/-- The entity of a vCPU is taken out of its queue and put back. -/
def Requeues (h : Host) (op : SchedOp) (e : Addr) : Prop :=
  match op with
  | .yield c | .wake c => h.entityOf c = some e
  | _ => False

/-- **Every call** does nothing or is a step. -/
theorem schedOp_step (hpos : 0 < h.gCpuCount.toNat) (op : SchedOp) :
    wlp op.run (fun _ h' => (h' = h ∧ ∀ e, ¬ Requeues h op e) ∨ SchedStep h op h') h := by
  cases op with
  | add c =>
    rw [SchedOp.run, wlp_discard]
    refine wlp_mono schedulerAddVcpu_adds ?_
    rintro r h' ⟨u, hu, ha⟩
    exact .inr (.add hu ha)
  | remove c =>
    rw [SchedOp.run, wlp_discard, schedulerRemoveVcpu, wlp_bind, wlp_getVcpu]
    intro u hu
    cases he : u.schedEntity with
    | none =>
      rw [wlp_pure]
      exact .inl ⟨rfl, fun _ => id⟩
    | some e =>
      rw [wlp_bind]
      refine wlp_mono (homeCpu_home u) ?_
      rintro _ _ ⟨rfl, rfl⟩
      simp only [wlp_bind, wlp_getLinks, wlp_putLinks, wlp_pure]
      exact .inr (.remove hu he)
  | yield c =>
    rw [SchedOp.run, schedulerYield, wlp_bind, wlp_getVcpu]
    intro u hu
    cases he : u.schedEntity with
    | none =>
      rw [wlp_pure]
      refine .inl ⟨rfl, fun e (hr : h.entityOf c = some e) => ?_⟩
      rw [entityOf_some hu, he] at hr
      cases hr
    | some e =>
      rw [wlp_bind]
      refine wlp_mono (homeCpu_home u) ?_
      rintro _ _ ⟨rfl, rfl⟩
      simp only [wlp_bind, wlp_getLinks, wlp_putLinks]
      exact .inr (.yield hu he)
  | wake c =>
    rw [SchedOp.run, schedulerWake, wlp_bind, wlp_getVcpu]
    intro u hu
    cases he : u.schedEntity with
    | none =>
      rw [wlp_pure]
      refine .inl ⟨rfl, fun e (hr : h.entityOf c = some e) => ?_⟩
      rw [entityOf_some hu, he] at hr
      cases hr
    | some e =>
      rw [wlp_bind]
      refine wlp_mono (homeCpu_home u) ?_
      rintro _ _ ⟨rfl, rfl⟩
      simp only [wlp_bind, wlp_getLinks, wlp_putLinks]
      exact .inr (.wake hu he)
  | loadBalance cpu =>
    refine wlp_mono (schedulerLoadBalance_step hpos cpu) ?_
    rintro _ _ (rfl | hs)
    · exact .inl ⟨rfl, fun _ => id⟩
    · exact .inr hs
  | migrate c targetCpu =>
    rw [SchedOp.run, wlp_discard, vcpuMigrate, wlp_bind, wlp_getHv]
    intro _
    refine wlp_ite (fun _ => ?_) fun hlt => ?_
    · rw [wlp_pure]
      exact .inl ⟨rfl, fun _ => id⟩
    · simp only [wlp_bind, wlp_getVcpu, wlp_putVcpu, wlp_pure]
      exact fun u hu => .inr (.migrate hu (UInt32.not_le.mp hlt))

/-! ## The queues -/

theorem Layout.setLinks (hl : Layout P h) (l : DList.Links Node) : Layout P (h.setLinks l) :=
  hl.same ⟨rfl, rfl, rfl, rfl, rfl⟩ rfl rfl rfl rfl fun _ => id

theorem Adds.layout (hl : Layout P h) (hu : h.vcpus c = some u) {r : Result} (ha : Adds c u h r h') :
    Layout P h' := by
  cases ha with
  | again he => exact hl.setLinks _
  | noMemory he => exact hl.same ⟨rfl, rfl, rfl, rfl, rfl⟩ rfl rfl rfl rfl fun _ => id
  | fresh he hfit => exact (hl.newEntity _ hu hfit).setLinks _

theorem Adds.entities (hl : Layout P h) {r : Result} (ha : Adds c u h r h') {s : SchedEntity}
    (he : h.entities e = some s) : h'.entities e = some s := by
  cases ha with
  | again | noMemory => exact he
  | @fresh x vmId hnone hfit =>
    have hfresh : h.entities x = none := hl.entity_fresh hfit
    refine (Function.update_of_ne ?_ _ _).trans he
    rintro rfl
    rw [hfresh] at he
    cases he

theorem SchedStep.layout (hl : Layout P h) {op : SchedOp} (hs : SchedStep h op h') : Layout P h' := by
  cases hs with
  | add hu ha => exact ha.layout hl hu
  | remove | yield | wake | loadBalance => exact hl.setLinks _
  | migrate hu => exact hl.setVcpu _ hu rfl rfl

/-- An entity is put on the queue of a CPU. -/
def Puts (h : Host) (op : SchedOp) (h' : Host) (e : Addr) (cpu : ℕ) : Prop :=
  match op with
  | .add c | .yield c | .wake c =>
    h'.entityOf c = some e ∧ ∃ u, h.vcpus c = some u ∧ cpu = (u.home h.gCpuCount).toNat
  | .loadBalance src => h.links.next (.head src.toNat) = .entity e ∧
    LeastLoaded h src.toNat cpu ∧ h.load src.toNat > h.load cpu + 2
  | .remove _ | .migrate _ _ => False

theorem entityOf_giveEntity {vmId : UInt32} {cpu : ℕ} :
    ((h.giveEntity c e u vmId).enqueue e cpu).entityOf c = some e := by
  rw [Host.entityOf, Host.enqueue_vcpus, Host.giveEntity_vcpus, Function.update_self]
  rfl

theorem Adds.queues (hl : Layout P h) (hq : Queues n h q) (hu : h.vcpus c = some u)
    (hp : (SchedOp.add c).Proper h) {r : Result} (ha : Adds c u h r h') :
    ∃ q', Queues n h' q' ∧ ∀ i d, .entity d ∈ q' i ↔ .entity d ∈ q i ∨
      r = .ok ∧ h'.entityOf c = some d ∧ i.val = (u.home h.gCpuCount).toNat := by
  have hhome : (u.home h.gCpuCount).toNat < n := by
    rw [← hq.cpus]
    exact u.home_lt hl.cpus
  have hent := entityOf_some hu
  cases ha with
  | @again e he =>
    obtain ⟨s, hs⟩ := hl.entity c u e hu he
    have hnot : ∀ i, .entity e ∉ q i := fun i hi =>
      hp e (hent.trans he) ((hq.queued_iff hl).mpr ⟨i, hi⟩)
    have hex : h.entities e ≠ none := by
      rw [hs]
      exact Option.some_ne_none s
    obtain ⟨q', hq', hmem⟩ : ∃ q', Queues n (h.enqueue e (u.home h.gCpuCount).toNat) q' ∧ _ :=
      hq.enqueue hhome hnot rfl rfl (fun _ => id) hex
    refine ⟨q', hq', fun i d => ?_⟩
    have hown : (h.enqueue e (u.home h.gCpuCount).toNat).entityOf c = some e := hent.trans he
    rw [hmem, hown, Node.entity.injEq, Option.some.injEq, Fin.ext_iff]
    tauto
  | noMemory he =>
    refine ⟨q, hq.congr rfl rfl fun _ => id, fun i d => ?_⟩
    simp
  | @fresh e vmId he hfit =>
    have hfresh : h.entities e = none := hl.entity_fresh hfit
    have hnot : ∀ i, .entity e ∉ q i := fun i hi => hq.exists_entity hi hfresh
    have hold : ∀ x, h.entities x ≠ none → (h.giveEntity c e u vmId).entities x ≠ none := by
      intro x hx
      have hxe : x ≠ e := fun hxe => hx (hxe ▸ hfresh)
      exact fun hnone => hx ((Function.update_of_ne hxe _ _).symm.trans hnone)
    have hnew : (h.giveEntity c e u vmId).entities e ≠ none := fun hnone =>
      Option.some_ne_none _ ((Function.update_self e _ _).symm.trans hnone)
    obtain ⟨q', hq', hmem⟩ : ∃ q', Queues n ((h.giveEntity c e u vmId).enqueue e
        (u.home h.gCpuCount).toNat) q' ∧ _ := hq.enqueue hhome hnot rfl rfl hold hnew
    refine ⟨q', hq', fun i d => ?_⟩
    rw [hmem, entityOf_giveEntity, Node.entity.injEq, Option.some.injEq, Fin.ext_iff]
    tauto

/-- **Where entities are after a step**: where they were, or where the call puts them. -/
theorem SchedStep.queues (hl : Layout P h) (hq : Queues n h q) {op : SchedOp} (hp : op.Proper h)
    (hs : SchedStep h op h') : ∃ q', Queues n h' q' ∧ ∀ i d, .entity d ∈ q' i →
      (.entity d ∈ q i ∧ ¬ Requeues h op d) ∨ Puts h op h' d i := by
  have hhome : ∀ u : Nexusvcpu, (u.home h.gCpuCount).toNat < n := by
    intro u
    rw [← hq.cpus]
    exact u.home_lt hl.cpus
  have hin : ∀ {c u e}, h.vcpus c = some u → u.schedEntity = some e →
      (∀ e, h.entityOf c = some e → h.Queued e) → ∃ i, .entity e ∈ q i := fun hu he hp =>
    (hq.queued_iff hl).mp (hp _ ((entityOf_some hu).trans he))
  cases hs with
  | add hu ha =>
    obtain ⟨q', hq', hmem⟩ := ha.queues hl hq hu hp
    refine ⟨q', hq', fun i d hd => ?_⟩
    rcases (hmem i d).mp hd with hd | ⟨-, hown, hi⟩
    · exact .inl ⟨hd, id⟩
    · exact .inr ⟨hown, _, hu, hi⟩
  | @remove c e u hu he =>
    obtain ⟨q', hq', hmem⟩ := hq.remove (hin hu he hp)
    exact ⟨q', hq', fun i d hd => .inl ⟨((hmem i d).mp hd).1, id⟩⟩
  | @yield c e u hu he =>
    obtain ⟨q', hq', hmem⟩ := hq.move (hin hu he hp) (hhome u)
    refine ⟨q', hq', fun i d hd => ?_⟩
    rcases (hmem i d).mp hd with ⟨hd, hne⟩ | ⟨rfl, rfl⟩
    · refine .inl ⟨hd, fun hent : h.entityOf c = some d => ?_⟩
      rw [entityOf_some hu, he] at hent
      exact hne (Option.some.inj hent).symm
    · exact .inr ⟨(entityOf_some hu).trans he, u, hu, rfl⟩
  | @wake c e u hu he =>
    obtain ⟨q', hq', hmem⟩ := hq.moveFront (hin hu he hp) (hhome u)
    refine ⟨q', hq', fun i d hd => ?_⟩
    rcases (hmem i d).mp hd with ⟨hd, hne⟩ | ⟨rfl, rfl⟩
    · refine .inl ⟨hd, fun hent : h.entityOf c = some d => ?_⟩
      rw [entityOf_some hu, he] at hent
      exact hne (Option.some.inj hent).symm
    · exact .inr ⟨(entityOf_some hu).trans he, u, hu, rfl⟩
  | @loadBalance cpu tgt hcpu hne htgt =>
    have hcpu' : cpu.toNat < n := by
      rw [← hq.cpus]
      exact UInt32.lt_iff_toNat_lt.mp hcpu
    have htgt' : tgt < n := by
      rcases htgt with rfl | ⟨hleast, -⟩
      · exact hcpu'
      · rw [← hq.cpus]
        exact hleast.lt
    obtain ⟨e, hx, hfirst⟩ := hq.first hcpu' hne
    rw [hx]
    obtain ⟨q', hq', hmem⟩ := hq.move ⟨_, hfirst⟩ htgt'
    refine ⟨q', hq', fun i d hd => ?_⟩
    rcases (hmem i d).mp hd with ⟨hd, -⟩ | ⟨rfl, rfl⟩
    · exact .inl ⟨hd, id⟩
    · rcases htgt with rfl | ⟨hleast, hload⟩
      · exact .inl ⟨hfirst, id⟩
      · exact .inr ⟨hx, hleast, hload⟩
  | migrate hu =>
    exact ⟨q, hq.congr rfl rfl fun _ => id, fun i d hd => .inl ⟨hd, id⟩⟩

theorem SchedStep.cpus {op : SchedOp} (hs : SchedStep h op h') : h'.gCpuCount = h.gCpuCount := by
  cases hs with
  | add hu ha => cases ha <;> rfl
  | remove | yield | wake | loadBalance | migrate => rfl

/-- A vCPU keeps its entity and its home, unless it gets a new entity or is migrated. -/
theorem SchedStep.vcpu_of (hl : Layout P h) {op : SchedOp} (hs : SchedStep h op h') {u' : Nexusvcpu}
    (hu' : h'.vcpus c = some u') (he : u'.schedEntity = some e) : ∃ u, h.vcpus c = some u ∧
      (u.schedEntity = some e ∨ h.entities e = none) ∧
      (u'.home h.gCpuCount = u.home h.gCpuCount ∨
        ∃ t, op = .migrate c t ∧ t < h.hv.onlineCpuCount ∧ u' = { u with physicalCpu := t }) := by
  cases hs with
  | @add d u r _ hu ha =>
    cases ha with
    | again | noMemory => exact ⟨u', hu', .inl he, .inl rfl⟩
    | @fresh x vmId hnone hfit =>
      have hfresh : h.entities x = none := hl.entity_fresh hfit
      by_cases hcd : c = d
      · subst hcd
        rw [Host.enqueue_vcpus, Host.giveEntity_vcpus, Function.update_self] at hu'
        cases hu'
        cases he
        exact ⟨u, hu, .inr hfresh, .inl rfl⟩
      · rw [Host.enqueue_vcpus, Host.giveEntity_vcpus, Function.update_of_ne hcd] at hu'
        exact ⟨u', hu', .inl he, .inl rfl⟩
  | remove | yield | wake | loadBalance => exact ⟨u', hu', .inl he, .inl rfl⟩
  | @migrate d u t hu ht =>
    by_cases hcd : c = d
    · subst hcd
      rw [Host.setVcpu_vcpus, Function.update_self] at hu'
      cases hu'
      exact ⟨u, hu, .inl he, .inr ⟨t, rfl, ht, rfl⟩⟩
    · rw [Host.setVcpu_vcpus, Function.update_of_ne hcd] at hu'
      exact ⟨u', hu', .inl he, .inl rfl⟩

/-! ## Being at home -/

/-- Every queued vCPU is on the queue of the CPU that the scheduler works out for it. -/
def AtHome (h : Host) : Prop := ∀ c u e, h.vcpus c = some u → u.schedEntity = some e → h.Queued e →
  ∃ nodes ∈ h.runqueue (u.home h.gCpuCount).toNat, .entity e ∈ nodes

/-- The call leaves every queued vCPU at home: load balancing finds no queue that is shorter by more
than two, and no queued vCPU is migrated to another home. -/
def SchedOp.KeepsHome : SchedOp → Host → Prop
  | .loadBalance cpu, h => cpu < h.gCpuCount → ∀ i < h.gCpuCount.toNat, i ≠ cpu.toNat →
      h.load cpu.toNat ≤ h.load i + 2
  | .migrate c t, h => t < h.hv.onlineCpuCount → ∀ u ∈ h.vcpus c, ∀ e ∈ u.schedEntity, h.Queued e →
      Nexusvcpu.home { u with physicalCpu := t } h.gCpuCount = u.home h.gCpuCount
  | _, _ => True

instance (op : SchedOp) (h : Host) : Decidable (op.KeepsHome h) := by
  unfold SchedOp.KeepsHome
  split <;> infer_instance

/-- The same with the queues named. -/
def HomeQueues (h : Host) (q : Fin n → List Node) : Prop := ∀ c u e i, h.vcpus c = some u →
  u.schedEntity = some e → .entity e ∈ q i → i.val = (u.home h.gCpuCount).toNat

theorem atHome_iff (hl : Layout P h) (hq : Queues n h q) : AtHome h ↔ HomeQueues h q := by
  constructor
  · intro hat c u e i hu he hi
    obtain ⟨nodes, hnodes, hmem⟩ := hat c u e hu he ((hq.queued_iff hl).mpr ⟨i, hi⟩)
    have hlt : (u.home h.gCpuCount).toNat < n := by
      rw [← hq.cpus]
      exact u.home_lt hl.cpus
    rw [hq.runqueue hl ⟨_, hlt⟩] at hnodes
    cases hnodes
    exact congrArg Fin.val (hq.rings.eq_of_mem hi hmem)
  · intro hat c u e hu he hqueued
    obtain ⟨i, hi⟩ := (hq.queued_iff hl).mp hqueued
    rw [← hat c u e i hu he hi]
    exact ⟨q i, hq.runqueue hl i, hi⟩

/-- **Each call keeps the queued vCPUs at home.** -/
theorem SchedStep.homeQueues (hl : Layout P h) (hq : Queues n h q) (hat : HomeQueues h q) {op : SchedOp}
    (hp : op.Proper h) (hC : op.KeepsHome h) (hs : SchedStep h op h') :
    ∃ q', Queues n h' q' ∧ HomeQueues h' q' := by
  obtain ⟨q', hq', hback⟩ := hs.queues hl hq hp
  refine ⟨q', hq', fun c u' e i hu' he hi => ?_⟩
  obtain ⟨u, hu, hent, hhome⟩ := hs.vcpu_of hl hu' he
  rw [hs.cpus]
  rcases hback i e hi with ⟨hi, -⟩ | hput
  · -- it was there before
    have hent := hent.resolve_right (hq.exists_entity hi)
    rw [hat c u e i hu hent hi]
    rcases hhome with hhome | ⟨t, rfl, ht, rfl⟩
    · rw [hhome]
    · rw [hC ht u hu e hent ((hq.queued_iff hl).mpr ⟨i, hi⟩)]
  · have hown : h'.entityOf c = some e := (entityOf_some hu').trans he
    cases op with
    | add d | yield d | wake d =>
      obtain ⟨hd, w, hw, hi⟩ := hput
      obtain rfl := (hs.layout hl).entityOf_inj hown hd
      rw [hu] at hw
      cases hw
      rcases hhome with hhome | ⟨t, hop, -⟩
      · rw [hhome, hi]
      · cases hop
    | loadBalance cpu =>
      obtain ⟨hx, hleast, hload⟩ := hput
      have hcpu : cpu < h.gCpuCount := by cases hs; assumption
      exact absurd (hC hcpu i hleast.lt hleast.ne) (UInt32.not_le.mpr hload)
    | remove | migrate => exact hput.elim

/-- **Runs.** Queued vCPUs stay at home in every run of calls in which no load balancing moves an entity
and no queued vCPU is migrated to another home. -/
theorem queued_at_home {h₀ : Host} (hl : Layout P h₀) (hwf : WellFormedQueues h₀) (hat : AtHome h₀)
    {ops : List SchedOp} (hC : Along SchedOp.run (fun op h => op.Proper h ∧ op.KeepsHome h) ops h₀)
    (hrun : (runOps SchedOp.run ops).run h₀ = some ((), h)) : WellFormedQueues h ∧ AtHome h := by
  obtain ⟨q, hq⟩ := wellFormed_iff.mp hwf
  suffices hinv : Layout P h ∧ ∃ q' : Fin h₀.gCpuCount.toNat → List Node, Queues _ h q' ∧ HomeQueues h q' by
    obtain ⟨hl', q', hq', hat'⟩ := hinv
    exact ⟨hq'.wellFormed, (atHome_iff hl' hq').mpr hat'⟩
  refine wlp_runOps (I := fun h => Layout P h ∧ ∃ q' : Fin h₀.gCpuCount.toNat → List Node,
    Queues _ h q' ∧ HomeQueues h q') ?_ hC ⟨hl, q, hq, (atHome_iff hl hq).mp hat⟩ () h hrun
  rintro op g ⟨hp, hkeeps⟩ ⟨hl, q, hq, hat⟩
  refine wlp_mono (schedOp_step hl.cpus_pos op) ?_
  rintro _ g' (⟨rfl, -⟩ | hs)
  · exact ⟨hl, q, hq, hat⟩
  · exact ⟨hs.layout hl, hs.homeQueues hl hq hat hp hkeeps⟩

/-- Two CPUs, and a VM with two vCPUs that are not queued. -/
def twoCpus : Host where
  __ := bootHost 2 .intel
  hv := { cpuVendor := .intel, onlineCpuCount := 2, vms := some 4096, vmCount := 1 }
  vms a := if a = 4096 then some { id := 1, vcpuCount := 2, vcpus := [8192, 12288] } else none
  vcpus a := if a = 8192 then some { vm := 4096 }
    else if a = 12288 then some { vcpuId := 1, vm := 4096 } else none
  mem := { bumpMem with heap := { bumpHeap with
    live := [⟨.vcpu, 12288, sizeofNexusvcpu⟩, ⟨.vcpu, 8192, sizeofNexusvcpu⟩, ⟨.vm, 4096, sizeofNexusvm⟩]
    asked := 3 } }

theorem twoCpus_vms {a : Addr} {v : Nexusvm} (hv : twoCpus.vms a = some v) :
    a = 4096 ∧ v = { id := 1, vcpuCount := 2, vcpus := [8192, 12288] } := by
  change (if a = 4096 then _ else none) = _ at hv
  split_ifs at hv with ha
  exact ⟨ha, (Option.some.inj hv).symm⟩

theorem twoCpus_vcpus {c : Addr} {u : Nexusvcpu} (hu : twoCpus.vcpus c = some u) :
    (c = 8192 ∨ c = 12288) ∧ u.vm = 4096 ∧ u.schedEntity = none := by
  change (if c = 8192 then _ else if c = 12288 then _ else none) = _ at hu
  split_ifs at hu with hc hc
  · cases hu
    exact ⟨.inl hc, rfl, rfl⟩
  · cases hu
    exact ⟨.inr hc, rfl, rfl⟩

theorem layout_twoCpus : Layout (fun _ => True) twoCpus where
  initialized := rfl
  cpus := by decide
  online := rfl
  vmHeld a v hv := by
    obtain ⟨rfl, -⟩ := twoCpus_vms hv
    exact ⟨⟨.vm, 4096, sizeofNexusvm⟩, by simp [twoCpus], rfl, rfl⟩
  vcpuHeld c u hu := by
    obtain ⟨rfl | rfl, -⟩ := twoCpus_vcpus hu
    · exact ⟨⟨.vcpu, 8192, sizeofNexusvcpu⟩, by simp [twoCpus], rfl, rfl⟩
    · exact ⟨⟨.vcpu, 12288, sizeofNexusvcpu⟩, by simp [twoCpus], rfl, rfl⟩
  entityHeld e s hs := by cases hs
  count a v _ hv := by
    obtain ⟨-, rfl⟩ := twoCpus_vms hv
    rfl
  nodup a v _ hv := by
    obtain ⟨-, rfl⟩ := twoCpus_vms hv
    decide
  vcpus a v _ hv c hc := by
    obtain ⟨rfl, rfl⟩ := twoCpus_vms hv
    rcases List.mem_cons.mp hc with rfl | hc
    · exact ⟨_, rfl, rfl⟩
    · obtain rfl := List.mem_singleton.mp hc
      exact ⟨_, rfl, rfl⟩
  root a v r _ hv hr := by
    obtain ⟨-, rfl⟩ := twoCpus_vms hv
    cases hr
  rootInj a b v w r _ _ hv _ hr _ := by
    obtain ⟨-, rfl⟩ := twoCpus_vms hv
    cases hr
  entity c u e hu he := by
    rw [(twoCpus_vcpus hu).2.2] at he
    cases he
  inj c c' u u' e hu _ he _ := by
    rw [(twoCpus_vcpus hu).2.2] at he
    cases he

theorem queues_twoCpus : Queues 2 twoCpus fun _ => [] :=
  (boot_bootHost (n := 2) (by decide) .intel).queueInv.queues.congr rfl rfl fun _ => id

theorem atHome_twoCpus : AtHome twoCpus := by
  intro c u e hu he
  rw [(twoCpus_vcpus hu).2.2] at he
  cases he

theorem queued_at_home_yield : ∃ h, (runOps SchedOp.run [.add 8192, .add 12288, .yield 8192]).run twoCpus =
    some ((), h) ∧ WellFormedQueues h ∧ AtHome h := by
  have hsome : ((runOps SchedOp.run [.add 8192, .add 12288, .yield 8192]).run twoCpus).isSome = true := by
    decide +kernel
  obtain ⟨⟨⟨⟩, h⟩, hrun⟩ := Option.isSome_iff_exists.mp hsome
  exact ⟨h, hrun, queued_at_home layout_twoCpus queues_twoCpus.wellFormed atHome_twoCpus
    (by decide +kernel) hrun⟩

/-- A queued vCPU that is migrated stays on the queue of its old CPU. -/
theorem migrated_vcpu_left_behind : ∃ h, AtHome twoCpus ∧ WellFormedQueues twoCpus ∧
    Along SchedOp.run SchedOp.Proper [.add 8192, .migrate 8192 1] twoCpus ∧
    (runOps SchedOp.run [.add 8192, .migrate 8192 1]).run twoCpus = some ((), h) ∧ ¬ AtHome h := by
  have hres : ((runOps SchedOp.run [.add 8192, .migrate 8192 1]).run twoCpus).any (fun p =>
      p.2.gCpuCount = 2 ∧ p.2.runqueue 0 = some [.entity 65536] ∧ p.2.runqueue 1 = some [] ∧
        ∃ u ∈ p.2.vcpus 8192, u.schedEntity = some 65536 ∧ u.home 2 = 1) = true := by decide +kernel
  obtain ⟨⟨⟨⟩, h⟩, hrun, hres⟩ := (Option.any_eq_true _ _).mp hres
  obtain ⟨hcpus, hqueue, hother, u, hu, he, hhome⟩ := of_decide_eq_true hres
  refine ⟨h, atHome_twoCpus, queues_twoCpus.wellFormed, by decide +kernel, hrun, fun hat => ?_⟩
  have hqueued : h.Queued 65536 := by
    refine ⟨0, ?_, _, hqueue, List.mem_singleton_self _⟩
    rw [hcpus]
    decide
  obtain ⟨nodes, hnodes, hmem⟩ := hat 8192 u 65536 hu he hqueued
  rw [hcpus, hhome] at hnodes
  have hnil : some ([] : List Node) = some nodes := hother.symm.trans hnodes
  cases hnil
  cases hmem

end NexusVM
