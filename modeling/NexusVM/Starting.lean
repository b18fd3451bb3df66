import NexusVM.Reclaiming

/-!
# The first start of a VM

`vcpu_start` puts its vCPU on a runqueue by `scheduler_add_vcpu`, whose result it drops.

* `QueuedOnce`, `Queues.queuedOnce`: being on one queue, once;
* `SetsUp`, `FirstStart`, `VcpuStarts.firstStart`: the start of a vCPU that was never started;
* `StartsSeq.firstStarts`, `RollsBack.firstStarts`: the loop over vCPUs that were never started;
* **`vm_start_queued_iff`**: when a start that succeeds has queued all vCPUs.
-/

namespace NexusVM

open Prog

variable {n : ℕ} {q : Fin n → List Node} {h h' h₀ h₁ : Host} {a c d e : Addr} {v : Nexusvm}
  {u : Nexusvcpu} {cs : List Addr} {r : Result} {P : Addr → Prop}

/-! ## Being queued -/

/-- The entity is linked into one runqueue, once, and into no other. -/
def QueuedOnce (h : Host) (e : Addr) : Prop :=
  ∃ cpu < h.gCpuCount.toNat, (∃ nodes, h.runqueue cpu = some nodes ∧ nodes.count (.entity e) = 1) ∧
    ∀ cpu' < h.gCpuCount.toNat, cpu' ≠ cpu → ∃ nodes, h.runqueue cpu' = some nodes ∧ .entity e ∉ nodes

theorem Queues.queuedOnce (hq : Queues n h q) (hl : Layout P h) {i : Fin n} (he : .entity e ∈ q i) :
    QueuedOnce h e := by
  refine ⟨i, hq.cpus.symm ▸ i.2, ⟨q i, hq.runqueue hl i, ?_⟩, fun j hj hne => ?_⟩
  · exact List.count_eq_one_of_mem (List.nodup_cons.mp (hq.rings.ring i).nodup).2 he
  · rw [hq.cpus] at hj
    refine ⟨q ⟨j, hj⟩, hq.runqueue hl ⟨j, hj⟩, fun hej => ?_⟩
    have hij : i ≠ ⟨j, hj⟩ := fun hc => hne (congrArg Fin.val hc).symm
    exact hq.rings.disjoint i ⟨j, hj⟩ hij _ (List.mem_cons_of_mem _ he) (List.mem_cons_of_mem _ hej)

/-- What a start of the VM owes: each vCPU is queued once if it succeeds, and none is queued if it fails. -/
def FullyQueued (h : Host) (a : Addr) (r : Result) : Prop := ∃ v, h.vms a = some v ∧
  (r = .ok → ∀ c ∈ v.vcpus, ∃ e, h.entityOf c = some e ∧ QueuedOnce h e) ∧
  (r ≠ .ok → ∀ c ∈ v.vcpus, ∀ e, h.entityOf c = some e → ¬ h.Queued e)

/-! ## The start of a vCPU -/

/-- The set-up of a vCPU succeeds, after `j` others. -/
def SetsUp (h : Host) (c : Addr) (j : ℕ) : Prop := ∃ u, h.vcpus c = some u ∧
  u.canSetUp h.hv.cpuVendor = true ∧ h.vendor.setup (h.setups + j) = .ok

/-- The next `k` requests for an entity are served. -/
def Host.ServesEntities (h : Host) (k : ℕ) : Prop := h.mem.heap.Serves .entity 16 (1 * sizeofSchedEntity) k

instance (h : Host) (k : ℕ) : Decidable (h.ServesEntities k) := by
  unfold Host.ServesEntities
  infer_instance

theorem setsUp_zero (hu : h.vcpus c = some u) : SetsUp h c 0 ↔ h.setupResult u = .ok := by
  unfold SetsUp Host.setupResult
  rw [Nat.add_zero]
  by_cases hcan : u.canSetUp h.hv.cpuVendor = true
  · rw [if_pos hcan]
    exact ⟨fun ⟨_, _, _, hok⟩ => hok, fun hok => ⟨u, hu, hcan, hok⟩⟩
  · rw [if_neg hcan]
    refine iff_of_false ?_ ?_
    · rintro ⟨w, hw, hcan', -⟩
      obtain rfl := Option.some.inj (hu.symm.trans hw)
      exact hcan hcan'
    · split_ifs <;> simp

/-- The start of a vCPU that was never started: it is set up, and gets an entity if the request is served. -/
structure FirstStart (c : Addr) (h h' : Host) : Prop where
  setsUp : SetsUp h c 0
  setups : h'.setups = h.setups + 1
  vendor : h'.vendor = h.vendor
  served : ∀ k, h.ServesEntities (k + 1) ↔ h'.entityOf c ≠ none ∧ h'.ServesEntities k

theorem Adds.served (hu : h.vcpus c = some u) (hent : u.schedEntity = none) (ha : Adds c u h r h') (k : ℕ) :
    h.ServesEntities (k + 1) ↔ h'.entityOf c ≠ none ∧ h'.ServesEntities k := by
  cases ha with
  | again he => simp [hent] at he
  | noMemory _ hno =>
    have hnone : h.refuse.entityOf c = none := (entityOf_some hu).trans hent
    refine iff_of_false ?_ fun hc => hc.1 hnone
    rintro ⟨e, he, hf, -⟩
    exact hno ⟨e, he, hf, trivial⟩
  | @fresh e vmId _ hf he =>
    have hown : ((h.giveEntity c e u vmId).enqueue e (u.home h.gCpuCount).toNat).entityOf c = some e :=
      entityOf_giveEntity
    rw [hown]
    constructor
    · rintro ⟨e', he', -, hs⟩
      rw [he] at he'
      cases he'
      exact ⟨Option.some_ne_none e, hs⟩
    · rintro ⟨-, hs⟩
      exact ⟨e, he, hf, hs⟩

theorem VcpuStarts.firstStart (hu : h.vcpus c = some u) (hun : u.Untouched) (hs : VcpuStarts c u h r h') :
    r = .ok ∧ FirstStart c h h' ∨ r ≠ .ok ∧ ¬ SetsUp h c 0 := by
  obtain ⟨hent, hinit, hrun⟩ := hun
  cases hs with
  | running hc => exact absurd (hc.symm.trans hrun) (by simp)
  | failed _ _ hne => exact .inr ⟨hne, fun hc => hne ((setsUp_zero hu).mp hc)⟩
  | added _ hok ha =>
    have hsets : SetsUp h c 0 := (setsUp_zero hu).mpr (hok.resolve_left (by simp [hinit]))
    obtain ⟨w, hw, hcan, -⟩ := id hsets
    obtain rfl := Option.some.inj (hu.symm.trans hw)
    have hbefore : h.beforeAdd c u = (h.afterSetup c u).setVcpu c (some (h.startedVcpu u)) := by
      simp [Host.beforeAdd, hinit]
    have hent' : (h.startedVcpu u).schedEntity = none := by
      obtain ⟨id, hid⟩ := startedVcpu_eq h u
      rw [hid]
      exact hent
    have hsetups : (h.beforeAdd c u).setups = h.setups + 1 := by
      rw [hbefore]
      exact if_pos hcan
    have hserves : ∀ k, (h.beforeAdd c u).ServesEntities k ↔ h.ServesEntities k := fun k => by
      rw [hbefore]
      exact Iff.rfl
    have hvendor : (h.beforeAdd c u).vendor = h.vendor := by
      rw [hbefore]
      rfl
    refine .inl ⟨rfl, hsets, ha.setups.trans hsetups, ha.sameVms.statics.vendor.trans hvendor, fun k => ?_⟩
    rw [← hserves]
    exact ha.served beforeAdd_vcpus hent' k

/-! ## The loop -/

/-- The loop over vCPUs that were never started. -/
structure FirstStarts (cs : List Addr) (h₀ h : Host) : Prop where
  setsUp : ∀ j c, cs[j]? = some c → SetsUp h₀ c j
  setups : h.setups = h₀.setups + cs.length
  vendor : h.vendor = h₀.vendor
  served : ∀ k, h₀.ServesEntities (k + cs.length) ↔ (∀ c ∈ cs, h.entityOf c ≠ none) ∧ h.ServesEntities k

theorem StartsSeq.firstStarts (hs : StartsSeq h₀ cs h) (hnd : cs.Nodup)
    (hun : ∀ c ∈ cs, ∀ u, h₀.vcpus c = some u → u.Untouched) : FirstStarts cs h₀ h := by
  induction hs with
  | nil => exact ⟨by simp, rfl, rfl, by simp⟩
  | @snoc cs c u h h' hs hu hstart ih =>
    have hcs : c ∉ cs := notMem_of_nodup_append hnd
    have ih := ih (List.nodup_append.mp hnd).1 fun d hd => hun d (List.mem_append_left _ hd)
    have hu₀ := hu
    rw [hs.vcpus_of_notMem hcs] at hu₀
    obtain ⟨-, hfirst⟩ | ⟨hne, -⟩ := hstart.firstStart hu (hun c (by simp) u hu₀)
    swap
    · exact absurd rfl hne
    have hsame : ∀ d ∈ cs, h'.entityOf d = h.entityOf d := fun d hd => by
      obtain ⟨u', hvcpus, -⟩ := hstart.vcpus hu
      have hdc : d ≠ c := fun hc => hcs (hc ▸ hd)
      rw [Host.entityOf, hvcpus, Function.update_of_ne hdc, Host.entityOf]
    refine ⟨fun j d hj => ?_, ?_, hfirst.vendor.trans ih.vendor, fun k => ?_⟩
    · rcases Nat.lt_or_ge j cs.length with hlt | hge
      · rw [List.getElem?_append_left hlt] at hj
        exact ih.setsUp j d hj
      · rw [List.getElem?_append_right hge, List.getElem?_singleton] at hj
        split_ifs at hj with hzero
        cases hj
        obtain ⟨w, hw, hcan, hok⟩ := hfirst.setsUp
        obtain rfl := Option.some.inj (hu.symm.trans hw)
        rw [hs.same.hv] at hcan
        rw [ih.vendor, ih.setups, Nat.add_zero] at hok
        exact ⟨u, hu₀, hcan, (show j = cs.length by omega) ▸ hok⟩
    · rw [hfirst.setups, ih.setups, List.length_append, List.length_singleton, Nat.add_assoc]
    · rw [List.length_append, List.length_singleton, ← Nat.add_assoc, Nat.add_right_comm, ih.served,
        hfirst.served, ← and_assoc, List.forall_mem_append, List.forall_mem_singleton]
      refine and_congr_left fun _ => and_congr_left fun _ => forall₂_congr fun d hd => ?_
      rw [hsame d hd]

theorem RollsBack.not_setsUp (hb : RollsBack h₀ cs r h) (hnd : cs.Nodup)
    (hun : ∀ c ∈ cs, ∀ u, h₀.vcpus c = some u → u.Untouched) : ∃ j c, cs[j]? = some c ∧ ¬ SetsUp h₀ c j := by
  obtain ⟨rfl, hs, hu, hstart, hne⟩ := hb
  rename_i started rest c u h₁ h'
  have hnd' := List.nodup_append.mp hnd
  have hc : c ∉ started := fun hc => hnd'.2.2 c hc c List.mem_cons_self rfl
  have hfirst := hs.firstStarts hnd'.1 fun d hd => hun d (List.mem_append_left _ hd)
  have hu₀ := hu
  rw [hs.vcpus_of_notMem hc] at hu₀
  refine ⟨started.length, c, by simp, fun hsets => ?_⟩
  obtain ⟨hok, -⟩ | ⟨-, hno⟩ := hstart.firstStart hu (hun c (by simp) u hu₀)
  · exact hne hok
  · obtain ⟨w, hw, hcan, hok⟩ := hsets
    obtain rfl := Option.some.inj (hu₀.symm.trans hw)
    refine hno ⟨u, hu, ?_, ?_⟩
    · rw [hs.same.hv]
      exact hcan
    · rw [hfirst.vendor, hfirst.setups, Nat.add_zero]
      exact hok

/-! ## The start of a VM -/

/-- The VM is in the state that its creation has left it in. -/
structure FreshVm (h : Host) (a : Addr) (v : Nexusvm) : Prop where
  vm : h.vms a = some v
  state : v.state = .initialized
  untouched : ∀ c ∈ v.vcpus, ∀ u, h.vcpus c = some u → u.Untouched

theorem StartCall.entityOf (hs : StartCall a v h r h') (hne : r ≠ .ok) (he : h'.entityOf d = some e) :
    h.entityOf d = some e ∨ h.entities e = none := by
  obtain ⟨-, ⟨hok, -⟩ | ⟨-, ⟨hok, -⟩ | ⟨-, started, c, u, h₁, h₂, -, -, -, hall, hu, ht, hst, hstop⟩⟩⟩ := hs
  · exact absurd hok hne
  · exact absurd hok hne
  obtain ⟨u', hu', ⟨hok, -⟩ | ⟨-, -, -, hent, -⟩⟩ := hst
  · exact absurd hok hne
  rw [hstop.entityOf] at he
  refine hall.entityOf ?_
  by_cases hdc : d = c
  · subst hdc
    rw [entityOf_some hu', hent] at he
    rwa [entityOf_some hu]
  · rwa [Host.entityOf, ht.others d (by simpa using hdc)] at he

/-- **The first start of a VM** on well-formed queues: it returns, and queues the vCPUs exactly if one of them
cannot be set up, or all requests for entities are served. -/
theorem FreshVm.start (hf : FreshVm h a v) (hg : Good h) (hq : WellFormedQueues h) :
    ∃ r h', (vmStart (some a)).run h = some (r, h') ∧ (FullyQueued h' a r ↔
      (∃ j c, v.vcpus[j]? = some c ∧ ¬ SetsUp h c j) ∨ h.ServesEntities v.vcpus.length) := by
  obtain ⟨q, hq⟩ := wellFormed_iff.mp hq
  have hv := hf.vm
  have hnd := hg.layout.nodup a v trivial hv
  have hent : ∀ c ∈ v.vcpus, h.entityOf c = none := fun c hc => by
    obtain ⟨u, hu, -⟩ := hg.layout.vcpus a v trivial hv c hc
    exact (entityOf_some hu).trans (hf.untouched c hc u hu).schedEntity
  have hun : ∀ c ∈ v.vcpus, ∀ e, h.entityOf c = some e → ¬ h.Queued e := fun c hc e he => by
    rw [hent c hc] at he
    cases he
  obtain ⟨r, h', hrun, ⟨hg', hstart⟩, heff⟩ := wp_and_wlp (vmStart_spec hg hv) (vmStart_effect hg hv)
  refine ⟨r, h', hrun, ?_⟩
  cases heff with
  | idle hidle => exact absurd (.inl hf.state) hidle
  | @started h₁ _ hs =>
    have hfirst := hs.firstStarts hnd hf.untouched
    have hserved := hfirst.served 0
    have hself : (h₁.setVm a (some { v with state := .running })).vms a = some { v with state := .running } :=
      Host.setVm_self _ _ _
    rw [Nat.zero_add, and_iff_left (show h₁.ServesEntities 0 from trivial)] at hserved
    rw [or_iff_right (fun ⟨j, c, hj, hno⟩ => hno (hfirst.setsUp j c hj)), hserved]
    rcases hstart with hsame | hstart
    · rw [hsame, hv] at hself
      have hstate := congrArg Nexusvm.state (Option.some.inj hself)
      rw [hf.state] at hstate
      cases hstate
    obtain ⟨q', hq', -, henrolled, -⟩ := hstart.queues hg hq hv hun hg'
    constructor
    · rintro ⟨w, hw, hfull, -⟩ c hc
      obtain rfl := Option.some.inj (hself.symm.trans hw)
      obtain ⟨e, he, -⟩ := hfull rfl c hc
      exact Option.ne_none_iff_exists'.mpr ⟨e, he⟩
    · intro hall
      refine ⟨_, hself, fun _ c hc => ?_, fun hne => absurd rfl hne⟩
      obtain ⟨e, he⟩ := Option.ne_none_iff_exists'.mp (hall c hc)
      obtain ⟨i, hi⟩ := henrolled rfl c hc e he
      exact ⟨e, he, hq'.queuedOnce hg'.layout hi⟩
  | rolledBack _ hb =>
    have hne : r ≠ .ok := by
      cases hb
      assumption
    refine iff_of_true ⟨v, ?_, fun hok => absurd hok hne, fun _ c hc e he hqd => ?_⟩
      (.inl (hb.not_setsUp hnd hf.untouched))
    · rw [hb.same.vms]
      exact hv
    · rcases hstart with rfl | hstart
      · exact hun c hc e he hqd
      · obtain ⟨q', hq', -, -, hback⟩ := hstart.queues hg hq hv hun hg'
        obtain ⟨i, hi⟩ := (hq'.queued_iff hg'.layout).mp hqd
        have hold := (hback i e hi).resolve_right fun hok => hne hok.1
        rcases hstart.entityOf hne he with hown | hnew
        · rw [hent c hc] at hown
          cases hown
        · exact hq.exists_entity hold hnew

/-- **A started VM and the runqueues.** Let `vm` be fresh from a creation, in any state that calls of the
hypervisor lead to, with well-formed runqueues. Then `vm_start` returns, and every vCPU is queued once if it
succeeds and none if it fails, exactly if one of the vCPUs cannot be set up or the requests for their entities
are all served. -/
theorem vm_start_queued_iff {h₀ h₁ h₂ : Host} (hboot : Boot h₀) {pre : List HvOp}
    (hpre : (runOps HvOp.run pre).run h₀ = some ((), h₁)) {config : VmConfig} {vm : Addr}
    (hcreate : (vmCreate (some config)).run h₁ = some (.ok vm, h₂)) (hq : WellFormedQueues h₂) :
    ∃ v r h₃, h₂.vms vm = some v ∧ v.vcpus.length = config.vcpuCount.toNat ∧
      (vmStart (some vm)).run h₂ = some (r, h₃) ∧ (FullyQueued h₃ vm r ↔
        (∃ j c, v.vcpus[j]? = some c ∧ ¬ SetsUp h₂ c j) ∨ h₂.ServesEntities v.vcpus.length) := by
  have hi := hvInv_run hboot hpre
  obtain ⟨xs, hr⟩ := hi.listed
  obtain ⟨v, h, name, hid, hlen, -, -, hb, rfl⟩ :=
    vmCreate_spec hi.good.layout hr.first_ne config _ _ hcreate
  have hg : Good (h.linkVm vm v) := hi.good.create hb (by rw [hlen, hid.vcpuCount]; rfl)
  have hf : FreshVm (h.linkVm vm v) vm { v with next := h.hv.vms, state := .initialized } := by
    refine ⟨if_pos rfl, rfl, fun c hc u hu => ?_⟩
    obtain ⟨w, hw, hnew, -⟩ := hb.new c hc
    obtain rfl := Option.some.inj (hw.symm.trans hu)
    exact ⟨hnew.schedEntity, hnew.initialized, hnew.running⟩
  obtain ⟨r, h₃, hrun, hiff⟩ := hf.start hg hq
  exact ⟨_, r, h₃, hf.vm, hlen, hrun, hiff⟩

theorem wellFormed_create (hboot : Boot h₀) {config : VmConfig} {vm : Addr}
    (hcreate : (vmCreate (some config)).run h₀ = some (.ok vm, h)) : WellFormedQueues h := by
  have hrun : (runOps HvOp.run [.create config]).run h₀ = some ((), h) := by
    refine (runOps_cons _ _ _ _).mpr ⟨(), h, ?_, rfl⟩
    rw [← wp_eq_iff, HvOp.run, wp_discard]
    exact ⟨_, _, hcreate, rfl, rfl⟩
  have hC : Along HvOp.run StartsUnqueued [.create config] h₀ := ⟨trivial, fun _ _ _ => trivial⟩
  obtain ⟨q, hi⟩ := queueInv_run hboot hC hrun
  exact hi.queues.wellFormed

theorem vm_start_queued_iff_one_vcpu : ∃ h₂ v r h₃,
    (vmCreate (some { vcpuCount := 1 })).run (bootHost 1 .intel) = some (.ok 16384, h₂) ∧
    h₂.vms 16384 = some v ∧ (vmStart (some 16384)).run h₂ = some (r, h₃) ∧ (FullyQueued h₃ 16384 r ↔
      (∃ j c, v.vcpus[j]? = some c ∧ ¬ SetsUp h₂ c j) ∨ h₂.ServesEntities v.vcpus.length) := by
  have hvm : ((vmCreate (some { vcpuCount := 1 })).run (bootHost 1 .intel)).map
      (fun p => p.1.toOption) = some (some 16384) := by decide +kernel
  obtain ⟨⟨r, h₂⟩, hcreate, hr⟩ := Option.map_eq_some_iff.mp hvm
  obtain rfl : r = .ok 16384 := by
    cases r with
    | error e => cases hr
    | ok vm => cases hr; rfl
  have hboot := boot_bootHost (show (1 : UInt32) ≠ 0 by decide) .intel
  obtain ⟨v, r, h₃, hv, -, hrun, hiff⟩ := vm_start_queued_iff hboot (runOps_nil HvOp.run (bootHost 1 .intel))
    hcreate (wellFormed_create hboot hcreate)
  exact ⟨h₂, v, r, h₃, hcreate, hv, hrun, hiff⟩

/-- A host whose allocator serves ten requests. -/
def tenBlocksHost : Host :=
  let heap := { bumpHeap with answer := fun n => if n < 10 then some ((n + 1) * 16384) else none }
  { bootHost 1 .intel with mem := { bumpMem with heap := heap } }

/-- **A start without memory succeeds**: the vCPU runs, and it is on no queue. -/
theorem start_without_entity : ∃ h₂ h₃, Boot tenBlocksHost ∧
    (vmCreate (some { vcpuCount := 1 })).run tenBlocksHost = some (.ok 16384, h₂) ∧ WellFormedQueues h₂ ∧
    (vmStart (some 16384)).run h₂ = some (.ok, h₃) ∧ ¬ FullyQueued h₃ 16384 .ok := by
  have hboot : Boot tenBlocksHost :=
    ⟨rfl, rfl, by decide, rfl, rfl, rfl, rfl, rfl, rfl, rfl, rfl, fun _ _ => ⟨rfl, rfl⟩, List.Pairwise.nil⟩
  have hdec : (((vmCreate (some { vcpuCount := 1 })).run tenBlocksHost).any fun p =>
      p.1.toOption == some 16384 && ((vmStart (some 16384)).run p.2).any fun q => q.1 == .ok &&
        (q.2.vms 16384).any fun v => v.vcpus.any fun c => (q.2.entityOf c).isNone) = true := by decide +kernel
  obtain ⟨⟨r, h₂⟩, hcreate, hp⟩ := (Option.any_eq_true _ _).mp hdec
  rw [Bool.and_eq_true, beq_iff_eq] at hp
  obtain ⟨hr, hp⟩ := hp
  obtain rfl : r = .ok 16384 := by
    cases r with
    | error e => cases hr
    | ok vm => cases hr; rfl
  obtain ⟨⟨r, h₃⟩, hrun, hp⟩ := (Option.any_eq_true _ _).mp hp
  rw [Bool.and_eq_true, beq_iff_eq] at hp
  obtain ⟨rfl, hp⟩ := hp
  obtain ⟨v, hv, hp⟩ := (Option.any_eq_true _ _).mp hp
  obtain ⟨c, hc, hnone⟩ := List.any_eq_true.mp hp
  refine ⟨h₂, h₃, hboot, hcreate, wellFormed_create hboot hcreate, hrun, ?_⟩
  rintro ⟨w, hw, hfull, -⟩
  obtain rfl := Option.some.inj (hv.symm.trans hw)
  obtain ⟨e, he, -⟩ := hfull rfl c hc
  rw [he] at hnone
  cases hnone

end NexusVM
