import NexusVM.Seclusion
import NexusVM.Starting

/-!
# Starts that fail

`vm_start` stops the vCPUs again that it has started when the next one cannot be set up.

* `Extends`, `StartsSeq.extends`, **`RollsBack.queues`**: on well-formed queues nothing is left of it;
* `FailsAt`, `FailsAt.eq_of_rollsBack`: the vCPU at which the loop gives up;
* `HostCall`, `HvOp.secludes`, `HvOp.keepsVm`: calls that are none on the VM;
* `StartSafe`, `LifeEffect.startSafe`, `StartInv.call`: what calls on the VM keep;
* **`vm_start_rolls_back`**: a start that fails is undone.
-/

namespace NexusVM

open Prog

variable {n : ℕ} {q : Fin n → List Node} {h h' h₀ h₁ : Host} {a b c d e : Addr} {v w : Nexusvm}
  {u : Nexusvcpu} {cs ds : List Addr} {r : Result} {P : Addr → Prop}

/-! ## The queues -/

/-- The queues `q'` are the queues `q`, with the nodes `xs` that were on none of them at their ends. -/
structure Extends (q q' : Fin n → List Node) (xs : List Node) : Prop where
  appended : ∀ i, ∃ ys, q' i = q i ++ ys ∧ ∀ x ∈ ys, x ∈ xs
  mem : ∀ x ∈ xs, ∃ i, x ∈ q' i
  outside : ∀ x ∈ xs, ∀ i, x ∉ q i

theorem Extends.refl (q : Fin n → List Node) : Extends q q [] :=
  ⟨fun i => ⟨[], by simp, by simp⟩, by simp, by simp⟩

theorem Extends.snoc {q' : Fin n → List Node} {xs : List Node} (he : Extends q q' xs) (i : Fin n) {x : Node}
    (hx : ∀ j, x ∉ q' j) : Extends q (Function.update q' i (q' i ++ [x])) (xs ++ [x]) := by
  have hnew : ∀ j, x ∉ q j := fun j hj => by
    obtain ⟨ys, hys, -⟩ := he.appended j
    exact hx j (hys ▸ List.mem_append_left _ hj)
  have hkeep : ∀ j y, y ∈ q' j → y ∈ Function.update q' i (q' i ++ [x]) j := fun j y hy => by
    by_cases hj : j = i
    · subst hj
      rw [Function.update_self]
      exact List.mem_append_left _ hy
    · rwa [Function.update_of_ne hj]
  refine ⟨fun j => ?_, fun y hy => ?_, List.forall_mem_append.mpr ⟨he.outside, by simpa using hnew⟩⟩
  · obtain ⟨ys, hys, hin⟩ := he.appended j
    by_cases hj : j = i
    · subst hj
      refine ⟨ys ++ [x], by rw [Function.update_self, hys, List.append_assoc], fun y hy => ?_⟩
      exact (List.mem_append.mp hy).elim (fun hy => List.mem_append_left _ (hin y hy))
        (List.mem_append_right _)
    · exact ⟨ys, by rw [Function.update_of_ne hj, hys], fun y hy => List.mem_append_left _ (hin y hy)⟩
  · rcases List.mem_append.mp hy with hy | hy
    · obtain ⟨j, hj⟩ := he.mem y hy
      exact ⟨j, hkeep j y hj⟩
    · refine ⟨i, ?_⟩
      rw [Function.update_self, List.mem_singleton.mp hy]
      simp

theorem Extends.filter {q' : Fin n → List Node} {xs : List Node} (he : Extends q q' xs) :
    (fun i => (q' i).filter fun a => a ∉ xs) = q := by
  funext i
  obtain ⟨ys, hys, hin⟩ := he.appended i
  have hnil : ys.filter (fun a => a ∉ xs) = [] :=
    List.filter_eq_nil_iff.mpr fun y hy => by simp [hin y hy]
  rw [hys, List.filter_append, hnil, List.append_nil, List.filter_eq_self]
  intro y hy
  exact decide_eq_true fun hc => he.outside y hc i hy

theorem Adds.extends {q' : Fin n → List Node} (ha : Adds c u h r h') (hl : Layout P h)
    (hu : h.vcpus c = some u) (hq : Queues n h q') (hds : c ∉ ds) (hext : Extends q q' (h.nodesOf ds))
    (hun : ∀ e, h.entityOf c = some e → ∀ i, .entity e ∉ q i) :
    ∃ q'', Queues n h' q'' ∧ Extends q q'' (h'.nodesOf (ds ++ [c])) := by
  have hhome : (u.home h.gCpuCount).toNat < n := by
    rw [← hq.cpus]
    exact u.home_lt hl.cpus
  have hent := entityOf_some hu
  cases ha with
  | @again e he =>
    have hown : h.entityOf c = some e := hent.trans he
    have hnot : ∀ i, .entity e ∉ q' i := by
      intro i hi
      obtain ⟨ys, hys, hin⟩ := hext.appended i
      rw [hys] at hi
      rcases List.mem_append.mp hi with hi | hi
      · exact hun e hown i hi
      · obtain ⟨d, hd, x, hdx, heq⟩ := mem_nodesOf.mp (hin _ hi)
        cases heq
        exact hds (hl.entityOf_inj hown hdx ▸ hd)
    obtain ⟨s, hs⟩ := hl.entity c u e hu he
    have hex : h.entities e ≠ none := by
      rw [hs]
      exact Option.some_ne_none s
    have hsnoc := hext.snoc ⟨_, hhome⟩ hnot
    have hq' : Queues n (h.enqueue e (u.home h.gCpuCount).toNat) _ :=
      hq.append hhome hnot rfl rfl (fun _ => id) hex
    refine ⟨_, hq', ?_⟩
    change Extends q _ (h.nodesOf (ds ++ [c]))
    rw [nodesOf_snoc _ hown]
    exact hsnoc
  | noMemory hnone =>
    refine ⟨q', hq.congr rfl rfl fun _ => id, ?_⟩
    change Extends q q' (h.nodesOf (ds ++ [c]))
    rw [nodesOf_snoc _ (hent.trans hnone)]
    simpa using hext
  | @fresh e vmId hnone hfit =>
    have hfresh : h.entities e = none := hl.entity_fresh hfit
    have hnot : ∀ i, .entity e ∉ q' i := fun i hi => hq.exists_entity hi hfresh
    have hold : ∀ x, h.entities x ≠ none → (h.giveEntity c e u vmId).entities x ≠ none := by
      intro x hx
      have hxe : x ≠ e := fun hxe => hx (hxe ▸ hfresh)
      exact fun hno => hx ((Function.update_of_ne hxe _ _).symm.trans hno)
    have hnew : (h.giveEntity c e u vmId).entities e ≠ none := fun hno =>
      Option.some_ne_none _ ((Function.update_self e _ _).symm.trans hno)
    have hsame : ∀ d ∈ ds, ((h.giveEntity c e u vmId).enqueue e (u.home h.gCpuCount).toNat).entityOf d =
        h.entityOf d := fun d hd => by
      have hdc : d ≠ c := fun heq => hds (heq ▸ hd)
      rw [Host.entityOf, Host.enqueue_vcpus, Host.giveEntity_vcpus, Function.update_of_ne hdc, Host.entityOf]
    have hsnoc := hext.snoc ⟨_, hhome⟩ hnot
    have hq' : Queues n ((h.giveEntity c e u vmId).enqueue e (u.home h.gCpuCount).toNat) _ :=
      hq.append hhome hnot rfl rfl hold hnew
    refine ⟨_, hq', ?_⟩
    rw [nodesOf_snoc _ entityOf_giveEntity, nodesOf_congr hsame]
    exact hsnoc

theorem VcpuStarts.extends {q' : Fin n → List Node} (hs : VcpuStarts c u h .ok h') (hl : Layout P h)
    (hu : h.vcpus c = some u) (hstopped : u.running = false) (hq : Queues n h q') (hds : c ∉ ds)
    (hext : Extends q q' (h.nodesOf ds)) (hun : ∀ e, h.entityOf c = some e → ∀ i, .entity e ∉ q i) :
    ∃ q'', Queues n h' q'' ∧ Extends q q'' (h'.nodesOf (ds ++ [c])) := by
  generalize hr : Result.ok = r at hs
  cases hs with
  | running hrun => simp [hstopped] at hrun
  | failed _ _ hne => exact absurd hr.symm hne
  | added _ _ ha =>
    have hown := entityOf_beforeAdd hu
    have hq' : Queues n (h.beforeAdd c u) q' := hq.congr gCpuCount_beforeAdd links_beforeAdd fun e he => by
      rwa [beforeAdd_entities]
    refine ha.extends (hl.beforeAdd hu) beforeAdd_vcpus hq' hds ?_ ?_
    · rwa [nodesOf_eq hown]
    · rwa [hown]

/-- **On well-formed queues** a loop over stopped vCPUs that are on none puts their entities at the ends. -/
theorem StartsSeq.extends (hs : StartsSeq h₀ ds h) (hl : Layout P h₀) (hnd : ds.Nodup) (hq : Queues n h₀ q)
    (hstopped : ∀ d ∈ ds, ∀ u, h₀.vcpus d = some u → u.running = false)
    (hun : ∀ d ∈ ds, ∀ e, h₀.entityOf d = some e → ∀ i, .entity e ∉ q i) :
    ∃ q', Queues n h q' ∧ Extends q q' (h.nodesOf ds) := by
  induction hs with
  | nil => exact ⟨q, hq, .refl q⟩
  | @snoc ds c u h h' hs hu hstart ih =>
    have hds : c ∉ ds := notMem_of_nodup_append hnd
    obtain ⟨q', hq', hext⟩ := ih (List.nodup_append.mp hnd).1
      (fun d hd => hstopped d (List.mem_append_left _ hd)) fun d hd => hun d (List.mem_append_left _ hd)
    have hu₀ := hu
    rw [hs.vcpus_of_notMem hds] at hu₀
    have hown : h.entityOf c = h₀.entityOf c := (entityOf_some hu).trans (entityOf_some hu₀).symm
    refine hstart.extends (hs.layout hl) hu (hstopped c (by simp) u hu₀) hq' hds hext ?_
    rw [hown]
    exact hun c (by simp)

/-- **A start that fails leaves the queues as they were.** -/
theorem RollsBack.queues (hb : RollsBack h₀ cs r h) (hl : Layout P h₀) (hnd : cs.Nodup) (hq : Queues n h₀ q)
    (hstopped : ∀ d ∈ cs, ∀ u, h₀.vcpus d = some u → u.running = false)
    (hun : ∀ d ∈ cs, ∀ e, h₀.entityOf d = some e → ∀ i, .entity e ∉ q i) : Queues n h q := by
  obtain ⟨hcs, hs, hu, hstart, hne⟩ := hb
  rename_i started rest c u h₁ h₂
  obtain ⟨-, -, rfl⟩ := hstart.eq_of_ne hne
  have hsub : ∀ d ∈ started, d ∈ cs := fun d hd => hcs ▸ List.mem_append_left _ hd
  have hnd' : started.Nodup := (List.nodup_append.mp (hcs ▸ hnd)).1
  obtain ⟨q', hq', hext⟩ := hs.extends hl hnd' hq (fun d hd => hstopped d (hsub d hd))
    fun d hd => hun d (hsub d hd)
  have hrings := hq'.rings.removeAll_filter
    ((entitiesOf_nodup (hs.layout hl) hnd').map Node.entity_injective) hext.mem
  rw [show (fun i => (q' i).filter fun a => a ∉ (started.filterMap h₁.entityOf).map Node.entity) = q from
    hext.filter, ← unlinkAll_eq] at hrings
  refine ⟨hq'.cpus, ?_, fun i x hx => ?_⟩
  · change DList.Rings (unlinkAll h₁.links (started.filterMap (h₁.afterSetup c u).entityOf)) _ _
    rwa [entityOf_afterSetup hu]
  · obtain ⟨e, rfl, he⟩ := hq.entities i x hx
    obtain ⟨s, hse⟩ := Option.ne_none_iff_exists'.mp he
    refine ⟨e, rfl, ?_⟩
    change h₁.entities e ≠ none
    rw [hs.entities hl hse]
    exact Option.some_ne_none s

/-! ## The vCPU that fails -/

/-- A vCPU that a start has to set up. -/
def Host.isUnset (h : Host) (c : Addr) : Bool := (h.vcpus c).any fun u => !u.initialized

/-- The result of the set-up of a vCPU in the loop of `vm_start`, after the vCPUs `pre`. -/
def Host.setupAfter (h : Host) (pre : List Addr) (u : Nexusvcpu) : Result :=
  { h with setups := h.setups + pre.countP h.isUnset }.setupResult u

/-- The first set-up to fail in the loop of `vm_start` is that of the `i`-th vCPU, with the error `r`. -/
structure FailsAt (h : Host) (v : Nexusvm) (i : ℕ) (r : Result) : Prop where
  failed : ∃ c u, v.vcpus[i]? = some c ∧ h.vcpus c = some u ∧ u.initialized = false ∧
    h.setupAfter (v.vcpus.take i) u = r
  ne : r ≠ .ok
  before : ∀ j < i, ∀ c, v.vcpus[j]? = some c → ∀ u, h.vcpus c = some u →
    u.initialized = true ∨ h.setupAfter (v.vcpus.take j) u = .ok

theorem canSetUp_of_ok (hok : h.setupResult u = .ok) : u.canSetUp h.hv.cpuVendor = true := by
  unfold Host.setupResult at hok
  split_ifs at hok with hcan
  exact hcan

theorem isUnset_of_some (hu : h.vcpus c = some u) : h.isUnset c = !u.initialized := by
  rw [Host.isUnset, hu, Option.any_some]

/-- What a loop that has started `cs` has set up. -/
structure LoopSetUps (h₀ : Host) (cs : List Addr) (h : Host) : Prop where
  setups : h.setups = h₀.setups + cs.countP h₀.isUnset
  vendor : h.vendor = h₀.vendor
  hv : h.hv = h₀.hv
  done : ∀ j c, cs[j]? = some c → ∀ u, h₀.vcpus c = some u →
    u.initialized = true ∨ h₀.setupAfter (cs.take j) u = .ok

theorem LoopSetUps.setupResult (hs : LoopSetUps h₀ cs h) (u : Nexusvcpu) :
    h.setupResult u = h₀.setupAfter cs u := by
  simp only [Host.setupAfter, Host.setupResult, hs.setups, hs.vendor, hs.hv]

theorem VcpuStarts.setups (hs : VcpuStarts c u h .ok h') (hstopped : u.running = false) :
    (u.initialized = true ∨ h.setupResult u = .ok) ∧
      h'.setups = h.setups + (if u.initialized then 0 else 1) ∧ h'.vendor = h.vendor := by
  generalize hr : Result.ok = r at hs
  cases hs with
  | running hrun => simp [hstopped] at hrun
  | failed _ _ hne => exact absurd hr.symm hne
  | added _ hok ha =>
    rw [ha.setups, ha.sameVms.statics.vendor]
    refine ⟨hok, ?_⟩
    unfold Host.beforeAdd
    split_ifs with hinit
    · exact ⟨rfl, rfl⟩
    · have hcan := canSetUp_of_ok (hok.resolve_left hinit)
      exact ⟨if_pos hcan, rfl⟩

theorem StartsSeq.setUps (hs : StartsSeq h₀ cs h) (hnd : cs.Nodup)
    (hstopped : ∀ d ∈ cs, ∀ u, h₀.vcpus d = some u → u.running = false) : LoopSetUps h₀ cs h := by
  induction hs with
  | nil => exact ⟨rfl, rfl, rfl, by simp⟩
  | @snoc cs c u h h' hs hu hstart ih =>
    have hcs : c ∉ cs := notMem_of_nodup_append hnd
    have ih := ih (List.nodup_append.mp hnd).1 fun d hd => hstopped d (List.mem_append_left _ hd)
    have hu₀ := hu
    rw [hs.vcpus_of_notMem hcs] at hu₀
    obtain ⟨hok, hsetups, hvendor⟩ := hstart.setups (hstopped c (by simp) u hu₀)
    refine ⟨?_, hvendor.trans ih.vendor, hstart.same.hv.trans ih.hv, fun j d hj w hw => ?_⟩
    · rw [hsetups, ih.setups, List.countP_append, List.countP_singleton, isUnset_of_some hu₀, Nat.add_assoc]
      cases u.initialized <;> rfl
    · rcases Nat.lt_or_ge j cs.length with hlt | hge
      · rw [List.getElem?_append_left hlt] at hj
        rw [List.take_append_of_le_length hlt.le]
        exact ih.done j d hj w hw
      · rw [List.getElem?_append_right hge, List.getElem?_singleton] at hj
        split_ifs at hj with hzero
        cases hj
        obtain rfl : u = w := Option.some.inj (hu₀.symm.trans hw)
        rw [show j = cs.length by omega, List.take_left, ← ih.setupResult]
        exact hok

theorem FailsAt.not_started {i : ℕ} (hf : FailsAt h₀ v i r) (hs : LoopSetUps h₀ v.vcpus h) : False := by
  obtain ⟨c, u, hc, hu, hinit, hr⟩ := hf.failed
  rcases hs.done i c hc u hu with hok | hok
  · simp [hinit] at hok
  · exact hf.ne (hr.symm.trans hok)

theorem FailsAt.eq_of_rollsBack {i : ℕ} {r' : Result} (hf : FailsAt h₀ v i r) (hb : RollsBack h₀ v.vcpus r' h)
    (hnd : v.vcpus.Nodup) (hstopped : ∀ d ∈ v.vcpus, ∀ u, h₀.vcpus d = some u → u.running = false) :
    r' = r := by
  obtain ⟨hcs, hs, hu, hstart, hne⟩ := hb
  rename_i started rest c u h₁ h₂
  rw [hcs] at hnd
  have hc : c ∉ started := fun hc => (List.nodup_append.mp hnd).2.2 c hc c List.mem_cons_self rfl
  have hset := hs.setUps (List.nodup_append.mp hnd).1 fun d hd =>
    hstopped d (hcs ▸ List.mem_append_left _ hd)
  obtain ⟨hinit, hr', -⟩ := hstart.eq_of_ne hne
  rw [hs.vcpus_of_notMem hc] at hu
  have htake : ∀ {j}, j ≤ started.length → v.vcpus.take j = started.take j := fun hj => by
    rw [hcs, List.take_append_of_le_length hj]
  have hget : v.vcpus[started.length]? = some c := by
    rw [hcs]
    simp
  have hhere : h₀.setupAfter (v.vcpus.take started.length) u = r' := by
    rw [htake le_rfl, List.take_length, hr', hset.setupResult]
  obtain ⟨d, w, hd, hw, hinit', hr⟩ := hf.failed
  rcases lt_trichotomy i started.length with hlt | rfl | hgt
  · -- a vCPU before it was set up
    have hd' := hd
    rw [hcs, List.getElem?_append_left hlt] at hd'
    rcases hset.done i d hd' w hw with hok | hok
    · simp [hinit'] at hok
    · rw [← htake hlt.le, hr] at hok
      exact absurd hok hf.ne
  · obtain rfl : c = d := Option.some.inj (hget.symm.trans hd)
    obtain rfl : u = w := Option.some.inj (hu.symm.trans hw)
    exact hhere.symm.trans hr
  · rcases hf.before _ hgt c hget u hu with hok | hok
    · simp [hinit] at hok
    · exact absurd (hhere.symm.trans hok) hne

/-! ## Calls -/

/-- A call of the hypervisor or of the scheduler. -/
inductive HostCall
  | hv (op : HvOp)
  | sched (op : SchedOp)

def HostCall.run : HostCall → HostM Unit
  | .hv op => op.run
  | .sched op => op.run

/-- The call neither destroys the VM at `a` nor is one of the scheduler on its vCPUs. -/
def HostCall.Spares (a : Addr) : HostCall → Host → Prop
  | .hv op, _ => op ≠ .destroy a
  | .sched op, h => ∀ v, h.vms a = some v → ∀ c ∈ v.vcpus, op.vcpu ≠ some c

/-- The VM keeps its vCPUs and its state, and what is initialized stays so. -/
structure KeepsVm (a : Addr) (v : Nexusvm) (h h' : Host) : Prop where
  vm : ∃ w, h'.vms a = some w ∧ w.vcpus = v.vcpus ∧ w.state = v.state
  vcpus : ∀ c ∈ v.vcpus, ∀ u', h'.vcpus c = some u' →
    ∃ u, h.vcpus c = some u ∧ (u.initialized = true → u'.initialized = true)

theorem KeepsVm.of_eq (hv : h.vms a = some v) (hvms : h'.vms = h.vms) (hvcpus : h'.vcpus = h.vcpus) :
    KeepsVm a v h h' :=
  ⟨⟨v, by rw [hvms, hv], rfl, rfl⟩, fun _ _ u hu => ⟨u, by rw [← hvcpus]; exact hu, id⟩⟩

theorem linkVm_keeps (hne : a ≠ b) (hv : h.vms a = some v) :
    ∃ x, (h.linkVm b w).vms a = some x ∧ x.vcpus = v.vcpus ∧ x.state = v.state := by
  simp only [Host.linkVm, if_neg hne]
  split_ifs
  · exact ⟨{ v with prev := some b }, by rw [hv]; rfl, rfl, rfl⟩
  · exact ⟨v, hv, rfl, rfl⟩

theorem unlinkVm_keeps (hv : h.vms a = some v) :
    ∃ x, (h.unlinkVm w).vms a = some x ∧ x.vcpus = v.vcpus ∧ x.state = v.state := by
  simp only [Host.unlinkVm]
  split_ifs
  · exact ⟨{ v with next := w.next }, by rw [hv]; rfl, rfl, rfl⟩
  · exact ⟨{ v with prev := w.prev }, by rw [hv]; rfl, rfl, rfl⟩
  · exact ⟨v, hv, rfl, rfl⟩

theorem lifecycle_run (hi : HvInv h) (op : LifecycleOp) (b : Addr) :
    wlp (HvOp.lifecycle op b).run (fun _ h' => HvInv h' ∧ ∃ w r s, h.vms b = some w ∧
      LifeEffect b w h op r h' ∧ VmStep b w s h h') h := by
  have hstep : ∀ w, h.vms b = some w → wlp (op.run b) (fun _ h' => HvInv h' ∧ ∃ w r s, h.vms b = some w ∧
      LifeEffect b w h op r h' ∧ VmStep b w s h h') h := by
    intro w hw
    refine wlp_mono (wlp_and (lifecycle_effect hi.good hw op) (lifecycle_spec hi.good hw op).wlp) ?_
    rintro r h' ⟨heff, hg', hstep⟩
    obtain ⟨s, hs⟩ : ∃ s, VmStep b w s h h' := by
      rcases hstep with rfl | hstep
      · have hself : h'.setVm b (some { w with state := w.state }) = h' := by
          rw [Host.setVm, ← hw, Function.update_eq_self]
        exact ⟨w.state, h', h'.mem, Touches.refl _ _, rfl, hself.symm⟩
      · exact hstep.vmStep hw
    exact ⟨hi.vmStep hw hg' hs, w, r, s, hw, heff, hs⟩
  rw [HvOp.run, wlp_discard]
  cases op <;> exact wlp_getVm_bind hstep

/-- **A call of the hypervisor** on other vCPUs. -/
theorem HvOp.secludes (hi : HvInv h) (op : HvOp) (hex : ∀ c ∈ cs, h.vcpus c ≠ none)
    (hother : ∀ b w, (op = .destroy b ∨ ∃ o, op = .lifecycle o b) → h.vms b = some w →
      ∀ d ∈ w.vcpus, d ∉ cs) : wlp op.run (fun _ h' => h.Secludes cs → h'.Secludes cs) h := by
  have hl := hi.good.layout
  cases op with
  | create config =>
    refine wlp_mono (hvOp_spec hi (.create config)) ?_
    rintro _ h' ⟨-, rfl | hs⟩ hsec
    · exact hsec
    cases hs with
    | createFailed => exact hsec
    | @create config vm v h₁ name _ _ _ _ hb =>
      refine hsec.congr ?_ ?_ ?_ fun c hc => ?_
      · rw [Host.linkVm, hb.shape]
      · rw [Host.linkVm, hb.shape]
      · rw [Host.linkVm, hb.shape]
      · obtain ⟨u, hu⟩ := Option.ne_none_iff_exists'.mp (hex c hc)
        have hu' : (h₁.linkVm vm v).vcpus c = some u := (hb.vcpus_of_some hl hu).2
        rw [entityOf_some hu', entityOf_some hu]
  | lifecycle op b =>
    refine wlp_mono (lifecycle_run hi op b) ?_
    rintro _ h' ⟨-, w, r, s, hw, heff, -⟩ hsec
    exact heff.secludes hl (hother b w (.inr ⟨op, rfl⟩) hw) hsec
  | destroy b =>
    refine wlp_mono (hvOp_spec hi (.destroy b)) ?_
    rintro _ h' ⟨-, rfl | hs⟩ hsec
    · exact hsec
    cases hs with
    | @destroy b w h' hw hd =>
      have hdis := hother b w (.inl rfl) hw
      have hstop : (h.stopVcpus w.vcpus).Secludes cs := hsec.stopVcpus hl hdis
      have hown : ∀ {g : Host}, g.entityOf = h.entityOf → ∀ c ∈ cs, h'.entityOf c = g.entityOf c :=
        fun hg c hc => by
          rw [Host.entityOf, hd.vcpus, if_neg fun hmem => hdis c hmem hc, hg]
          rfl
      rcases hd.links with ⟨-, hlinks⟩ | ⟨-, hlinks⟩
      · exact hsec.congr hlinks hd.statics.gCpuCount hd.entities (hown rfl)
      · exact hstop.congr hlinks hd.statics.gCpuCount hd.entities (hown entityOf_stopVcpus)
  | loadBalance cpu =>
    refine wlp_mono (schedulerLoadBalance_step hl.cpus_pos cpu) ?_
    rintro _ h' (rfl | hs) hsec
    · exact hsec
    · exact hs.secludes hl (fun _ _ hc => by cases hc) hsec

/-- **A call of the hypervisor** that is none on the VM. -/
theorem HvOp.keepsVm (hi : HvInv h) (op : HvOp) (hv : h.vms a = some v) (hne : op ≠ .destroy a)
    (hne' : ∀ o, op ≠ .lifecycle o a) : wlp op.run (fun _ h' => KeepsVm a v h h') h := by
  have hl := hi.good.layout
  cases op with
  | create config =>
    refine wlp_mono (hvOp_spec hi (.create config)) ?_
    rintro _ h' ⟨-, rfl | hs⟩
    · exact .of_eq hv rfl rfl
    cases hs with
    | createFailed => exact .of_eq hv rfl rfl
    | @create config vm x h₁ name _ _ _ _ hb =>
      have ha := hb.vm_ne hl hv
      refine ⟨linkVm_keeps ha ((hb.vms_eq ha).trans hv), fun c hc u' hu' => ?_⟩
      obtain ⟨u, hu, -⟩ := hl.vcpus a v trivial hv c hc
      have hsame : (h₁.linkVm vm x).vcpus c = some u := (hb.vcpus_of_some hl hu).2
      obtain rfl := Option.some.inj (hsame.symm.trans hu')
      exact ⟨u, hu, id⟩
  | lifecycle op b =>
    refine wlp_mono (lifecycle_run hi op b) ?_
    rintro _ _ ⟨-, w, r, s, hw, -, h₁, m, ht, -, rfl⟩
    have hab : a ≠ b := fun hab => hne' op (hab ▸ rfl)
    refine ⟨⟨v, ?_, rfl, rfl⟩, fun c hc u hu => ⟨u, ?_, id⟩⟩
    · rw [Host.setVm_vms, Function.update_of_ne hab, Host.setMem_vms, ht.vms, hv]
    · rw [← ht.others c fun hmem => hl.vcpus_disjoint hw hv hab c hc hmem]
      exact hu
  | destroy b =>
    refine wlp_mono (hvOp_spec hi (.destroy b)) ?_
    rintro _ h' ⟨-, rfl | hs⟩
    · exact .of_eq hv rfl rfl
    cases hs with
    | @destroy b w h' hw hd =>
      have hab : a ≠ b := fun hab => hne (hab ▸ rfl)
      refine ⟨?_, fun c _ u hu => ⟨u, (hd.vcpu hu).2, id⟩⟩
      rw [hd.vms, Function.update_of_ne hab]
      exact unlinkVm_keeps hv
  | loadBalance cpu =>
    refine wlp_mono (schedulerLoadBalance_step hl.cpus_pos cpu) ?_
    rintro _ h' (rfl | hs)
    · exact .of_eq hv rfl rfl
    · cases hs
      exact .of_eq hv rfl rfl

theorem HvInv.sched (hi : HvInv h) {op : SchedOp} (hs : SchedStep h op h') : HvInv h' := by
  have hsched := hs.schedules hi.good
  obtain ⟨xs, hr⟩ := hi.listed
  have hlist : Registry h' xs := hr.congr (by rw [hsched.hv]) (by rw [hsched.hv]) fun _ => by rw [hsched.vms]
  cases hs with
  | add _ ha =>
    cases ha with
    | again | noMemory => exact ⟨hsched.good, ⟨xs, hlist⟩, hi.scheduler, hi.idle, hi.entities⟩
    | @fresh e vmId =>
      refine ⟨hsched.good, ⟨xs, hlist⟩, hi.scheduler, hi.idle, fun x s hs => ?_⟩
      by_cases hxe : x = e
      · subst hxe
        have hnew := (Function.update_self x _ _).symm.trans hs
        cases hnew
        exact ⟨rfl, rfl⟩
      · exact hi.entities x s ((Function.update_of_ne hxe _ _).symm.trans hs)
  | remove | yield | wake | loadBalance | migrate =>
    exact ⟨hsched.good, ⟨xs, hlist⟩, hi.scheduler, hi.idle, hi.entities⟩

/-- **Every call keeps what every run keeps**, the pointers among others. -/
theorem hostCall_spec (hi : HvInv h) (call : HostCall) :
    wlp call.run (fun _ h' => HvInv h' ∧ (h.Secludes [] → h'.Secludes [])) h := by
  cases call with
  | hv op =>
    exact wlp_mono (wlp_and (hvOp_spec hi op) (op.secludes hi (by simp) (by simp)))
      fun _ _ hq => ⟨hq.1.1, hq.2⟩
  | sched op =>
    refine wlp_mono (schedOp_step hi.good.layout.cpus_pos op) ?_
    rintro _ h' (⟨rfl, -⟩ | hs)
    · exact ⟨hi, id⟩
    · exact ⟨hi.sched hs, hs.secludes hi.good.layout (by simp)⟩

theorem Boot.secludes (hb : Boot h) : h.Secludes [] := by
  rintro x (⟨i, hi, rfl⟩ | ⟨e, rfl, he, -⟩)
  · obtain ⟨hn, hp⟩ := hb.heads i hi
    rw [hn, hp]
    exact ⟨head_mem_foreign hi, head_mem_foreign hi⟩
  · rw [hb.entities] at he
    exact absurd rfl he

theorem hostCalls_run (hb : Boot h) {calls : List HostCall}
    (hrun : (runOps HostCall.run calls).run h = some ((), h')) : HvInv h' ∧ h'.Secludes [] :=
  wlp_runOps (C := fun _ _ => True) (I := fun h => HvInv h ∧ h.Secludes [])
    (fun call _ _ hi => wlp_mono (hostCall_spec hi.1 call) fun _ _ hq => ⟨hq.1, hq.2 hi.2⟩)
    (along_of_forall (fun _ _ _ => trivial) h) ⟨hb.hvInv, hb.secludes⟩ () h' hrun

/-! ## The VM -/

/-- All vCPUs of the VM are set up. -/
def AllSetUp (h : Host) (v : Nexusvm) : Prop := ∀ c ∈ v.vcpus, ∀ u, h.vcpus c = some u → u.initialized = true

/-- No start of the VM has succeeded yet, and nothing points to it, or all its vCPUs are set up. -/
def StartSafe (h : Host) (v : Nexusvm) : Prop :=
  (v.state = .initialized ∨ v.state = .shutdown) ∧ h.Secludes v.vcpus ∨ AllSetUp h v

/-- What calls on the VM at `a` keep. -/
structure StartInv (a : Addr) (h : Host) : Prop where
  hv : HvInv h
  vm : ∃ v, h.vms a = some v ∧ StartSafe h v

theorem KeepsVm.startSafe (hk : KeepsVm a v h h') (hs : StartSafe h v)
    (hsec : h.Secludes v.vcpus → h'.Secludes v.vcpus) : ∃ w, h'.vms a = some w ∧ StartSafe h' w := by
  obtain ⟨w, hw, hcs, hstate⟩ := hk.vm
  refine ⟨w, hw, ?_⟩
  rcases hs with ⟨hs, hsec₀⟩ | hall
  · refine .inl ⟨hstate ▸ hs, ?_⟩
    rw [hcs]
    exact hsec hsec₀
  · refine .inr fun c hc u' hu' => ?_
    rw [hcs] at hc
    obtain ⟨u, hu, hinit⟩ := hk.vcpus c hc u' hu'
    exact hinit (hall c hc u hu)

theorem not_running (hs : v.state = .initialized ∨ v.state = .shutdown) :
    v.state ≠ .running ∧ v.state ≠ .paused := by
  rcases hs with hs | hs <;> simp [hs]

theorem VmStep.allSetUp {s : VmState} (hs : VmStep a v s h h') (hex : ∀ c ∈ v.vcpus, h.vcpus c ≠ none)
    (hall : AllSetUp h v) : AllSetUp h' { v with state := s } := by
  obtain ⟨h₁, m, ht, -, rfl⟩ := hs
  intro c hc u' hu'
  obtain ⟨u, hu⟩ := Option.ne_none_iff_exists'.mp (hex c hc)
  obtain ⟨w, hw, -, hinit, -⟩ := ht.owns c u hu
  obtain rfl := Option.some.inj (hw.symm.trans hu')
  exact hinit (hall c hc u hu)

/-- **A lifecycle call on the VM itself.** -/
theorem LifeEffect.startSafe {op : LifecycleOp} {s : VmState} (he : LifeEffect a v h op r h') (hi : HvInv h)
    (hi' : HvInv h') (hv : h.vms a = some v) (hstep : VmStep a v s h h') (hs : StartSafe h v) :
    ∃ w, h'.vms a = some w ∧ StartSafe h' w := by
  have hl := hi.good.layout
  have hex : ∀ c ∈ v.vcpus, h.vcpus c ≠ none := fun c hc => by
    obtain ⟨u, hu, -⟩ := hl.vcpus a v trivial hv c hc
    simp [hu]
  rcases hs with ⟨hstate, hsec⟩ | hall
  swap
  · have hall' := hstep.allSetUp hex hall
    obtain ⟨h₁, m, -, -, rfl⟩ := hstep
    exact ⟨_, Host.setVm_self _ _ _, .inr hall'⟩
  obtain ⟨hrun, hpaused⟩ := not_running hstate
  have hstopped := (hi.good.coherent a v hv).stopped hrun
  cases he with
  | idle => exact ⟨v, hv, .inl ⟨hstate, hsec⟩⟩
  | @started h₁ =>
    have hself : (h₁.setVm a (some { v with state := .running })).vms a = some { v with state := .running } :=
      Host.setVm_self _ _ _
    refine ⟨_, hself, .inr fun c hc u hu => ?_⟩
    exact ((hi'.good.coherent a _ hself).running rfl c hc u hu).2
  | rolledBack _ hb =>
    refine ⟨v, by rw [hb.same.vms, hv], .inl ⟨hstate, ?_⟩⟩
    exact hb.secludes hl (hl.nodup a v trivial hv) hstopped hsec
  | stopped hc => exact absurd hc hrun
  | paused hc => exact absurd hc hrun
  | resumed hc => exact absurd hc hpaused
  | @reset cold h₁ hh₁ =>
    rw [if_neg hrun] at hh₁
    subst hh₁
    refine ⟨_, Host.setVm_self _ _ _, .inl ⟨.inr rfl, ?_⟩⟩
    have hreset : (h₁.mapVcpus v.vcpus Nexusvcpu.reset).Secludes v.vcpus := hsec.mapVcpus fun _ => rfl
    exact hreset

/-- **Every call keeps it.** -/
theorem StartInv.call (hi : StartInv a h) {call : HostCall} (hspares : call.Spares a h) :
    wlp call.run (fun _ h' => StartInv a h') h := by
  obtain ⟨hv, v, hvm, hs⟩ := hi
  have hl := hv.good.layout
  have hex : ∀ c ∈ v.vcpus, h.vcpus c ≠ none := fun c hc => by
    obtain ⟨u, hu, -⟩ := hl.vcpus a v trivial hvm c hc
    simp [hu]
  cases call with
  | sched op =>
    refine wlp_mono (schedOp_step hl.cpus_pos op) ?_
    rintro _ h' (⟨rfl, -⟩ | hstep)
    · exact ⟨hv, v, hvm, hs⟩
    have hsched := hstep.schedules hv.good
    have hk : KeepsVm a v h h' := by
      refine ⟨⟨v, by rw [hsched.vms, hvm], rfl, rfl⟩, fun c _ u' hu' => ?_⟩
      obtain ⟨u, hu, -, hinit⟩ := hstep.flags hu'
      exact ⟨u, hu, fun h => hinit.trans h⟩
    exact ⟨hv.sched hstep, hk.startSafe hs (hstep.secludes hl (hspares v hvm))⟩
  | hv op =>
    by_cases hown : ∃ o, op = .lifecycle o a
    · obtain ⟨o, rfl⟩ := hown
      refine wlp_mono (lifecycle_run hv o a) ?_
      rintro _ h' ⟨hv', w, r, s, hw, heff, hstep⟩
      obtain rfl : v = w := Option.some.inj (hvm.symm.trans hw)
      exact ⟨hv', heff.startSafe hv hv' hvm hstep hs⟩
    rw [not_exists] at hown
    have hother : ∀ b w, (op = .destroy b ∨ ∃ o, op = .lifecycle o b) → h.vms b = some w →
        ∀ d ∈ w.vcpus, d ∉ v.vcpus := by
      intro b w hop hw d hd hmem
      have hab : a ≠ b := by
        rintro rfl
        exact hop.elim hspares fun ⟨o, ho⟩ => hown o ho
      exact hl.vcpus_disjoint hw hvm hab d hmem hd
    refine wlp_mono (wlp_and (hvOp_spec hv op)
      (wlp_and (op.keepsVm hv hvm hspares hown) (op.secludes hv hex hother))) ?_
    rintro _ h' ⟨⟨hv', -⟩, hk, hsec⟩
    exact ⟨hv', hk.startSafe hs hsec⟩

theorem Host.Secludes.of_none (hsec : h.Secludes []) (hnone : ∀ c ∈ cs, h.entityOf c = none) :
    h.Secludes cs := by
  have hfor : h.Foreign cs = h.Foreign [] := by
    ext x
    cases x with
    | head i =>
      change (_ ∨ _) ↔ (_ ∨ _)
      simp only [reduceCtorEq, false_and, exists_false]
    | entity e =>
      rw [entity_mem_foreign, entity_mem_foreign]
      refine and_congr_right fun _ => iff_of_true (fun c hc => ?_) (by simp)
      rw [hnone c hc]
      simp
  unfold Host.Secludes
  rw [hfor]
  exact hsec

/-- **A VM that was just created.** -/
theorem startInv_create (hi : HvInv h₀) (hsec : h₀.Secludes []) {config : VmConfig}
    (hcreate : (vmCreate (some config)).run h₀ = some (.ok a, h)) : StartInv a h := by
  obtain ⟨xs, hr⟩ := hi.listed
  have hrun : ∀ {Q : Unit → Host → Prop}, wlp (HvOp.create config).run Q h₀ → Q () h := fun hq => by
    rw [HvOp.run, wlp_discard] at hq
    exact hq _ h hcreate
  have hi' := (hrun (hvOp_spec hi (.create config))).1
  have hsec' := hrun ((HvOp.create config).secludes hi (by simp) (by simp)) hsec
  obtain ⟨v, h₁, name, -, -, -, -, hb, rfl⟩ := vmCreate_spec hi.good.layout hr.first_ne config _ h hcreate
  refine ⟨hi', _, if_pos rfl, .inl ⟨.inl rfl, ?_⟩⟩
  have hnone : ∀ c ∈ v.vcpus, (h₁.linkVm a v).entityOf c = none := fun c hc => by
    obtain ⟨u, hu, hnew, -⟩ := hb.new c hc
    exact (entityOf_some (h := h₁.linkVm a v) hu).trans hnew.schedEntity
  exact hsec'.of_none hnone

/-- **A start that fails is undone.** Let `vm` be created in a state that a run has led to, and then be subject
to lifecycle calls alone, among calls on other VMs. Where the runqueues are well formed and the set-up of the
`i`-th vCPU is the first to fail, `vm_start` returns that error, and leaves the VM, with no running vCPU, and
the runqueues as they were. -/
theorem vm_start_rolls_back {h₀ h₁ h₂ h₃ : Host} (hboot : Boot h₀) {pre calls : List HostCall}
    (hpre : (runOps HostCall.run pre).run h₀ = some ((), h₁)) {config : VmConfig} {vm : Addr}
    (hcreate : (vmCreate (some config)).run h₁ = some (.ok vm, h₂))
    (hspares : Along HostCall.run (HostCall.Spares vm) calls h₂)
    (hcalls : (runOps HostCall.run calls).run h₂ = some ((), h₃)) (hq : WellFormedQueues h₃)
    {v : Nexusvm} (hv : h₃.vms vm = some v) {i : ℕ} {r : Result} (hf : FailsAt h₃ v i r) :
    ∃ h₄, (vmStart (some vm)).run h₃ = some (r, h₄) ∧ h₄.vms vm = some v ∧
      (∀ c ∈ v.vcpus, ∃ u, h₄.vcpus c = some u ∧ u.running = false) ∧
      ∀ cpu < h₃.gCpuCount.toNat, ∃ nodes, h₃.runqueue cpu = some nodes ∧ h₄.runqueue cpu = some nodes := by
  obtain ⟨hi₁, hsec⟩ := hostCalls_run hboot hpre
  obtain ⟨hi, w, hw, hs⟩ := wlp_runOps (I := StartInv vm) (fun call s hC hi => hi.call hC) hspares
    (startInv_create hi₁ hsec hcreate) () h₃ hcalls
  obtain rfl := Option.some.inj (hv.symm.trans hw)
  have hl := hi.good.layout
  have hnd := hl.nodup vm v trivial hv
  -- a vCPU is not set up, so no start has succeeded
  obtain ⟨hstate, hsec⟩ : (v.state = .initialized ∨ v.state = .shutdown) ∧ h₃.Secludes v.vcpus := by
    refine hs.resolve_right fun hall => ?_
    obtain ⟨c, u, hc, hu, hinit, -⟩ := hf.failed
    rw [hall c (List.mem_of_getElem? hc) u hu] at hinit
    cases hinit
  have hrun := (not_running hstate).1
  have hstopped := (hi.good.coherent vm v hv).stopped hrun
  obtain ⟨q, hq⟩ := wellFormed_iff.mp hq
  -- what is queued belongs to others
  have hun : ∀ d ∈ v.vcpus, ∀ e, h₃.entityOf d = some e → ∀ i, .entity e ∉ q i := by
    intro d hd e hde i hmem
    have hfor := (hq.rings.ring i).mem_of_closed hsec (head_mem_foreign i.2) _ hmem
    exact (entity_mem_foreign.mp hfor).2 d hd hde
  obtain ⟨r', h₄, hstart, ⟨hg, -⟩, heff⟩ := wp_and_wlp (vmStart_spec hi.good hv) (vmStart_effect hi.good hv)
  cases heff with
  | idle hidle => exact absurd (hstate.imp_right .inr) hidle
  | started _ hloop => exact (hf.not_started (hloop.setUps hnd hstopped)).elim
  | rolledBack _ hb =>
    have hvm : h₄.vms vm = some v := by rw [hb.same.vms, hv]
    obtain rfl := hf.eq_of_rollsBack hb hnd hstopped
    have hq' := hb.queues hl hnd hq hstopped hun
    refine ⟨h₄, hstart, hvm, fun c hc => ?_, fun cpu hcpu => ?_⟩
    · obtain ⟨u, hu, -⟩ := hg.layout.vcpus vm v trivial hvm c hc
      exact ⟨u, hu, (hg.coherent vm v hvm).stopped hrun c hc u hu⟩
    · exact ⟨q ⟨cpu, hcpu⟩, hq.runqueue hl ⟨cpu, hcpu⟩, hq'.runqueue hg.layout ⟨cpu, hcpu⟩⟩

/-- A host on which one set-up succeeds. -/
def oneSetupHost : Host :=
  let setup := fun n => if n = 0 then .ok else .errVmxFailed
  { bootHost 1 .intel with
    vendor := { setup := setup, vmxOnFails := fun _ => false, headPolicy := .fifo } }

theorem vm_start_rolls_back_second_vcpu : ∃ h₂ h₃ h₄ v, Boot oneSetupHost ∧
    (vmCreate (some { vcpuCount := 2 })).run oneSetupHost = some (.ok 16384, h₂) ∧
    (runOps HostCall.run [.hv (.lifecycle .start 16384)]).run h₂ = some ((), h₃) ∧
    FailsAt h₃ v 1 .errVmxFailed ∧ (vmStart (some 16384)).run h₃ = some (.errVmxFailed, h₄) ∧
    h₄.runqueue 0 = h₃.runqueue 0 := by
  have hboot : Boot oneSetupHost :=
    ⟨rfl, rfl, by decide, rfl, rfl, rfl, rfl, rfl, rfl, rfl, rfl, fun _ _ => ⟨rfl, rfl⟩, List.Pairwise.nil⟩
  have hdec : (((vmCreate (some { vcpuCount := 2 })).run oneSetupHost).any fun p =>
      p.1.toOption == some 16384 && ((LifecycleOp.run 16384 .start).run p.2).any fun q =>
        q.2.gCpuCount == 1 && (q.2.vms 16384).any fun v =>
          ((v.vcpus[0]?).any fun c => (q.2.vcpus c).any fun u => u.initialized) &&
          (v.vcpus[1]?).any fun c => (q.2.vcpus c).any fun u => !u.initialized &&
            q.2.setupAfter (v.vcpus.take 1) u == .errVmxFailed) = true := by decide +kernel
  have hunq : Along HvOp.run StartsUnqueued [.create { vcpuCount := 2 }, .lifecycle .start 16384] oneSetupHost := by
    decide +kernel
  obtain ⟨⟨r, h₂⟩, hcreate, hp⟩ := (Option.any_eq_true _ _).mp hdec
  rw [Bool.and_eq_true, beq_iff_eq] at hp
  obtain ⟨hr, hp⟩ := hp
  obtain rfl : r = .ok 16384 := by
    cases r with
    | error e => cases hr
    | ok vm => cases hr; rfl
  obtain ⟨⟨r, h₃⟩, hstart, hp⟩ := (Option.any_eq_true _ _).mp hp
  rw [Bool.and_eq_true, beq_iff_eq] at hp
  obtain ⟨hcpus, hp⟩ := hp
  obtain ⟨v, hv, hp⟩ := (Option.any_eq_true _ _).mp hp
  rw [Bool.and_eq_true] at hp
  obtain ⟨hfirst, hsecond⟩ := hp
  obtain ⟨c₀, hc₀, hp⟩ := (Option.any_eq_true _ _).mp hfirst
  obtain ⟨u₀, hu₀, hinit₀⟩ := (Option.any_eq_true _ _).mp hp
  obtain ⟨c, hc, hp⟩ := (Option.any_eq_true _ _).mp hsecond
  obtain ⟨u, hu, hp⟩ := (Option.any_eq_true _ _).mp hp
  rw [Bool.and_eq_true, Bool.not_eq_true', beq_iff_eq] at hp
  obtain ⟨hinit, hres⟩ := hp
  have hf : FailsAt h₃ v 1 .errVmxFailed := by
    refine ⟨⟨c, u, hc, hu, hinit, hres⟩, by simp, fun j hj d hd w hw => .inl ?_⟩
    obtain rfl : j = 0 := by omega
    obtain rfl := Option.some.inj (hc₀.symm.trans hd)
    obtain rfl := Option.some.inj (hu₀.symm.trans hw)
    exact hinit₀
  have hlife : (HvOp.lifecycle .start 16384).run.run h₂ = some ((), h₃) := by
    rw [← wp_eq_iff, HvOp.run, wp_discard]
    exact ⟨_, _, hstart, rfl, rfl⟩
  have hcalls : (runOps HostCall.run [.hv (.lifecycle .start 16384)]).run h₂ = some ((), h₃) :=
    (runOps_cons _ _ _ _).mpr ⟨(), h₃, hlife, rfl⟩
  have hops : (runOps HvOp.run [.create { vcpuCount := 2 }, .lifecycle .start 16384]).run oneSetupHost =
      some ((), h₃) := by
    refine (runOps_cons _ _ _ _).mpr ⟨(), h₂, ?_, (runOps_cons _ _ _ _).mpr ⟨(), h₃, hlife, rfl⟩⟩
    rw [← wp_eq_iff, HvOp.run, wp_discard]
    exact ⟨_, _, hcreate, rfl, rfl⟩
  obtain ⟨q, hi⟩ := queueInv_run hboot hunq hops
  have hspares : Along HostCall.run (HostCall.Spares 16384) [.hv (.lifecycle .start 16384)] h₂ :=
    ⟨by simp [HostCall.Spares], fun _ _ _ => trivial⟩
  obtain ⟨h₄, hrun, -, -, hqueues⟩ := vm_start_rolls_back hboot (runOps_nil HostCall.run oneSetupHost) hcreate
    hspares hcalls hi.queues.wellFormed hv hf
  obtain ⟨nodes, hold, hnew⟩ := hqueues 0 (by rw [hcpus]; decide)
  exact ⟨h₂, h₃, h₄, v, hboot, hcreate, hcalls, hf, hrun, hnew.trans hold.symm⟩

end NexusVM
