import NexusVM.Homes

/-!
# What the calls on a VM do to its vCPUs

The states after `vcpu_start`, `vcpu_stop` and the calls on a VM, field by field.

* `Host.setupResult`, `Host.afterSetup`: the set-up of a vCPU by the vendor module;
* `VcpuStarts`, `vcpuStart_starts`: the three ways through `vcpu_start`;
* `Host.stopVcpus`, `StartsSeq`: the loops over the vCPUs;
* `LifeEffect`, **`lifecycle_effect`**: the calls, with their results.
-/

namespace NexusVM

open Prog

variable {h h' h₀ h₁ h₂ : Host} {a c : Addr} {v : Nexusvm} {u : Nexusvcpu} {cs : List Addr} {r : Result}

/-! ## Setting up -/

/-- The vendor module has its regions. -/
def Nexusvcpu.canSetUp (u : Nexusvcpu) : CpuVendor → Bool
  | .intel => !(u.vmxOnRegion.isNone || u.vmxVmcsRegion.isNone)
  | .amd => !u.vmcb.isNone
  | .unknown => false

/-- The result of a set-up. -/
def Host.setupResult (h : Host) (u : Nexusvcpu) : Result :=
  if u.canSetUp h.hv.cpuVendor then h.vendor.setup h.setups
  else if h.hv.cpuVendor = .unknown then .errNotSupported else .errInvalidParam

/-- The vCPU after a set-up: `vmx_on` has written to its id. -/
def Host.setupVcpu (h : Host) (u : Nexusvcpu) : Nexusvcpu :=
  if h.hv.cpuVendor = .intel ∧ u.canSetUp .intel then
    { u with vcpuId := if h.vendor.vmxOnFails h.setups then 0xFFFFFFFF else 0 }
  else u

theorem setupVcpu_eq (h : Host) (u : Nexusvcpu) : ∃ id, h.setupVcpu u = { u with vcpuId := id } := by
  unfold Host.setupVcpu
  split
  · exact ⟨_, rfl⟩
  · exact ⟨u.vcpuId, rfl⟩

/-- The state after a set-up. -/
def Host.afterSetup (h : Host) (c : Addr) (u : Nexusvcpu) : Host :=
  { h.setVcpu c (some (h.setupVcpu u)) with
    setups := if u.canSetUp h.hv.cpuVendor then h.setups + 1 else h.setups }

theorem setVcpu_of_eq (hu : h.vcpus c = some u) : h.setVcpu c (some u) = h := by
  rw [Host.setVcpu, ← hu, Function.update_eq_self]

theorem vcpuVendorSetup_effect (hu : h.vcpus c = some u) :
    wlp (vcpuVendorSetup c) (fun r h' => r = h.setupResult u ∧ h' = h.afterSetup c u) h := by
  rw [vcpuVendorSetup, wlp_bind, wlp_getHv]
  intro _
  unfold Host.setupResult Host.afterSetup Host.setupVcpu
  cases hvendor : h.hv.cpuVendor with
  | intel =>
    dsimp only
    rw [vmxVcpuSetup, wlp_bind, wlp_getVcpu]
    rintro w hw
    obtain rfl : u = w := Option.some.inj (hu.symm.trans hw)
    refine wlp_ite (fun hnone => ?_) fun hsome => ?_
    · rw [wlp_pure]
      simp [Nexusvcpu.canSetUp, hnone, setVcpu_of_eq hu]
    · rw [Bool.not_eq_true] at hsome
      simp only [wlp_bind, wlp_get, wlp_putVcpu, setupOutcome, wlp_set, wlp_pure]
      simp [Nexusvcpu.canSetUp, hsome, Host.countSetup, Host.setVcpu]
  | amd =>
    dsimp only
    rw [svmVcpuSetup, wlp_bind, wlp_getVcpu]
    rintro w hw
    obtain rfl : u = w := Option.some.inj (hu.symm.trans hw)
    refine wlp_ite (fun hnone => ?_) fun hsome => ?_
    · rw [wlp_pure]
      simp [Nexusvcpu.canSetUp, hnone, setVcpu_of_eq hu]
    · rw [Bool.not_eq_true] at hsome
      simp only [wlp_get, wlp_bind, setupOutcome, wlp_set, wlp_pure]
      simp [Nexusvcpu.canSetUp, hsome, Host.countSetup, setVcpu_of_eq hu]
  | unknown =>
    dsimp only
    rw [wlp_pure]
    simp [Nexusvcpu.canSetUp, setVcpu_of_eq hu]

/-! ## Starting and stopping a vCPU -/

/-- The vCPU that `vcpu_start` puts on a runqueue. -/
def Host.startedVcpu (h : Host) (u : Nexusvcpu) : Nexusvcpu :=
  { (if u.initialized then u else h.setupVcpu u) with initialized := true, running := true }

/-- The state in which `vcpu_start` puts it there. -/
def Host.beforeAdd (h : Host) (c : Addr) (u : Nexusvcpu) : Host :=
  (if u.initialized then h else h.afterSetup c u).setVcpu c (some (h.startedVcpu u))

/-- What `vcpu_start` does. -/
inductive VcpuStarts (c : Addr) (u : Nexusvcpu) (h : Host) : Result → Host → Prop
  | running : u.running = true → VcpuStarts c u h .ok h
  | failed : u.running = false → u.initialized = false → h.setupResult u ≠ .ok →
      VcpuStarts c u h (h.setupResult u) (h.afterSetup c u)
  | added {r : Result} {h' : Host} : u.running = false →
      (u.initialized = true ∨ h.setupResult u = .ok) →
      Adds c (h.startedVcpu u) (h.beforeAdd c u) r h' → VcpuStarts c u h .ok h'

theorem beforeAdd_vcpus : (h.beforeAdd c u).vcpus c = some (h.startedVcpu u) := Host.setVcpu_self _ _ _

/-- **`vcpu_start`.** -/
theorem vcpuStart_starts (hu : h.vcpus c = some u) :
    wlp (vcpuStart (some c)) (VcpuStarts c u h) h := by
  rw [vcpuStart, wlp_bind, wlp_getVcpu]
  intro w hw
  obtain rfl : u = w := Option.some.inj (hu.symm.trans hw)
  refine wlp_ite (fun hrun => (wlp_pure _).mpr (.running hrun)) fun hrun => ?_
  rw [Bool.not_eq_true] at hrun
  -- both ways end with the vCPU on a runqueue
  have hadd : ∀ {h₁ : Host} {w : Nexusvcpu}, h₁.vcpus c = some w →
      h₁.setVcpu c (some { w with running := true }) = h.beforeAdd c u →
      { w with running := true } = h.startedVcpu u →
      (u.initialized = true ∨ h.setupResult u = .ok) → wlp (do
        putVcpu c { ← getVcpu c with running := true }
        let _ ← schedulerAddVcpu (some c)
        return Result.ok) (VcpuStarts c u h) h₁ := by
    intro h₁ w hw hbefore hstarted hok
    simp only [wlp_bind, wlp_getVcpu, wlp_putVcpu, wlp_pure]
    intro w' hw'
    obtain rfl : w = w' := Option.some.inj (hw.symm.trans hw')
    rw [hbefore]
    refine wlp_mono schedulerAddVcpu_adds ?_
    rintro r h' ⟨x, hx, hadds⟩
    obtain rfl : h.startedVcpu u = x := Option.some.inj (beforeAdd_vcpus.symm.trans hx)
    exact .added hrun hok hadds
  refine wlp_ite (fun hinit => ?_) fun hinit => ?_
  · rw [Bool.not_eq_true'] at hinit
    rw [wlp_bind]
    refine wlp_mono (vcpuVendorSetup_effect hu) ?_
    rintro _ _ ⟨rfl, rfl⟩
    refine wlp_ite (fun hne => (wlp_pure _).mpr (.failed hrun hinit hne)) fun hok => ?_
    have hself : (h.afterSetup c u).vcpus c = some (h.setupVcpu u) := Host.setVcpu_self h _ _
    rw [wlp_bind, wlp_getVcpu, hself]
    rintro _ ⟨⟩
    rw [wlp_bind, wlp_putVcpu]
    refine hadd (Host.setVcpu_self _ _ _) ?_ ?_ (.inr (not_not.mp hok))
    · simp [Host.beforeAdd, Host.startedVcpu, hinit]
    · simp [Host.startedVcpu, hinit]
  · rw [Bool.not_eq_true', Bool.not_eq_false] at hinit
    have hself : { u with running := true } = h.startedVcpu u := by
      simp [Host.startedVcpu, hinit]
    refine hadd hu ?_ hself (.inl hinit)
    rw [hself, Host.beforeAdd, if_pos hinit]

theorem Adds.vcpus (ha : Adds c u h r h') (hu : h.vcpus c = some u) :
    ∃ o, h'.vcpus = Function.update h.vcpus c (some { u with schedEntity := o }) := by
  cases ha with
  | again | noMemory =>
    refine ⟨u.schedEntity, ?_⟩
    change h.vcpus = _
    rw [← hu, Function.update_eq_self]
  | @fresh e => exact ⟨some e, rfl⟩

theorem VcpuStarts.vcpus (hs : VcpuStarts c u h r h') (hu : h.vcpus c = some u) :
    ∃ u', h'.vcpus = Function.update h.vcpus c (some u') ∧
      (u' = u ∨ u' = h.setupVcpu u ∨ ∃ o, u' = { h.startedVcpu u with schedEntity := o }) := by
  cases hs with
  | running => exact ⟨u, by rw [← hu, Function.update_eq_self], .inl rfl⟩
  | failed => exact ⟨_, rfl, .inr (.inl rfl)⟩
  | added _ _ ha =>
    obtain ⟨o, ho⟩ := ha.vcpus beforeAdd_vcpus
    refine ⟨_, ?_, .inr (.inr ⟨o, rfl⟩)⟩
    rw [ho, Host.beforeAdd]
    split_ifs <;> simp [Host.afterSetup]

theorem VcpuStarts.vcpus_ne {d : Addr} (hs : VcpuStarts c u h r h') (hu : h.vcpus c = some u)
    (hd : h.vcpus d ≠ none) : h'.vcpus d ≠ none := by
  obtain ⟨u', hvcpus, -⟩ := hs.vcpus hu
  rw [hvcpus]
  by_cases hdc : d = c
  · subst hdc
    simp
  · rwa [Function.update_of_ne hdc]

/-- What a start of a vCPU does not change. -/
structure SameVms (h h' : Host) : Prop where
  statics : SameStatics h h'
  vms : h'.vms = h.vms
  hv : h'.hv = h.hv
  tables : h'.mem.tables = h.mem.tables

theorem SameVms.refl (h : Host) : SameVms h h := ⟨SameStatics.refl h, rfl, rfl, rfl⟩

theorem SameVms.trans (hs : SameVms h h₁) (hs' : SameVms h₁ h₂) : SameVms h h₂ :=
  ⟨hs.statics.trans hs'.statics, hs'.vms.trans hs.vms, hs'.hv.trans hs.hv, hs'.tables.trans hs.tables⟩

theorem SameVms.setVcpu (h : Host) (c : Addr) (o : Option Nexusvcpu) : SameVms h (h.setVcpu c o) :=
  ⟨⟨rfl, rfl, rfl, rfl, rfl⟩, rfl, rfl, rfl⟩

theorem SameVms.enqueue (h : Host) (e : Addr) (i : ℕ) : SameVms h (h.enqueue e i) :=
  ⟨⟨rfl, rfl, rfl, rfl, rfl⟩, rfl, rfl, rfl⟩

theorem SameVms.afterSetup (h : Host) (c : Addr) (u : Nexusvcpu) : SameVms h (h.afterSetup c u) :=
  ⟨⟨rfl, rfl, rfl, rfl, rfl⟩, rfl, rfl, rfl⟩

theorem Adds.sameVms (ha : Adds c u h r h') : SameVms h h' := by
  cases ha with
  | again => exact SameVms.enqueue h _ _
  | noMemory => exact ⟨⟨rfl, rfl, rfl, rfl, rfl⟩, rfl, rfl, rfl⟩
  | @fresh e vmId =>
    have hgive : SameVms h (h.giveEntity c e u vmId) := ⟨⟨rfl, rfl, rfl, rfl, rfl⟩, rfl, rfl, rfl⟩
    exact hgive.trans (SameVms.enqueue _ e _)

theorem Adds.setups (ha : Adds c u h r h') : h'.setups = h.setups := by
  cases ha <;> simp [Host.enqueue, Host.giveEntity, Host.grant, Host.refuse]

theorem VcpuStarts.same (hs : VcpuStarts c u h r h') : SameVms h h' := by
  cases hs with
  | running => exact SameVms.refl h
  | failed => exact SameVms.afterSetup h c u
  | added _ _ ha =>
    have hbefore : SameVms h (h.beforeAdd c u) := by
      unfold Host.beforeAdd
      split_ifs
      · exact SameVms.setVcpu h c _
      · exact (SameVms.afterSetup h c u).trans (SameVms.setVcpu _ c _)
    exact hbefore.trans ha.sameVms

theorem Layout.afterSetup {P : Addr → Prop} (hl : Layout P h) (hu : h.vcpus c = some u) :
    Layout P (h.afterSetup c u) := by
  obtain ⟨id, hid⟩ := setupVcpu_eq h u
  have hl' := hl.setVcpu (h.setupVcpu u) hu (by rw [hid]) (by rw [hid])
  exact hl'.same ⟨rfl, rfl, rfl, rfl, rfl⟩ rfl rfl rfl rfl fun _ hb => hb

theorem startedVcpu_eq (h : Host) (u : Nexusvcpu) : ∃ id,
    h.startedVcpu u = { u with vcpuId := id, initialized := true, running := true } := by
  obtain ⟨id, hid⟩ := setupVcpu_eq h u
  unfold Host.startedVcpu
  split_ifs
  · exact ⟨u.vcpuId, rfl⟩
  · exact ⟨id, by rw [hid]⟩

theorem Layout.beforeAdd {P : Addr → Prop} (hl : Layout P h) (hu : h.vcpus c = some u) :
    Layout P (h.beforeAdd c u) := by
  obtain ⟨id, hid⟩ := startedVcpu_eq h u
  unfold Host.beforeAdd
  split_ifs with hinit
  · exact hl.setVcpu _ hu (by rw [hid]) (by rw [hid])
  · obtain ⟨id', hid'⟩ := setupVcpu_eq h u
    exact (hl.afterSetup hu).setVcpu _ (Host.setVcpu_self h _ _) (by rw [hid, hid']) (by rw [hid, hid'])

theorem VcpuStarts.layout {P : Addr → Prop} (hl : Layout P h) (hs : VcpuStarts c u h r h')
    (hu : h.vcpus c = some u) : Layout P h' := by
  cases hs with
  | running => exact hl
  | failed => exact hl.afterSetup hu
  | added _ _ ha => exact ha.layout (hl.beforeAdd hu) beforeAdd_vcpus

theorem beforeAdd_entities : (h.beforeAdd c u).entities = h.entities := by
  unfold Host.beforeAdd
  split_ifs <;> rfl

theorem VcpuStarts.entities {P : Addr → Prop} (hl : Layout P h) (hs : VcpuStarts c u h r h')
    (hu : h.vcpus c = some u) {e : Addr} {s : SchedEntity} (he : h.entities e = some s) :
    h'.entities e = some s := by
  cases hs with
  | running => exact he
  | failed => exact he
  | added _ _ ha =>
    rw [← beforeAdd_entities (c := c) (u := u)] at he
    exact ha.entities (hl.beforeAdd hu) he

theorem mapVcpus_vcpus_ne {f : Nexusvcpu → Nexusvcpu} (hc : h.vcpus c ≠ none) :
    (h.mapVcpus cs f).vcpus c ≠ none := by
  by_cases hmem : c ∈ cs
  · rw [Host.mapVcpus_vcpus_of_mem hmem]
    simpa using hc
  · rwa [Host.mapVcpus_vcpus_of_notMem hmem]

/-- The state after some vCPUs were stopped. -/
def Host.stopVcpus (h : Host) (cs : List Addr) : Host :=
  (h.mapVcpus cs Nexusvcpu.pause).setLinks (unlinkAll h.links (cs.filterMap h.entityOf))

theorem entityOf_stopVcpus : (h.stopVcpus cs).entityOf = h.entityOf := by
  funext d
  by_cases hd : d ∈ cs
  · rw [Host.entityOf, Host.stopVcpus, Host.setLinks_vcpus, Host.mapVcpus_vcpus_of_mem hd, Option.bind_map]
    rfl
  · rw [Host.entityOf, Host.stopVcpus, Host.setLinks_vcpus, Host.mapVcpus_vcpus_of_notMem hd]
    rfl

theorem vcpuStop_effect (hu : h.vcpus c = some u) :
    wlp (vcpuStop (some c)) (fun r h' => r = .ok ∧ h' = h.stopVcpu c u) h := by
  simp only [vcpuStop, wlp_bind, wlp_getVcpu, hu, wlp_putVcpu, schedulerRemoveVcpu]
  rintro _ ⟨⟩
  rw [Host.setVcpu_self]
  rintro _ ⟨⟩
  cases he : u.schedEntity with
  | none =>
    simp only [wlp_pure, Host.stopVcpu, he]
    exact ⟨trivial, rfl⟩
  | some e =>
    simp only [wlp_bind]
    refine wlp_mono (homeCpu_home _) ?_
    rintro cpu _ ⟨rfl, -⟩
    simp only [wlp_getLinks, wlp_putLinks, wlp_pure, Host.stopVcpu, he]
    exact ⟨trivial, rfl⟩

theorem stopVcpu_stopVcpus (cs : List Addr) (hu : h.vcpus c = some u) :
    ∃ w, (h.stopVcpus cs).vcpus c = some w ∧ (h.stopVcpus cs).stopVcpu c w = h.stopVcpus (cs ++ [c]) := by
  obtain ⟨w, hw, hpause, hse⟩ : ∃ w, (h.stopVcpus cs).vcpus c = some w ∧
      { w with running := false } = u.pause ∧ w.schedEntity = u.schedEntity := by
    by_cases hc : c ∈ cs
    · refine ⟨u.pause, ?_, rfl, rfl⟩
      rw [Host.stopVcpus, Host.setLinks_vcpus, Host.mapVcpus_vcpus_of_mem hc, hu]
      rfl
    · refine ⟨u, ?_, rfl, rfl⟩
      rw [Host.stopVcpus, Host.setLinks_vcpus, Host.mapVcpus_vcpus_of_notMem hc, hu]
  have hent : h.entityOf c = u.schedEntity := by
    rw [Host.entityOf, hu]
    rfl
  refine ⟨w, hw, ?_⟩
  rw [Host.stopVcpu, hpause, hse]
  simp only [Host.stopVcpus, Host.mapVcpus, Host.setVcpu, Host.setLinks, Host.mk.injEq, true_and, and_true,
    List.filterMap_append, unlinkAll_append]
  constructor
  · funext d
    by_cases hdc : d = c
    · subst hdc
      simp [hu]
    · simp [hdc]
  · cases he : u.schedEntity <;> simp [unlinkAll, hent, he]

/-- **The loop over the vCPUs of `vm_stop`**, and of a `vm_start` that failed. -/
theorem stopVcpus_effect (hcs : ∀ c ∈ cs, h.vcpus c ≠ none) :
    wlp (forEach (fun c => discard (vcpuStop (some c))) cs) (fun _ h' => h' = h.stopVcpus cs) h := by
  refine wlp_forEach _ (fun pre h₁ => h₁ = h.stopVcpus pre) cs ?_ ?_
  · rintro pre c post _ hpre rfl
    have hc : c ∈ cs := by rw [hpre]; exact List.mem_append_right _ List.mem_cons_self
    obtain ⟨u, hu⟩ := Option.ne_none_iff_exists'.mp (hcs c hc)
    obtain ⟨w, hw, hstop⟩ := stopVcpu_stopVcpus pre hu
    rw [wlp_discard]
    refine wlp_mono (vcpuStop_effect hw) ?_
    rintro _ _ ⟨-, rfl⟩
    exact hstop
  · simp [Host.stopVcpus, Host.mapVcpus, unlinkAll, Host.setLinks]

/-! ## The loop of `vm_start` -/

/-- The state after the vCPUs `cs` were started in turn, from `h₀` on. -/
inductive StartsSeq (h₀ : Host) : List Addr → Host → Prop
  | nil : StartsSeq h₀ [] h₀
  | snoc {cs : List Addr} {c : Addr} {u : Nexusvcpu} {h h' : Host} : StartsSeq h₀ cs h →
      h.vcpus c = some u → VcpuStarts c u h .ok h' → StartsSeq h₀ (cs ++ [c]) h'

theorem StartsSeq.eq_of_nil (hs : StartsSeq h₀ [] h) : h = h₀ := by
  generalize hl : [] = l at hs
  cases hs with
  | nil => rfl
  | snoc => simp at hl

theorem StartsSeq.cons_inv (hs : StartsSeq h₀ (c :: cs) h) : ∃ u h₁, h₀.vcpus c = some u ∧
    VcpuStarts c u h₀ .ok h₁ ∧ StartsSeq h₁ cs h := by
  generalize hl : c :: cs = l at hs
  induction hs generalizing cs with
  | nil => cases hl
  | @snoc ds d u h₁ h₂ hs hu hstart ih =>
    cases ds with
    | nil =>
      rw [List.nil_append, List.cons.injEq] at hl
      obtain ⟨rfl, rfl⟩ := hl
      obtain rfl := hs.eq_of_nil
      exact ⟨u, h₂, hu, hstart, .nil⟩
    | cons d' ds =>
      rw [List.cons_append, List.cons.injEq] at hl
      obtain ⟨rfl, rfl⟩ := hl
      obtain ⟨u', h', hu', hstart', hs'⟩ := ih rfl
      exact ⟨u', h', hu', hstart', hs'.snoc hu hstart⟩

theorem StartsSeq.layout {P : Addr → Prop} (hl : Layout P h₀) (hs : StartsSeq h₀ cs h) : Layout P h := by
  induction hs with
  | nil => exact hl
  | snoc _ hu hstart ih => exact hstart.layout ih hu

theorem StartsSeq.entities {P : Addr → Prop} (hl : Layout P h₀) (hs : StartsSeq h₀ cs h) {e : Addr}
    {s : SchedEntity} (he : h₀.entities e = some s) : h.entities e = some s := by
  induction hs with
  | nil => exact he
  | snoc hs hu hstart ih => exact hstart.entities (hs.layout hl) hu ih

theorem StartsSeq.vcpus_of_notMem (hs : StartsSeq h₀ cs h) {d : Addr} (hd : d ∉ cs) :
    h.vcpus d = h₀.vcpus d := by
  induction hs with
  | nil => rfl
  | snoc _ hu hstart ih =>
    rw [List.mem_append, not_or, List.mem_singleton] at hd
    obtain ⟨u', hvcpus, -⟩ := hstart.vcpus hu
    rw [hvcpus, Function.update_of_ne hd.2]
    exact ih hd.1

/-- The vCPUs `started` were started and stopped again, since the next one could not be started. -/
inductive RollsBack (h₀ : Host) (cs : List Addr) : Result → Host → Prop
  | mk {started rest : List Addr} {c : Addr} {u : Nexusvcpu} {h h' : Host} {r : Result} :
      cs = started ++ c :: rest → StartsSeq h₀ started h → h.vcpus c = some u →
      VcpuStarts c u h r h' → r ≠ .ok → RollsBack h₀ cs r (h'.stopVcpus started)

theorem StartsSeq.vcpus_ne {d : Addr} (hs : StartsSeq h₀ cs h) (hd : h₀.vcpus d ≠ none) :
    h.vcpus d ≠ none := by
  induction hs with
  | nil => exact hd
  | snoc _ hu hstart ih => exact hstart.vcpus_ne hu ih

/-- **The loop of `vm_start`.** -/
theorem startVcpus_effect {started : List Addr} (hcs : ∀ c ∈ started ++ cs, h₀.vcpus c ≠ none)
    (hs : StartsSeq h₀ started h) : wlp (startVcpus started cs) (fun r h' =>
      r = .ok ∧ StartsSeq h₀ (started ++ cs) h' ∨ RollsBack h₀ (started ++ cs) r h') h := by
  induction cs generalizing started h with
  | nil =>
    rw [startVcpus, wlp_pure, List.append_nil]
    exact .inl ⟨rfl, hs⟩
  | cons c cs ih =>
    have hc : h.vcpus c ≠ none := hs.vcpus_ne (hcs c (by simp))
    obtain ⟨u, hu⟩ := Option.ne_none_iff_exists'.mp hc
    rw [startVcpus, wlp_bind]
    refine wlp_mono (vcpuStart_starts hu) fun r h' hstart => ?_
    refine wlp_ite (fun hne => ?_) fun hok => ?_
    · rw [wlp_bind]
      refine wlp_mono (stopVcpus_effect fun d hd => ?_) ?_
      · exact hstart.vcpus_ne hu (hs.vcpus_ne (hcs d (by simp [hd])))
      rintro _ _ rfl
      rw [wlp_pure]
      exact .inr (.mk rfl hs hu hstart hne)
    · obtain rfl := not_not.mp hok
      have hnext := ih (by simpa using hcs) (hs.snoc hu hstart)
      simpa using hnext

/-! ## The calls -/

/-- The states in which a call does anything to a VM. -/
def LifecycleOp.Acts (v : Nexusvm) : LifecycleOp → Prop
  | .start => v.state = .initialized ∨ v.state = .paused ∨ v.state = .shutdown
  | .stop => v.state = .running
  | .pause => v.state = .running
  | .resume => v.state = .paused
  | .reset _ => True

/-- What a call on the VM at `a` does, with its result. -/
inductive LifeEffect (a : Addr) (v : Nexusvm) (h : Host) : LifecycleOp → Result → Host → Prop
  | idle {op : LifecycleOp} {r : Result} : ¬ op.Acts v → LifeEffect a v h op r h
  | started {h₁ : Host} : LifecycleOp.start.Acts v → StartsSeq h v.vcpus h₁ →
      LifeEffect a v h .start .ok (h₁.setVm a (some { v with state := .running }))
  | rolledBack {r : Result} {h₁ : Host} : LifecycleOp.start.Acts v → RollsBack h v.vcpus r h₁ →
      LifeEffect a v h .start r h₁
  | stopped : v.state = .running → LifeEffect a v h .stop .ok
      ((h.stopVcpus v.vcpus).setVm a (some { v with state := .shutdown }))
  | paused : v.state = .running → LifeEffect a v h .pause .ok
      ((h.mapVcpus v.vcpus Nexusvcpu.pause).setVm a (some { v with state := .paused }))
  | resumed : v.state = .paused → LifeEffect a v h .resume .ok
      ((h.mapVcpus v.vcpus Nexusvcpu.resume).setVm a (some { v with state := .running }))
  | reset {cold : Bool} {h₁ : Host} : h₁ = (if v.state = .running then h.stopVcpus v.vcpus else h) →
      LifeEffect a v h (.reset cold) .ok (((h₁.mapVcpus v.vcpus Nexusvcpu.reset).setMem
        (h.mem.resetRoot v.eptRoot cold)).setVm a (some { v with state := .shutdown }))

theorem StartsSeq.same (hs : StartsSeq h₀ cs h) : SameVms h₀ h := by
  induction hs with
  | nil => exact SameVms.refl h₀
  | snoc _ _ hstart ih => exact ih.trans hstart.same

theorem vmStart_effect (hg : Good h) (hv : h.vms a = some v) :
    wlp (vmStart (some a)) (fun r h' => LifeEffect a v h .start r h') h := by
  rw [vmStart, wlp_bind, wlp_getVm, hv]
  rintro _ ⟨⟩
  refine wlp_ite (fun hrun => (wlp_pure _).mpr (.idle ?_)) fun hrun => wlp_ite (fun hstate => ?_) fun hstate => ?_
  · rw [LifecycleOp.Acts, hrun]
    simp
  · rw [wlp_pure]
    refine .idle ?_
    rintro (hs | hs | hs)
    · exact hstate.1 hs
    · exact hstate.2.1 hs
    · exact hstate.2.2 hs
  have hacts : LifecycleOp.start.Acts v := by
    by_contra hc
    simp only [LifecycleOp.Acts, not_or] at hc
    exact hstate hc
  rw [wlp_bind]
  refine wlp_mono (startVcpus_effect (hg.vcpus_ne hv) .nil) ?_
  rintro r h₁ (⟨rfl, hs⟩ | hback)
  · rw [if_neg (by simp)]
    simp only [wlp_bind, wlp_getVm, hs.same.vms, hv, wlp_putVm, wlp_pure]
    rintro _ ⟨⟩
    exact .started hacts hs
  · have hne : r ≠ .ok := by
      cases hback
      assumption
    rw [if_pos hne, wlp_pure]
    exact .rolledBack hacts hback

theorem vmStop_effect (hg : Good h) (hv : h.vms a = some v) :
    wlp (vmStop (some a)) (fun r h' => LifeEffect a v h .stop r h') h := by
  rw [vmStop, wlp_bind, wlp_getVm, hv]
  rintro _ ⟨⟩
  refine wlp_ite (fun hne => (wlp_pure _).mpr (.idle hne)) fun hrun => ?_
  rw [wlp_bind]
  refine wlp_mono (stopVcpus_effect (hg.vcpus_ne hv)) ?_
  rintro _ _ rfl
  rw [wlp_bind, wlp_getVm]
  rintro w hw
  obtain rfl : v = w := Option.some.inj (hv.symm.trans hw)
  rw [wlp_bind, wlp_putVm, wlp_pure]
  exact .stopped (not_not.mp hrun)

theorem vmPause_effect (hg : Good h) (hv : h.vms a = some v) :
    wlp (vmPause (some a)) (fun r h' => LifeEffect a v h .pause r h') h := by
  rw [vmPause, wlp_bind, wlp_getVm, hv]
  rintro _ ⟨⟩
  refine wlp_ite (fun hne => (wlp_pure _).mpr (.idle hne)) fun hrun => ?_
  rw [wlp_bind]
  refine wlp_mono (pauseAll_spec (hg.layout.nodup a v trivial hv) (hg.vcpus_ne hv)).wlp ?_
  rintro _ _ rfl
  rw [wlp_bind, wlp_getVm]
  rintro w hw
  obtain rfl : v = w := Option.some.inj (hv.symm.trans hw)
  rw [wlp_bind, wlp_putVm, wlp_pure]
  exact .paused (not_not.mp hrun)

theorem vmResume_effect (hg : Good h) (hv : h.vms a = some v) :
    wlp (vmResume (some a)) (fun r h' => LifeEffect a v h .resume r h') h := by
  rw [vmResume, wlp_bind, wlp_getVm, hv]
  rintro _ ⟨⟩
  refine wlp_ite (fun hne => (wlp_pure _).mpr (.idle hne)) fun hrun => ?_
  rw [wlp_bind]
  refine wlp_mono (resumeAll_spec (hg.layout.nodup a v trivial hv) (hg.vcpus_ne hv)).wlp ?_
  rintro _ _ rfl
  rw [wlp_bind, wlp_getVm]
  rintro w hw
  obtain rfl : v = w := Option.some.inj (hv.symm.trans hw)
  rw [wlp_bind, wlp_putVm, wlp_pure]
  exact .resumed (not_not.mp hrun)

theorem stopRunning_effect (hg : Good h) (hv : h.vms a = some v) :
    wlp (Prog.when (v.state = .running) (discard (vmStop (some a)))) (fun _ h' =>
      ∃ s, h' = (if v.state = .running then h.stopVcpus v.vcpus else h).setVm a
        (some { v with state := s })) h := by
  rw [wlp_when]
  refine ⟨fun hrun => ?_, fun hrun => ?_⟩
  · rw [wlp_discard, if_pos hrun]
    refine wlp_mono (vmStop_effect hg hv) fun r h' he => ?_
    cases he with
    | idle hne => exact absurd hrun hne
    | stopped => exact ⟨.shutdown, rfl⟩
  · rw [if_neg hrun]
    exact ⟨v.state, by rw [Host.setVm, ← hv, Function.update_eq_self]⟩

theorem vmReset_effect (hg : Good h) (hv : h.vms a = some v) (cold : Bool) :
    wlp (vmReset (some a) cold) (fun r h' => LifeEffect a v h (.reset cold) r h') h := by
  rw [vmReset, wlp_bind, wlp_getVm, hv]
  rintro _ ⟨⟩
  rw [wlp_bind]
  refine wlp_mono (stopRunning_effect hg hv) ?_
  rintro _ _ ⟨s, rfl⟩
  generalize hh₁ : (if v.state = .running then h.stopVcpus v.vcpus else h) = h₁
  have hne : ∀ c ∈ v.vcpus, h₁.vcpus c ≠ none := by
    intro c hc
    rw [← hh₁]
    split_ifs
    · exact mapVcpus_vcpus_ne (hg.vcpus_ne hv c hc)
    · exact hg.vcpus_ne hv c hc
  have hmem : h₁.mem = h.mem := by
    rw [← hh₁]
    split_ifs <;> rfl
  rw [wlp_bind]
  refine wlp_mono (resetAll_spec (h := h₁.setVm a _) (hg.layout.nodup a v trivial hv) hne).wlp ?_
  rintro _ _ rfl
  rw [wlp_bind]
  refine wlp_mono (clearRoot_spec cold fun r hr => ?_).wlp ?_
  · change tablePage r ∈ h₁.mem.heap.live
    rw [hmem]
    exact hg.layout.root a v r trivial hv hr
  rintro _ _ rfl
  rw [wlp_bind, wlp_getVm]
  rintro w hw
  obtain rfl : { v with state := s } = w := Option.some.inj ((Host.setVm_self _ _ _).symm.trans hw)
  rw [wlp_bind, wlp_putVm, wlp_pure]
  have hend : LifeEffect a v h (.reset cold) .ok _ := .reset hh₁.symm
  rw [← hmem] at hend
  have hsame : ((((h₁.setVm a (some { v with state := s })).mapVcpus v.vcpus Nexusvcpu.reset).setMem
      (h₁.mem.resetRoot v.eptRoot cold)).setVm a (some { v with state := .shutdown })) =
      ((h₁.mapVcpus v.vcpus Nexusvcpu.reset).setMem (h₁.mem.resetRoot v.eptRoot cold)).setVm a
        (some { v with state := .shutdown }) := by
    simp only [Host.setVm, Host.mapVcpus, Host.setMem, Function.update_idem]
  exact hsame ▸ hend

/-- **Every call** on a VM. -/
theorem lifecycle_effect (hg : Good h) (hv : h.vms a = some v) (op : LifecycleOp) :
    wlp (op.run a) (fun r h' => LifeEffect a v h op r h') h := by
  cases op with
  | start => exact vmStart_effect hg hv
  | stop => exact vmStop_effect hg hv
  | pause => exact vmPause_effect hg hv
  | resume => exact vmResume_effect hg hv
  | reset cold => exact vmReset_effect hg hv cold

theorem RollsBack.same (hb : RollsBack h cs r h') : SameVms h h' := by
  obtain ⟨-, hs, -, hstart, -⟩ := hb
  exact (hs.same.trans hstart.same).trans ⟨⟨rfl, rfl, rfl, rfl, rfl⟩, rfl, rfl, rfl⟩

theorem LifeEffect.vms {op : LifecycleOp} (he : LifeEffect a v h op r h') (hv : h.vms a = some v) :
    ∃ s, h'.vms = Function.update h.vms a (some { v with state := s }) := by
  have hsame : Function.update h.vms a (some { v with state := v.state }) = h.vms := by
    rw [← hv, Function.update_eq_self]
  cases he with
  | idle => exact ⟨v.state, hsame.symm⟩
  | started _ hs => exact ⟨.running, by rw [Host.setVm_vms, hs.same.vms]⟩
  | rolledBack _ hb => exact ⟨v.state, by rw [hsame, hb.same.vms]⟩
  | stopped => exact ⟨.shutdown, rfl⟩
  | paused => exact ⟨.paused, rfl⟩
  | resumed => exact ⟨.running, rfl⟩
  | reset hh₁ =>
    refine ⟨.shutdown, ?_⟩
    rw [Host.setVm_vms, hh₁]
    split_ifs <;> rfl

theorem LifeEffect.hv {op : LifecycleOp} (he : LifeEffect a v h op r h') : h'.hv = h.hv := by
  cases he with
  | started _ hs => exact hs.same.hv
  | rolledBack _ hb => exact hb.same.hv
  | reset hh₁ =>
    rw [hh₁]
    split_ifs <;> simp [Host.stopVcpus, Host.mapVcpus]
  | _ => rfl

end NexusVM
