import NexusVM.EptTrees
import NexusVM.Vm

/-!
# Objects and what the calls do to them

* `Layout`: objects lie in live blocks, and each scheduling entity belongs to one vCPU;
* `Touches`: a call changes nothing but some vCPUs and adds scheduling entities;
* `Enqueues`: the effect of adding a vCPU to its runqueue;
* `schedulerAddVcpu_spec`, **`vcpuStart_spec`**, **`vcpuStop_spec`**: what the calls on one vCPU do.
-/

namespace NexusVM

open Prog

/-! ## Layout -/

/-- What no call changes but initialisation and shutdown. -/
structure SameStatics (h h' : Host) : Prop where
  gInitialized : h'.gInitialized = h.gInitialized
  gSchedulerInitialized : h'.gSchedulerInitialized = h.gSchedulerInitialized
  gCpuCount : h'.gCpuCount = h.gCpuCount
  current : h'.current = h.current
  vendor : h'.vendor = h.vendor

theorem SameStatics.refl (h : Host) : SameStatics h h := ⟨rfl, rfl, rfl, rfl, rfl⟩

theorem SameStatics.trans {h h' h'' : Host} (s : SameStatics h h') (s' : SameStatics h' h'') :
    SameStatics h h'' :=
  ⟨s'.1.trans s.1, s'.2.trans s.2, s'.3.trans s.3, s'.4.trans s.4, s'.5.trans s.5⟩

/-- The objects of an initialised hypervisor; the VMs that satisfy `P` have their vCPUs and their
roots. -/
structure Layout (P : Addr → Prop) (h : Host) : Prop where
  initialized : h.gInitialized = true
  cpus : h.gCpuCount ≠ 0
  online : h.hv.onlineCpuCount = h.gCpuCount
  vmHeld : ∀ a v, h.vms a = some v → h.mem.heap.Holds .vm a
  vcpuHeld : ∀ c u, h.vcpus c = some u → h.mem.heap.Holds .vcpu c
  entityHeld : ∀ e s, h.entities e = some s → h.mem.heap.Holds .entity e
  count : ∀ a v, P a → h.vms a = some v → v.vcpus.length = v.vcpuCount.toNat
  nodup : ∀ a v, P a → h.vms a = some v → v.vcpus.Nodup
  vcpus : ∀ a v, P a → h.vms a = some v → ∀ c ∈ v.vcpus, ∃ u, h.vcpus c = some u ∧ u.vm = a
  root : ∀ a v r, P a → h.vms a = some v → v.eptRoot = some r → tablePage r ∈ h.mem.heap.live
  rootInj : ∀ a b v w r, P a → P b → h.vms a = some v → h.vms b = some w → v.eptRoot = some r →
    w.eptRoot = some r → a = b
  entity : ∀ c u e, h.vcpus c = some u → u.schedEntity = some e → ∃ s, h.entities e = some s
  inj : ∀ c c' u u' e, h.vcpus c = some u → h.vcpus c' = some u' → u.schedEntity = some e →
    u'.schedEntity = some e → c = c'

section Layout

variable {P : Addr → Prop} {h h' : Host}

/-- A VM has all its vCPUs. -/
structure HasVcpus (h : Host) (v : Nexusvm) : Prop where
  count : v.vcpus.length = v.vcpuCount.toNat
  vcpus : ∀ c ∈ v.vcpus, ∃ u, h.vcpus c = some u

theorem Layout.hasVcpus (hl : Layout P h) {a : Addr} {v : Nexusvm} (hP : P a)
    (hv : h.vms a = some v) : HasVcpus h v := by
  refine ⟨hl.count a v hP hv, fun c hc => ?_⟩
  obtain ⟨u, hu, -⟩ := hl.vcpus a v hP hv c hc
  exact ⟨u, hu⟩

theorem Layout.cpus_pos (hl : Layout P h) : 0 < h.gCpuCount.toNat :=
  UInt32.lt_iff_toNat_lt.mp (UInt32.pos_iff_ne_zero.mpr hl.cpus)

theorem Layout.same (hl : Layout P h) (hs : SameStatics h h')
    (hhv : h'.hv.onlineCpuCount = h.hv.onlineCpuCount)
    (hvms : h'.vms = h.vms) (hvcpus : h'.vcpus = h.vcpus) (hents : h'.entities = h.entities)
    (hlive : ∀ b ∈ h.mem.heap.live, b ∈ h'.mem.heap.live) : Layout P h' := by
  have hheld : ∀ {k a}, h.mem.heap.Holds k a → h'.mem.heap.Holds k a := fun ⟨b, hb, hk⟩ =>
    ⟨b, hlive b hb, hk⟩
  refine ⟨hs.gInitialized ▸ hl.initialized, hs.gCpuCount ▸ hl.cpus, ?_, ?_, ?_, ?_, ?_, ?_, ?_, ?_, ?_,
    ?_, ?_⟩
  · rw [hhv, hs.gCpuCount]; exact hl.online
  · rw [hvms]; exact fun a v hv => hheld (hl.vmHeld a v hv)
  · rw [hvcpus]; exact fun c u hu => hheld (hl.vcpuHeld c u hu)
  · rw [hents]; exact fun e s he => hheld (hl.entityHeld e s he)
  · rw [hvms]; exact hl.count
  · rw [hvms]; exact hl.nodup
  · rw [hvms, hvcpus]; exact hl.vcpus
  · rw [hvms]; exact fun a v r hP hv hr => hlive _ (hl.root a v r hP hv hr)
  · rw [hvms]; exact hl.rootInj
  · rw [hvcpus, hents]; exact hl.entity
  · rw [hvcpus]; exact hl.inj

theorem Layout.setVcpu (hl : Layout P h) {c : Addr} {u : Nexusvcpu} (u' : Nexusvcpu)
    (hu : h.vcpus c = some u) (hvm : u'.vm = u.vm) (hse : u'.schedEntity = u.schedEntity) :
    Layout P (h.setVcpu c (some u')) := by
  -- every vCPU of the new state has a predecessor with the same VM and entity
  have hold : ∀ d w, (h.setVcpu c (some u')).vcpus d = some w →
      ∃ w', h.vcpus d = some w' ∧ w'.vm = w.vm ∧ w'.schedEntity = w.schedEntity := by
    intro d w hd
    rw [Host.setVcpu_vcpus] at hd
    by_cases hdc : d = c
    · subst hdc
      rw [Function.update_self] at hd
      cases hd
      exact ⟨u, hu, hvm.symm, hse.symm⟩
    · rw [Function.update_of_ne hdc] at hd
      exact ⟨w, hd, rfl, rfl⟩
  refine { hl with
    vcpuHeld := fun d w hd => ?_
    vcpus := fun a v hP hv d hd => ?_
    entity := fun d w e hd he => ?_
    inj := fun d d' w w' e hd hd' he he' => ?_ }
  · obtain ⟨w', hw', -⟩ := hold d w hd
    exact hl.vcpuHeld d w' hw'
  · obtain ⟨w, hw, hwa⟩ := hl.vcpus a v hP hv d hd
    by_cases hdc : d = c
    · subst hdc
      rw [hw] at hu
      cases hu
      exact ⟨u', Function.update_self _ _ _, hvm.trans hwa⟩
    · exact ⟨w, (Function.update_of_ne hdc _ _).trans hw, hwa⟩
  · obtain ⟨w', hw', -, hs⟩ := hold d w hd
    exact hl.entity d w' e hw' (hs.trans he)
  · obtain ⟨x, hx, -, hs⟩ := hold d w hd
    obtain ⟨x', hx', -, hs'⟩ := hold d' w' hd'
    exact hl.inj d d' x x' e hx hx' (hs.trans he) (hs'.trans he')

theorem Layout.entity_fresh (hl : Layout P h) {align : ℕ} {b : Block BlockKind}
    (hf : h.mem.heap.Fits align b) : h.entities b.base = none := by
  by_contra hne
  obtain ⟨s, hs⟩ := Option.ne_none_iff_exists'.mp hne
  exact hf.base_ne (hl.entityHeld _ s hs) rfl

theorem Layout.newEntity (hl : Layout P h) {c e size : ℕ} {u : Nexusvcpu} (s : SchedEntity)
    (hu : h.vcpus c = some u) (hf : h.mem.heap.Fits 16 ⟨.entity, e, size⟩) :
    Layout P (((h.grant ⟨.entity, e, size⟩).setVcpu c
      (some { u with schedEntity := some e })).setEntity e (some s)) := by
  have hfresh : h.entities e = none := hl.entity_fresh hf
  have hheld : ∀ {k a}, h.mem.heap.Holds k a →
      (h.grant ⟨.entity, e, size⟩).mem.heap.Holds k a := fun hh => hh.grant _
  -- a vCPU of the new state is the one with the new entity, or it was there
  have hold : ∀ d w, Function.update h.vcpus c (some { u with schedEntity := some e }) d = some w →
      d = c ∧ w = { u with schedEntity := some e } ∨ d ≠ c ∧ h.vcpus d = some w := by
    intro d w hd
    by_cases hdc : d = c
    · subst hdc
      rw [Function.update_self] at hd
      exact .inl ⟨rfl, (Option.some.inj hd).symm⟩
    · rw [Function.update_of_ne hdc] at hd
      exact .inr ⟨hdc, hd⟩
  have hother : ∀ d w, h.vcpus d = some w → w.schedEntity ≠ some e := by
    intro d w hd hc
    obtain ⟨s', hs'⟩ := hl.entity d w e hd hc
    rw [hfresh] at hs'
    cases hs'
  refine { hl with
    vmHeld := fun a v hv => hheld (hl.vmHeld a v hv)
    vcpuHeld := fun d w hd => ?_
    entityHeld := fun x s' hx => ?_
    vcpus := fun a v hP hv d hd => ?_
    root := fun a v r hP hv hr => List.mem_cons_of_mem _ (hl.root a v r hP hv hr)
    entity := fun d w x hd hx => ?_
    inj := fun d d' w w' x hd hd' hx hx' => ?_ }
  · rcases hold d w hd with ⟨rfl, rfl⟩ | ⟨-, hd⟩
    · exact hheld (hl.vcpuHeld d u hu)
    · exact hheld (hl.vcpuHeld d w hd)
  · by_cases hxe : x = e
    · subst hxe
      exact Heap.holds_grant_self _ _
    · exact hheld (hl.entityHeld x s' ((Function.update_of_ne hxe _ _).symm.trans hx))
  · obtain ⟨w, hw, hwa⟩ := hl.vcpus a v hP hv d hd
    by_cases hdc : d = c
    · subst hdc
      rw [hw] at hu
      cases hu
      exact ⟨_, Function.update_self _ _ _, hwa⟩
    · exact ⟨w, (Function.update_of_ne hdc _ _).trans hw, hwa⟩
  · by_cases hxe : x = e
    · subst hxe
      exact ⟨s, Function.update_self _ _ _⟩
    · rcases hold d w hd with ⟨rfl, rfl⟩ | ⟨-, hd⟩
      · exact absurd (Option.some.inj hx).symm hxe
      · obtain ⟨s', hs'⟩ := hl.entity d w x hd hx
        exact ⟨s', (Function.update_of_ne hxe _ _).trans hs'⟩
  · rcases hold d w hd with ⟨rfl, rfl⟩ | ⟨-, hw⟩ <;> rcases hold d' w' hd' with ⟨rfl, rfl⟩ | ⟨-, hw'⟩
    · rfl
    · cases hx
      exact absurd hx' (hother d' w' hw')
    · cases hx'
      exact absurd hx (hother d w hw)
    · exact hl.inj d d' w w' x hw hw' hx hx'

end Layout

/-! ## Frames -/

/-- Nothing but the vCPUs `cs` changes, these stay with their VM and keep their entity, and
scheduling entities are only added. -/
structure Touches (cs : List Addr) (h h' : Host) : Prop where
  statics : SameStatics h h'
  hv : h'.hv = h.hv
  vms : h'.vms = h.vms
  others : ∀ c, c ∉ cs → h'.vcpus c = h.vcpus c
  owns : ∀ c u, h.vcpus c = some u → ∃ u', h'.vcpus c = some u' ∧ u'.vm = u.vm ∧
    (u.initialized → u'.initialized) ∧ ∀ e, u.schedEntity = some e → u'.schedEntity = some e
  entities : ∀ e s, h.entities e = some s → h'.entities e = some s
  fresh : ∀ e s, h'.entities e = some s →
    h.entities e = some s ∨ s.policy = .cfs ∧ s.vruntime = 0
  live : ∀ b ∈ h.mem.heap.live, b ∈ h'.mem.heap.live
  tables : h'.mem.tables = h.mem.tables

section Touches

variable {cs : List Addr} {h h' h'' : Host}

theorem Touches.refl (cs : List Addr) (h : Host) : Touches cs h h :=
  ⟨SameStatics.refl h, rfl, rfl, fun _ _ => rfl, fun _ u hu => ⟨u, hu, rfl, id, fun _ => id⟩,
    fun _ _ => id, fun _ _ => .inl, fun _ => id, rfl⟩

theorem Touches.trans (t : Touches cs h h') (t' : Touches cs h' h'') : Touches cs h h'' := by
  refine ⟨t.statics.trans t'.statics, t'.hv.trans t.hv, t'.vms.trans t.vms,
    fun c hc => (t'.others c hc).trans (t.others c hc), fun c u hu => ?_,
    fun e s he => t'.entities e s (t.entities e s he), fun e s he => ?_,
    fun b hb => t'.live b (t.live b hb), t'.tables.trans t.tables⟩
  · obtain ⟨u', hu', hvm, hi, hse⟩ := t.owns c u hu
    obtain ⟨u'', hu'', hvm', hi', hse'⟩ := t'.owns c u' hu'
    exact ⟨u'', hu'', hvm'.trans hvm, fun x => hi' (hi x), fun e he => hse' e (hse e he)⟩
  · rcases t'.fresh e s he with he' | he'
    · exact t.fresh e s he'
    · exact .inr he'

theorem Touches.mono {ds : List Addr} (t : Touches cs h h') (hsub : ∀ c ∈ cs, c ∈ ds) :
    Touches ds h h' :=
  { t with others := fun c hc => t.others c fun hcs => hc (hsub c hcs) }

theorem Touches.setVcpu {c : Addr} {u : Nexusvcpu} (u' : Nexusvcpu) (hu : h.vcpus c = some u)
    (hvm : u'.vm = u.vm) (hi : u.initialized → u'.initialized)
    (hse : ∀ e, u.schedEntity = some e → u'.schedEntity = some e) :
    Touches [c] h (h.setVcpu c (some u')) := by
  refine ⟨⟨rfl, rfl, rfl, rfl, rfl⟩, rfl, rfl, fun d hd => ?_, fun d w hw => ?_, fun _ _ => id,
    fun _ _ => .inl, fun _ => id, rfl⟩
  · exact Function.update_of_ne (fun hdc => hd (List.mem_singleton.mpr hdc)) _ _
  · by_cases hdc : d = c
    · subst hdc
      rw [hw] at hu
      cases hu
      exact ⟨u', Function.update_self _ _ _, hvm, hi, hse⟩
    · exact ⟨w, (Function.update_of_ne hdc _ _).trans hw, rfl, id, fun _ => id⟩

theorem Touches.setLinks (cs : List Addr) (h : Host) (l : DList.Links Node) :
    Touches cs h (h.setLinks l) :=
  { Touches.refl cs h with statics := ⟨rfl, rfl, rfl, rfl, rfl⟩ }

end Touches

/-! ## Scheduler calls -/

/-- The effect of adding a vCPU whose entity was `old` and is then `new`: its entity is linked in
at the end of a runqueue, or there was no memory for one. -/
def Enqueues (old new : Option Addr) (h h' : Host) : Prop :=
  (new = none ∧ h'.links = h.links ∧ h'.entities = h.entities) ∨
  ∃ e cpu, new = some e ∧ cpu < h.gCpuCount.toNat ∧ (old = some e ∨ h.entities e = none) ∧
    (∀ x, x ≠ e → h'.entities x = h.entities x) ∧ h'.entities e ≠ none ∧
    h'.links = listAddTail h.links (.entity e) (.head cpu)

section Calls

variable {P : Addr → Prop} {h : Host} {c : Addr} {u : Nexusvcpu}

theorem homeCpu_spec (hcpus : h.gCpuCount ≠ 0) (u : Nexusvcpu) :
    wp (homeCpu u) (fun cpu h' => h' = h ∧ cpu.toNat < h.gCpuCount.toNat) h := by
  have hpos : 0 < h.gCpuCount.toNat := UInt32.lt_iff_toNat_lt.mp (UInt32.pos_iff_ne_zero.mpr hcpus)
  rw [homeCpu, wp_bind, wp_get]
  refine wp_ite (fun _ => ?_) fun hlt => ?_
  · simp only [wp_bind, wp_require, wp_pure]
    refine ⟨hcpus, trivial, ?_⟩
    rw [UInt32.toNat_mod]
    exact Nat.mod_lt _ hpos
  · rw [wp_pure]
    exact ⟨rfl, UInt32.lt_iff_toNat_lt.mp (UInt32.not_le.mp hlt)⟩

theorem schedulerAddVcpu_spec (hl : Layout P h) (hu : h.vcpus c = some u)
    (hvm : h.vms u.vm ≠ none) : wp (schedulerAddVcpu (some c)) (fun _ h' =>
      Layout P h' ∧ Touches [c] h h' ∧ ∃ u', h'.vcpus c = some u' ∧ u'.running = u.running ∧
        u'.initialized = u.initialized ∧ Enqueues u.schedEntity u'.schedEntity h h') h := by
  obtain ⟨v, hv⟩ := Option.ne_none_iff_exists'.mp hvm
  simp only [schedulerAddVcpu, wp_bind, wp_getVcpu]
  refine ⟨u, hu, wp_mono (homeCpu_spec hl.cpus u) ?_⟩
  rintro cpu h' ⟨rfl, hcpu⟩
  split
  next e he =>
    simp only [wp_bind, wp_getLinks, wp_putLinks, wp_pure]
    obtain ⟨s, hs⟩ := hl.entity c u e hu he
    refine ⟨hl.same ⟨rfl, rfl, rfl, rfl, rfl⟩ rfl rfl rfl rfl fun _ => id,
      Touches.setLinks [c] h' _, u, hu, rfl, rfl, .inr ⟨e, cpu.toNat, he, hcpu, .inl he,
      fun _ _ => rfl, ?_, rfl⟩⟩
    rw [Host.setLinks_entities, hs]
    exact Option.some_ne_none s
  next he =>
    rw [wp_bind]
    refine wp_calloc (fun e hf => ?_) ?_
    · simp only [wp_bind, wp_getVm, wp_putVcpu, wp_putEntity, wp_getLinks, wp_putLinks, wp_pure]
      have hfresh : h'.entities e = none := hl.entity_fresh hf
      refine ⟨v, hv, (hl.newEntity _ hu hf).same ⟨rfl, rfl, rfl, rfl, rfl⟩ rfl rfl rfl rfl
        fun _ => id, ⟨⟨rfl, rfl, rfl, rfl, rfl⟩, rfl, rfl, fun d hd => ?_, fun d w hw => ?_,
        fun x s hx => ?_, fun x s hx => ?_, fun _ hb => List.mem_cons_of_mem _ hb, rfl⟩, _,
        Function.update_self _ _ _, rfl, rfl, .inr ⟨e, cpu.toNat, rfl, hcpu, .inr hfresh,
        fun x hx => Function.update_of_ne hx _ _, ?_, rfl⟩⟩
      · exact Function.update_of_ne (fun hdc => hd (List.mem_singleton.mpr hdc)) _ _
      · by_cases hdc : d = c
        · subst hdc
          rw [hw] at hu
          cases hu
          refine ⟨_, Function.update_self _ _ _, rfl, id, fun x hx => ?_⟩
          rw [he] at hx
          cases hx
        · exact ⟨w, (Function.update_of_ne hdc _ _).trans hw, rfl, id, fun _ => id⟩
      · refine (Function.update_of_ne ?_ _ _).trans hx
        rintro rfl
        rw [hfresh] at hx
        cases hx
      · by_cases hxe : x = e
        · subst hxe
          have hs := (Function.update_self x _ _).symm.trans hx
          cases hs
          exact .inr ⟨rfl, rfl⟩
        · exact .inl ((Function.update_of_ne hxe _ _).symm.trans hx)
      · simp
    · simp only [wp_pure]
      exact ⟨hl.same ⟨rfl, rfl, rfl, rfl, rfl⟩ rfl rfl rfl rfl fun _ => id,
        { Touches.refl [c] h' with statics := ⟨rfl, rfl, rfl, rfl, rfl⟩ }, u, hu, rfl, rfl,
        .inl ⟨he, rfl, rfl⟩⟩

/-- `vcpu_stop` clears the flag and takes the entity out of its queue. -/
def Host.stopVcpu (h : Host) (c : Addr) (u : Nexusvcpu) : Host :=
  (h.setVcpu c (some { u with running := false })).setLinks (match u.schedEntity with
    | none => h.links
    | some e => listDel h.links (.entity e))

/-- **`vcpu_stop` on any vCPU.** -/
theorem vcpuStop_spec (hl : Layout P h) (hu : h.vcpus c = some u) :
    wp (vcpuStop (some c)) (fun r h' => r = .ok ∧ h' = h.stopVcpu c u) h ∧
      Layout P (h.stopVcpu c u) ∧ Touches [c] h (h.stopVcpu c u) := by
  have hset : ∀ w, (h.setVcpu c w).vcpus c = w := fun w => Function.update_self _ _ _
  refine ⟨?_, (hl.setVcpu { u with running := false } hu rfl rfl).same ⟨rfl, rfl, rfl, rfl, rfl⟩
    rfl rfl rfl rfl fun _ => id,
    (Touches.setVcpu { u with running := false } hu rfl id fun _ => id).trans
      (Touches.setLinks _ _ _)⟩
  simp only [vcpuStop, wp_bind, wp_getVcpu, wp_putVcpu, schedulerRemoveVcpu]
  refine ⟨u, hu, _, hset _, ?_⟩
  cases he : u.schedEntity with
  | none =>
    simp only [wp_pure, Host.stopVcpu, he]
    exact ⟨trivial, rfl⟩
  | some e =>
    simp only [wp_bind]
    refine wp_mono (homeCpu_spec (h := h.setVcpu c _) hl.cpus _) ?_
    rintro cpu h' ⟨rfl, -⟩
    simp only [wp_getLinks, wp_putLinks, wp_pure, Host.stopVcpu, he]
    exact ⟨trivial, rfl⟩

theorem setupOutcome_spec (h : Host) : wp setupOutcome (fun _ h' => h' = h.countSetup) h := by
  simp only [setupOutcome, wp_bind, wp_get, wp_set, wp_pure]

theorem vcpuVendorSetup_spec (hl : Layout P h) (hu : h.vcpus c = some u) :
    wp (vcpuVendorSetup c) (fun _ h' => Layout P h' ∧ Touches [c] h h' ∧ h'.links = h.links ∧
      h'.entities = h.entities ∧ ∃ u', h'.vcpus c = some u' ∧ u'.vm = u.vm ∧
        u'.running = u.running ∧ u'.initialized = u.initialized ∧
        u'.schedEntity = u.schedEntity) h := by
  have hcount : ∀ {h₁}, Layout P h₁ → Layout P h₁.countSetup ∧ Touches [c] h₁ h₁.countSetup :=
    fun {h₁} hl₁ => ⟨hl₁.same ⟨rfl, rfl, rfl, rfl, rfl⟩ rfl rfl rfl rfl fun _ => id,
      { Touches.refl [c] h₁ with statics := ⟨rfl, rfl, rfl, rfl, rfl⟩ }⟩
  simp only [vcpuVendorSetup, wp_bind, wp_getHv]
  refine ⟨hl.initialized, ?_⟩
  split
  · simp only [vmxVcpuSetup, wp_bind, wp_getVcpu]
    refine ⟨u, hu, wp_ite (fun _ => ?_) fun _ => ?_⟩
    · rw [wp_pure]
      exact ⟨hl, Touches.refl _ _, rfl, rfl, u, hu, rfl, rfl, rfl, rfl⟩
    · simp only [wp_bind, wp_get, wp_putVcpu]
      refine wp_mono (setupOutcome_spec _) ?_
      rintro r h' rfl
      have hl' := hl.setVcpu
        { u with vcpuId := if h.vendor.vmxOnFails h.setups then 0xFFFFFFFF else 0 } hu rfl rfl
      have ht' := Touches.setVcpu
        { u with vcpuId := if h.vendor.vmxOnFails h.setups then 0xFFFFFFFF else 0 } hu rfl id
        fun _ => id
      exact ⟨(hcount hl').1, ht'.trans (hcount hl').2, rfl, rfl, _, Function.update_self _ _ _, rfl,
        rfl, rfl, rfl⟩
  · simp only [svmVcpuSetup, wp_bind, wp_getVcpu]
    refine ⟨u, hu, wp_ite (fun _ => ?_) fun _ => ?_⟩
    · rw [wp_pure]
      exact ⟨hl, Touches.refl _ _, rfl, rfl, u, hu, rfl, rfl, rfl, rfl⟩
    · refine wp_mono (setupOutcome_spec _) ?_
      rintro r h' rfl
      exact ⟨(hcount hl).1, (hcount hl).2, rfl, rfl, u, hu, rfl, rfl, rfl, rfl⟩
  · rw [wp_pure]
    exact ⟨hl, Touches.refl _ _, rfl, rfl, u, hu, rfl, rfl, rfl, rfl⟩

/-- What `vcpu_start` has done to a stopped vCPU, by its result. -/
def Starts (c : Addr) (u : Nexusvcpu) (h : Host) (r : Result) (h' : Host) : Prop :=
  ∃ u', h'.vcpus c = some u' ∧
    (r = .ok ∧ u'.running ∧ u'.initialized ∧ Enqueues u.schedEntity u'.schedEntity h h' ∨
      r ≠ .ok ∧ u'.running = false ∧ u.initialized = false ∧ u'.schedEntity = u.schedEntity ∧
        h'.links = h.links ∧ h'.entities = h.entities)

/-- **`vcpu_start` on a stopped vCPU.** -/
theorem vcpuStart_spec (hl : Layout P h) (hu : h.vcpus c = some u) (hvm : h.vms u.vm ≠ none)
    (hstopped : u.running = false) : wp (vcpuStart (some c))
      (fun r h' => Layout P h' ∧ Touches [c] h h' ∧ Starts c u h r h') h := by
  -- the end of the call: set the flag and queue the vCPU
  have hend : ∀ h₁ u₁, Layout P h₁ → Touches [c] h h₁ → h₁.links = h.links →
      h₁.entities = h.entities → h₁.vcpus c = some u₁ → u₁.vm = u.vm → u₁.initialized = true →
      u₁.schedEntity = u.schedEntity →
      wp (do
        putVcpu c { ← getVcpu c with running := true }
        let _ ← schedulerAddVcpu (some c)
        return Result.ok) (fun r h' => Layout P h' ∧ Touches [c] h h' ∧ Starts c u h r h') h₁ := by
    intro h₁ u₁ hl₁ ht₁ hlinks hents hu₁ hvm₁ hi₁ hse₁
    simp only [wp_bind, wp_getVcpu, wp_putVcpu]
    refine ⟨u₁, hu₁, ?_⟩
    have hl₂ := hl₁.setVcpu { u₁ with running := true } hu₁ rfl rfl
    have ht₂ := ht₁.trans (Touches.setVcpu { u₁ with running := true } hu₁ rfl id fun _ => id)
    have hvms : h₁.vms u₁.vm ≠ none := by rw [ht₁.vms, hvm₁]; exact hvm
    refine wp_mono (schedulerAddVcpu_spec hl₂ (Function.update_self _ _ _) hvms) ?_
    rintro _ h' ⟨hl', ht', u', hu', hrun, hini, henq⟩
    simp only [wp_pure]
    refine ⟨hl', ht₂.trans ht', u', hu',
      .inl ⟨rfl, hrun, hini.trans hi₁, ?_⟩⟩
    have hcpu : h₁.gCpuCount = h.gCpuCount := ht₁.statics.gCpuCount
    simp only [Enqueues, Host.setVcpu_links, Host.setVcpu_entities, Host.setVcpu_gCpuCount,
      hlinks, hents, hcpu, hse₁] at henq
    exact henq
  simp only [vcpuStart, wp_bind, wp_getVcpu]
  refine ⟨u, hu, ?_⟩
  simp only [hstopped, Bool.false_eq_true, if_false]
  by_cases hi : u.initialized
  · simp only [hi, Bool.not_true, Bool.false_eq_true, if_false]
    exact hend h u hl (Touches.refl _ _) rfl rfl hu rfl hi rfl
  · simp only [hi, Bool.not_false, if_true]
    rw [wp_bind]
    refine wp_mono (vcpuVendorSetup_spec hl hu) ?_
    rintro r h₁ ⟨hl₁, ht₁, hlinks, hents, u₁, hu₁, hvm₁, hrun₁, hini₁, hse₁⟩
    refine wp_ite (fun hr => ?_) fun hr => ?_
    · simp only [wp_pure]
      refine ⟨hl₁, ht₁, u₁, hu₁, .inr ⟨hr, hrun₁.trans hstopped, by simpa using hi, hse₁, hlinks,
        hents⟩⟩
    · simp only [wp_bind, wp_getVcpu, wp_putVcpu]
      refine ⟨u₁, hu₁, ?_⟩
      have hl₂ := hl₁.setVcpu { u₁ with initialized := true } hu₁ rfl rfl
      have ht₂ := ht₁.trans
        (Touches.setVcpu { u₁ with initialized := true } hu₁ rfl (fun _ => rfl) fun _ => id)
      have := hend _ { u₁ with initialized := true } hl₂ ht₂ hlinks hents
        (Function.update_self _ _ _) hvm₁ rfl hse₁
      simpa only [wp_bind, wp_getVcpu, wp_putVcpu] using this

end Calls

end NexusVM
