import NexusVM.Destruction

/-!
# The list of VMs

The list is linked through the records of the VMs, with `NULL` at both ends: a ring through the
sentinel `none`.

* `Good.failedCreate`, `Good.create`, `Good.destroy`: the objects after a creation, a destruction;
* `Host.vmLinks`, `Registry`: the pointers of the list, and that they link exactly the VMs;
* `Registry.create`, `Registry.destroy`: a new VM is first, a destroyed one is taken out;
* `vmGetById_spec`, `vmEnumerate_spec`, `hypervisorShutdown_spec`: the walks of the list;
* **`registry_refines_list`**: runs of creations and destructions refine a list of VMs.
-/

namespace NexusVM

open Prog

variable {h h' h₁ : Host} {a vm : Addr} {v : Nexusvm}

/-! ## Objects -/

/-- Every VM but the one at `a` was there before, with other list pointers at most. -/
def Relinks (a : Addr) (h h' : Host) : Prop :=
  ∀ b, b ≠ a → ∀ w, h'.vms b = some w → ∃ x, h.vms b = some x ∧
    w = { x with next := w.next, prev := w.prev }

theorem relinks_linkVm (h : Host) (vm : Addr) (v : Nexusvm) : Relinks vm h (h.linkVm vm v) := by
  intro b hb w hw
  simp only [Host.linkVm, if_neg hb] at hw
  split_ifs at hw
  · rw [Option.map_eq_some_iff] at hw
    obtain ⟨x, hx, rfl⟩ := hw
    exact ⟨x, hx, rfl⟩
  · exact ⟨w, hw, rfl⟩

theorem relinks_unlinkVm (h : Host) (a : Addr) (v : Nexusvm) : Relinks a h (h.unlinkVm v) := by
  intro b _ w hw
  simp only [Host.unlinkVm] at hw
  split_ifs at hw
  · rw [Option.map_eq_some_iff] at hw
    obtain ⟨x, hx, rfl⟩ := hw
    exact ⟨x, hx, rfl⟩
  · rw [Option.map_eq_some_iff] at hw
    obtain ⟨x, hx, rfl⟩ := hw
    exact ⟨x, hx, rfl⟩
  · exact ⟨w, hw, rfl⟩

theorem Good.failedCreate (hg : Good h) {m : PhysMem} {hv : Hypervisor} (ha : Allocates h.mem m)
    (hhv : hv = h.hv ∨ hv = h.hv.nextId) : Good ((h.setHv hv).setMem m) := by
  refine ⟨hg.layout.same ⟨rfl, rfl, rfl, rfl, rfl⟩ ?_ rfl rfl rfl ha.live, fun a v hv => ?_⟩
  · rcases hhv with rfl | rfl <;> rfl
  · have hc := hg.coherent a v hv
    exact ⟨hc.running, hc.stopped, hc.paused⟩

theorem Builds.vcpus_cases {cs : List Addr} (hb : Builds vm h v cs h₁) {c : Addr} {u : Nexusvcpu}
    (hu : h₁.vcpus c = some u) :
    (c ∈ cs ∧ NewVcpu h.mem vm c u ∧ h₁.mem.heap.Holds .vcpu c) ∨ (c ∉ cs ∧ h.vcpus c = some u) := by
  by_cases hc : c ∈ cs
  · obtain ⟨u', hu', hnew, hh⟩ := hb.new c hc
    rw [hu] at hu'
    cases hu'
    exact .inl ⟨hc, hnew, hh⟩
  · exact .inr ⟨hc, (hb.others c hc).symm.trans hu⟩

theorem Builds.vcpus_of_some {cs : List Addr} (hl : Layout (fun _ => True) h)
    (hb : Builds vm h v cs h₁) {c : Addr} {u : Nexusvcpu} (hu : h.vcpus c = some u) :
    c ∉ cs ∧ h₁.vcpus c = some u := by
  have hc : c ∉ cs := by
    intro hc
    obtain ⟨u', -, hnew, -⟩ := hb.new c hc
    obtain ⟨b, hbl, -, hbase⟩ := hl.vcpuHeld c u hu
    exact hnew.blocks (.vcpu, some c) (by simp [vcpuBlocks]) c rfl b hbl hbase
  exact ⟨hc, (hb.others c hc).trans hu⟩

theorem Builds.vm_ne {cs : List Addr} (hl : Layout (fun _ => True) h) (hb : Builds vm h v cs h₁)
    {b : Addr} {w : Nexusvm} (hw : h.vms b = some w) : b ≠ vm := by
  rintro rfl
  obtain ⟨c, hc, -, hbase⟩ := hl.vmHeld b w hw
  exact hb.fresh c hc hbase

theorem Builds.vms_eq {cs : List Addr} (hb : Builds vm h v cs h₁) {b : Addr} (hne : b ≠ vm) :
    h₁.vms b = h.vms b := by
  rw [hb.shape]
  exact Function.update_of_ne hne _ _

theorem Builds.old {cs : List Addr} (hb : Builds vm h v cs h₁) {b : Addr} {w : Nexusvm}
    (hne : b ≠ vm) (hw : (h₁.linkVm vm v).vms b = some w) :
    ∃ x, h.vms b = some x ∧ w = { x with next := w.next, prev := w.prev } := by
  obtain ⟨x, hx, hwx⟩ := relinks_linkVm h₁ vm v b hne w hw
  exact ⟨x, (hb.vms_eq hne).symm.trans hx, hwx⟩

/-- A VM of the list is the new one, or an old one that is linked. -/
theorem Builds.linked {cs : List Addr} (hb : Builds vm h v cs h₁) {b : Addr} {w : Nexusvm}
    (hw : (h₁.linkVm vm v).vms b = some w) :
    (b = vm ∧ w = { v with next := h₁.hv.vms, state := .initialized }) ∨
      ∃ x, h.vms b = some x ∧ w = { x with next := w.next, prev := w.prev } := by
  by_cases hne : b = vm
  · have hself : (h₁.linkVm vm v).vms b = some { v with next := h₁.hv.vms, state := .initialized } := if_pos hne
    exact .inl ⟨hne, Option.some.inj (hw.symm.trans hself)⟩
  · exact .inr (hb.old hne hw)

/-- A new root is at none of the old ones. -/
theorem Builds.root_ne {cs : List Addr} (hl : Layout (fun _ => True) h) (hb : Builds vm h v cs h₁) {b : Addr}
    {x : Nexusvm} {r : Addr} (hx : h.vms b = some x) (hr : x.eptRoot = some r) : v.eptRoot ≠ some r := by
  intro hc
  apply hb.blocks (.pages, v.eptRoot) (by simp [vmBlocks]) r hc _ (hl.root b x r trivial hx hr)
  rfl

theorem Builds.layout_linkVm (hl : Layout (fun _ => True) h) (hb : Builds vm h v v.vcpus h₁)
    (hlen : v.vcpus.length = v.vcpuCount.toNat) : Layout (fun _ => True) (h₁.linkVm vm v) := by
  have hheld : ∀ {k x}, h.mem.heap.Holds k x → (h₁.linkVm vm v).mem.heap.Holds k x :=
    hb.alloc.holds
  have hents : h₁.entities = h.entities := by rw [hb.shape]
  refine ⟨?_, ?_, ?_, fun b w hw => ?_, fun c u hu => ?_, fun e s he => ?_, fun b w _ hw => ?_,
    fun b w _ hw => ?_, fun b w _ hw c hc => ?_, fun b w r _ hw hr => ?_,
    fun b b' w w' r _ _ hw hw' hr hr' => ?_, fun c u e hu he => ?_,
    fun c c' u u' e hu hu' he he' => ?_⟩
  · rw [Host.linkVm, hb.shape]
    exact hl.initialized
  · rw [Host.linkVm, hb.shape]
    exact hl.cpus
  · rw [Host.linkVm, hb.shape]
    exact hl.online
  · obtain ⟨rfl, -⟩ | ⟨x, hx, -⟩ := hb.linked hw
    · exact hb.held
    · exact hheld (hl.vmHeld b x hx)
  · rcases hb.vcpus_cases hu with ⟨-, -, hh⟩ | ⟨-, hu⟩
    · exact hh
    · exact hheld (hl.vcpuHeld c u hu)
  · exact hheld (hl.entityHeld e s (hents ▸ he))
  · obtain ⟨rfl, rfl⟩ | ⟨x, hx, hwx⟩ := hb.linked hw
    · exact hlen
    · rw [hwx]
      exact hl.count b x trivial hx
  · obtain ⟨rfl, rfl⟩ | ⟨x, hx, hwx⟩ := hb.linked hw
    · exact hb.nodup
    · rw [hwx]
      exact hl.nodup b x trivial hx
  · obtain ⟨rfl, rfl⟩ | ⟨x, hx, hwx⟩ := hb.linked hw
    · obtain ⟨u, hu, hnew, -⟩ := hb.new c hc
      exact ⟨u, hu, hnew.vm⟩
    · rw [hwx] at hc
      obtain ⟨u, hu, hub⟩ := hl.vcpus b x trivial hx c hc
      exact ⟨u, (hb.vcpus_of_some hl hu).2, hub⟩
  · obtain ⟨rfl, rfl⟩ | ⟨x, hx, hwx⟩ := hb.linked hw
    · exact (hb.root r hr).2.1
    · rw [hwx] at hr
      exact hb.alloc.live _ (hl.root b x r trivial hx hr)
  · obtain ⟨rfl, rfl⟩ | ⟨x, hx, hwx⟩ := hb.linked hw <;>
      obtain ⟨rfl, rfl⟩ | ⟨x', hx', hwx'⟩ := hb.linked hw'
    · rfl
    · rw [hwx'] at hr'
      exact absurd hr (hb.root_ne hl hx' hr')
    · rw [hwx] at hr
      exact absurd hr' (hb.root_ne hl hx hr)
    · rw [hwx] at hr
      rw [hwx'] at hr'
      exact hl.rootInj b b' x x' r trivial trivial hx hx' hr hr'
  · rcases hb.vcpus_cases hu with ⟨-, hnew, -⟩ | ⟨-, hu⟩
    · rw [hnew.schedEntity] at he
      cases he
    · obtain ⟨s, hs⟩ := hl.entity c u e hu he
      exact ⟨s, hents ▸ hs⟩
  · rcases hb.vcpus_cases hu with ⟨-, hnew, -⟩ | ⟨-, hu⟩
    · rw [hnew.schedEntity] at he
      cases he
    rcases hb.vcpus_cases hu' with ⟨-, hnew, -⟩ | ⟨-, hu'⟩
    · rw [hnew.schedEntity] at he'
      cases he'
    exact hl.inj c c' u u' e hu hu' he he'

theorem Builds.coherent_linkVm (hg : Good h) (hb : Builds vm h v v.vcpus h₁) {b : Addr} {w : Nexusvm}
    (hw : (h₁.linkVm vm v).vms b = some w) : Coherent (h₁.linkVm vm v) w := by
  have hvcpus : (h₁.linkVm vm v).vcpus = h₁.vcpus := rfl
  obtain ⟨rfl, rfl⟩ | ⟨x, hx, hwx⟩ := hb.linked hw
  · refine ⟨fun hc => (by cases hc), fun _ c hc u hu => ?_, fun hc => (by cases hc)⟩
    obtain ⟨u', hu', hnew, -⟩ := hb.new c hc
    rw [hvcpus, hu'] at hu
    cases hu
    exact hnew.running
  · have hc := hg.coherent b x hx
    have hsame : ∀ c ∈ x.vcpus, ∀ u, (h₁.linkVm vm v).vcpus c = some u → h.vcpus c = some u := by
      intro c hc u hu
      obtain ⟨u', hu', -⟩ := hg.layout.vcpus b x trivial hx c hc
      rw [hvcpus, (hb.vcpus_of_some hg.layout hu').2] at hu
      rw [← hu, hu']
    rw [hwx]
    exact ⟨fun hs c hcx u hu => hc.running hs c hcx u (hsame c hcx u hu),
      fun hs c hcx u hu => hc.stopped hs c hcx u (hsame c hcx u hu),
      fun hs c hcx u hu => hc.paused hs c hcx u (hsame c hcx u hu)⟩

/-- **The objects after a creation.** -/
theorem Good.create (hg : Good h) (hb : Builds vm h v v.vcpus h₁)
    (hlen : v.vcpus.length = v.vcpuCount.toNat) : Good (h₁.linkVm vm v) :=
  ⟨hb.layout_linkVm hg.layout hlen, fun _ _ hw => hb.coherent_linkVm hg hw⟩

theorem Destroys.old (hd : Destroys a v h h') {b : Addr} {w : Nexusvm} (hw : h'.vms b = some w) :
    b ≠ a ∧ ∃ x, h.vms b = some x ∧ w = { x with next := w.next, prev := w.prev } := by
  rw [hd.vms] at hw
  have hne : b ≠ a := by
    rintro rfl
    rw [Function.update_self] at hw
    cases hw
  rw [Function.update_of_ne hne] at hw
  exact ⟨hne, relinks_unlinkVm h a v b hne w hw⟩

theorem Destroys.vcpu (hd : Destroys a v h h') {c : Addr} {u : Nexusvcpu}
    (hu : h'.vcpus c = some u) : c ∉ v.vcpus ∧ h.vcpus c = some u := by
  rw [hd.vcpus] at hu
  split_ifs at hu with hc
  exact ⟨hc, hu⟩

/-- **The objects after a destruction.** -/
theorem Good.destroy (hg : Good h) (hv : h.vms a = some v) (hd : Destroys a v h h') : Good h' := by
  have hl := hg.layout
  obtain ⟨l, hf, hkind⟩ := hd.frees
  -- the vCPUs of another VM are not among those of the destroyed one
  have hother : ∀ b x, b ≠ a → h.vms b = some x → ∀ c ∈ x.vcpus, h'.vcpus c = h.vcpus c := by
    intro b x hne hx c hc
    rw [hd.vcpus, if_neg]
    intro hcv
    obtain ⟨u, hu, hub⟩ := hl.vcpus b x trivial hx c hc
    obtain ⟨u', hu', hua⟩ := hl.vcpus a v trivial hv c hcv
    rw [hu] at hu'
    cases hu'
    exact hne (hub.symm.trans hua)
  refine ⟨⟨?_, ?_, ?_, fun b w hw => ?_, fun c u hu => ?_, fun e s he => ?_, fun b w _ hw => ?_,
    fun b w _ hw => ?_, fun b w _ hw c hc => ?_, fun b w r _ hw hr => ?_,
    fun b b' w w' r _ _ hw hw' hr hr' => ?_, fun c u e hu he => ?_,
    fun c c' u u' e hu hu' he he' => ?_⟩, fun b w hw => ?_⟩
  · rw [hd.statics.gInitialized]
    exact hl.initialized
  · rw [hd.statics.gCpuCount]
    exact hl.cpus
  · rw [hd.statics.gCpuCount, hd.hv]
    exact hl.online
  · obtain ⟨hne, x, hx, -⟩ := hd.old hw
    exact hf.holds (hl.vmHeld b x hx) fun hc => hne ((hkind _ _ hc).2.1 rfl)
  · obtain ⟨hc, hu⟩ := hd.vcpu hu
    exact hf.holds (hl.vcpuHeld c u hu) fun hc' => hc ((hkind _ _ hc').2.2.1 rfl)
  · rw [hd.entities] at he
    exact hf.holds (hl.entityHeld e s he) fun hc => (hkind _ _ hc).1 rfl
  · obtain ⟨-, x, hx, hwx⟩ := hd.old hw
    rw [hwx]
    exact hl.count b x trivial hx
  · obtain ⟨-, x, hx, hwx⟩ := hd.old hw
    rw [hwx]
    exact hl.nodup b x trivial hx
  · obtain ⟨hne, x, hx, hwx⟩ := hd.old hw
    rw [hwx] at hc
    rw [hother b x hne hx c hc]
    exact hl.vcpus b x trivial hx c hc
  · obtain ⟨hne, x, hx, hwx⟩ := hd.old hw
    rw [hwx] at hr
    apply hf.live _ (hl.root b x r trivial hx hr)
    intro hc
    exact hne (hl.rootInj b a x v r trivial trivial hx hv hr ((hkind _ _ hc).2.2.2 rfl))
  · obtain ⟨-, x, hx, hwx⟩ := hd.old hw
    obtain ⟨-, x', hx', hwx'⟩ := hd.old hw'
    rw [hwx] at hr
    rw [hwx'] at hr'
    exact hl.rootInj b b' x x' r trivial trivial hx hx' hr hr'
  · rw [hd.entities]
    exact hl.entity c u e (hd.vcpu hu).2 he
  · exact hl.inj c c' u u' e (hd.vcpu hu).2 (hd.vcpu hu').2 he he'
  · obtain ⟨hne, x, hx, hwx⟩ := hd.old hw
    have hc := hg.coherent b x hx
    have hsame := hother b x hne hx
    rw [hwx]
    exact ⟨fun hs c hcx u hu => hc.running hs c hcx u ((hsame c hcx).symm.trans hu),
      fun hs c hcx u hu => hc.stopped hs c hcx u ((hsame c hcx).symm.trans hu),
      fun hs c hcx u hu => hc.paused hs c hcx u ((hsame c hcx).symm.trans hu)⟩

/-! ## The list -/

/-- The pointers of the list of VMs; `last` is what the sentinel points back at. -/
def Host.vmLinks (h : Host) (last : Option Addr) : DList.Links (Option Addr) where
  next
    | none => h.hv.vms
    | some a => (h.vms a).bind Nexusvm.next
  prev
    | none => last
    | some a => (h.vms a).bind Nexusvm.prev

/-- The list of VMs is `xs`: it is linked in both directions, ends with `NULL` at both ends, and
has exactly the VMs there are. -/
structure Registry (h : Host) (xs : List Addr) : Prop where
  ring : ∃ last, DList.Ring (h.vmLinks last) none (xs.map some)
  mem : ∀ a, a ∈ xs ↔ h.vms a ≠ none
  count : h.hv.vmCount = UInt32.ofNat xs.length

variable {xs : List Addr}

theorem Registry.nodup (hr : Registry h xs) : xs.Nodup := by
  obtain ⟨last, hring⟩ := hr.ring
  exact List.Nodup.of_map some (List.nodup_cons.mp hring.nodup).2

theorem Registry.congr (hr : Registry h xs) (hvms : h'.hv.vms = h.hv.vms)
    (hcount : h'.hv.vmCount = h.hv.vmCount)
    (hlinks : ∀ a, (h'.vms a).map (fun v => (v.next, v.prev)) =
      (h.vms a).map fun v => (v.next, v.prev)) : Registry h' xs := by
  have hnext : ∀ a, (h'.vms a).bind Nexusvm.next = (h.vms a).bind Nexusvm.next := by
    intro a
    have := hlinks a
    cases h1 : h'.vms a <;> cases h2 : h.vms a <;> simp_all
  have hprev : ∀ a, (h'.vms a).bind Nexusvm.prev = (h.vms a).bind Nexusvm.prev := by
    intro a
    have := hlinks a
    cases h1 : h'.vms a <;> cases h2 : h.vms a <;> simp_all
  obtain ⟨last, hring⟩ := hr.ring
  refine ⟨⟨last, hring.congr (fun b _ => ?_) fun b _ => ?_⟩, fun a => ?_, hcount.trans hr.count⟩
  · cases b with
    | none => exact hvms
    | some b => exact hnext b
  · cases b with
    | none => rfl
    | some b => exact hprev b
  · rw [hr.mem a]
    have := hlinks a
    cases h1 : h'.vms a <;> cases h2 : h.vms a <;> simp_all

theorem Registry.first (hr : Registry h xs) : h.hv.vms = xs.head? := by
  obtain ⟨last, hring⟩ := hr.ring
  have hhead := hring.next_head
  cases xs with
  | nil => exact hhead
  | cons x xs => exact hhead

theorem Registry.first_ne (hr : Registry h xs) : ∀ f, h.hv.vms = some f → h.vms f ≠ none := by
  intro f hf
  rw [hr.first] at hf
  exact (hr.mem f).mp (List.mem_of_mem_head? hf)

/-- **A new VM comes first.** -/
theorem Registry.create (hr : Registry h xs) (hb : Builds vm h v v.vcpus h₁) (hprev : v.prev = none)
    (hnone : h.vms vm = none) : Registry (h₁.linkVm vm v) (vm :: xs) := by
  obtain ⟨last, hring⟩ := hr.ring
  have hnot : vm ∉ xs := fun hmem => (hr.mem vm).mp hmem hnone
  have hvms : ∀ b, b ≠ vm → h₁.vms b = h.vms b := fun b hb' => hb.vms_eq hb'
  have hhv : h₁.hv.vms = h.hv.vms := by rw [hb.shape]; rfl
  have hself : (h₁.linkVm vm v).vms vm = some { v with next := h₁.hv.vms, state := .initialized } :=
    if_pos rfl
  have hins := hring.insertAfter (e := some vm) (by simp [hnot])
  have hex : ∀ b, some b ∈ (none : Option Addr) :: some vm :: xs.map some → b ≠ vm →
      ∃ w, h.vms b = some w := by
    intro b hmem hbv
    apply Option.ne_none_iff_exists'.mp
    rw [← hr.mem]
    simpa [hbv] using hmem
  refine ⟨⟨((h.vmLinks last).insertAfter (some vm) none).prev none, hins.congr ?_ ?_⟩,
    fun b => ?_, ?_⟩
  · -- the pointers to the next VM
    intro b hmem
    cases b with
    | none => simp [Host.vmLinks, Host.linkVm, DList.Links.insertAfter]
    | some b =>
      by_cases hbv : b = vm
      · subst hbv
        simp [Host.vmLinks, DList.Links.insertAfter, hself, hhv]
      · obtain ⟨w, hw⟩ := hex b hmem hbv
        simp only [Host.vmLinks, Host.linkVm, hbv, if_false, hvms b hbv, hw]
        split_ifs <;> simp [DList.Links.insertAfter, hbv, hw]
  · intro b hmem
    cases b with
    | none => rfl
    | some b =>
      by_cases hbv : b = vm
      · subst hbv
        have hne : h.hv.vms ≠ some b := fun hc => hr.first_ne b hc hnone
        simp [Host.vmLinks, DList.Links.insertAfter, hself, hprev, Ne.symm hne]
      · obtain ⟨w, hw⟩ := hex b hmem hbv
        simp only [Host.vmLinks, Host.linkVm, DList.Links.insertAfter, hbv, if_false, hvms b hbv,
          hhv, hw]
        by_cases hfirst : h.hv.vms = some b
        · simp [hfirst]
        · simp [hfirst, Ne.symm hfirst, hbv, hw]
  · by_cases hbv : b = vm
    · subst hbv
      simp [hself]
    · rw [List.mem_cons, hr.mem b]
      simp only [hbv, false_or, Host.linkVm, if_false, hvms b hbv]
      split_ifs <;> simp
  · have hcount : h₁.hv.vmCount = h.hv.vmCount := by rw [hb.shape]; rfl
    rw [List.length_cons, UInt32.ofNat_add, ← hr.count, ← hcount]
    rfl

theorem Registry.neighbours (hr : Registry h xs) (hv : h.vms a = some v) :
    (∀ p, v.prev = some p → p ≠ a ∧ h.vms p ≠ none ∧ v.next ≠ some p) ∧
    (∀ n, v.next = some n → n ≠ a ∧ h.vms n ≠ none) := by
  have hmem : a ∈ xs := (hr.mem a).mpr (by rw [hv]; exact Option.some_ne_none v)
  obtain ⟨ys, zs, hxs⟩ := List.append_of_mem hmem
  have hnd := hr.nodup
  obtain ⟨last, hring⟩ := hr.ring
  rw [hxs, List.map_append, List.map_cons] at hring
  obtain ⟨hn, hp⟩ := hring.neighbours
  have hprev : ∀ p, v.prev = some p → p ∈ ys := by
    intro p hvp
    simpa [Host.vmLinks, hv, hvp] using hp
  have hnext : ∀ n, v.next = some n → n ∈ zs := by
    intro n hvn
    simpa [Host.vmLinks, hv, hvn] using hn
  rw [hxs] at hnd
  obtain ⟨-, hndz, hdis⟩ := List.nodup_append.mp hnd
  refine ⟨fun p hvp => ⟨?_, ?_, ?_⟩, fun n hvn => ⟨?_, ?_⟩⟩
  · exact hdis p (hprev p hvp) a List.mem_cons_self
  · rw [← hr.mem, hxs]
    exact List.mem_append_left _ (hprev p hvp)
  · exact fun hvn => hdis p (hprev p hvp) p (List.mem_cons_of_mem _ (hnext p hvn)) rfl
  · rintro rfl
    exact (List.nodup_cons.mp hndz).1 (hnext n hvn)
  · rw [← hr.mem, hxs]
    exact List.mem_append_right _ (List.mem_cons_of_mem _ (hnext n hvn))

/-- **A destroyed VM is taken out.** -/
theorem Registry.destroy (hr : Registry h xs) (hv : h.vms a = some v) (hd : Destroys a v h h') :
    Registry h' (xs.erase a) := by
  have hmem : a ∈ xs := (hr.mem a).mpr (by rw [hv]; exact Option.some_ne_none v)
  obtain ⟨hprev, hnext⟩ := hr.neighbours hv
  have hnd := hr.nodup
  have hcount := hr.count
  have hset := hr.mem
  obtain ⟨last, hring⟩ := hr.ring
  obtain ⟨ys, zs, rfl⟩ := List.append_of_mem hmem
  have hys : a ∉ ys := fun hc => (List.nodup_append.mp hnd).2.2 a hc a List.mem_cons_self rfl
  have hzs : a ∉ zs := (List.nodup_cons.mp (List.nodup_append.mp hnd).2.1).1
  rw [List.erase_append_right _ hys, List.erase_cons_head]
  rw [List.map_append, List.map_cons] at hring
  have hrem := hring.remove
  have hpa : (h.vmLinks last).prev (some a) = v.prev := by simp [Host.vmLinks, hv]
  have hna : (h.vmLinks last).next (some a) = v.next := by simp [Host.vmLinks, hv]
  have hex : ∀ b, some b ∈ (none : Option Addr) :: (ys.map some ++ zs.map some) →
      b ≠ a ∧ h.vms b ≠ none := by
    intro b hb
    have hb' : b ∈ ys ∨ b ∈ zs := by simpa using hb
    refine ⟨?_, (hset b).mp ?_⟩
    · rintro rfl
      exact hb'.elim hys hzs
    · rw [List.mem_append, List.mem_cons]
      tauto
  refine ⟨⟨((h.vmLinks last).remove (some a)).prev none, ?_⟩, fun b => ?_, ?_⟩
  · rw [List.map_append]
    refine hrem.congr (fun b hb => ?_) fun b hb => ?_
    · rw [DList.Links.remove_next, hpa, hna]
      cases b with
      | none =>
        simp only [Host.vmLinks, hd.hv, Host.unlinkVm]
        exact if_congr eq_comm rfl rfl
      | some b =>
        obtain ⟨hba, hbv⟩ := hex b hb
        obtain ⟨w, hw⟩ := Option.ne_none_iff_exists'.mp hbv
        simp only [Host.vmLinks, hd.vms, Function.update_of_ne hba, Host.unlinkVm, hw]
        by_cases hbp : v.prev = some b
        · simp [hbp]
        · simp only [hbp, Ne.symm hbp, if_false]
          split_ifs <;> rfl
    · cases b with
      | none => rfl
      | some b =>
        rw [DList.Links.remove_prev _ (some a) (some b), hpa, hna]
        obtain ⟨hba, hbv⟩ := hex b hb
        obtain ⟨w, hw⟩ := Option.ne_none_iff_exists'.mp hbv
        simp only [Host.vmLinks, hd.vms, Function.update_of_ne hba, Host.unlinkVm, hw]
        by_cases hbp : v.prev = some b
        · have hbn := (hprev b hbp).2.2
          simp [hbp, Ne.symm hbn]
        · by_cases hbn : v.next = some b
          · simp [hbp, hbn]
          · simp [hbp, hbn, Ne.symm hbn]
  · rw [hd.vms]
    by_cases hba : b = a
    · subst hba
      simp [hys, hzs]
    · rw [Function.update_of_ne hba, List.mem_append]
      have := hset b
      simp only [List.mem_append, List.mem_cons, hba, false_or] at this
      rw [this]
      simp only [Host.unlinkVm]
      split_ifs <;> simp
  · rw [hd.hv, Host.unlinkVm, hcount]
    simp only [List.length_append, List.length_cons]
    rw [← Nat.add_assoc, UInt32.ofNat_add]
    exact add_sub_cancel_right _ _

/-! ## Walks -/

/-- The VMs `xs` are linked from `p` on, both ways, with `prev` before the first and `NULL` after
the last. -/
def DoublyLinked (h : Host) : Option Addr → List Addr → Option Addr → Prop
  | _, [], p => p = none
  | prev, a :: xs, p => p = some a ∧ ∃ v, h.vms a = some v ∧ v.prev = prev ∧
      DoublyLinked h (some a) xs v.next

/-- **The list is doubly linked.** -/
theorem Registry.doublyLinked (hr : Registry h xs) : DoublyLinked h none xs h.hv.vms := by
  obtain ⟨last, hring⟩ := hr.ring
  have hmem : ∀ a ∈ xs, h.vms a ≠ none := fun a ha => (hr.mem a).mp ha
  suffices key : ∀ (p : Option Addr) (ys : List Addr), (∀ a ∈ ys, h.vms a ≠ none) →
      DList.Linked (h.vmLinks last) (p :: ys.map some ++ [none]) →
      DoublyLinked h p ys ((h.vmLinks last).next p) from key none xs hmem hring.linked
  intro p ys
  induction ys generalizing p with
  | nil =>
    intro _ hl
    exact ((DList.linked_split _ [] p none []).mp hl).2.1.1
  | cons a ys ih =>
    intro hex hl
    obtain ⟨-, ⟨hnext, hprev⟩, hrest⟩ := (DList.linked_split _ [] p (some a) _).mp hl
    obtain ⟨v, hv⟩ := Option.ne_none_iff_exists'.mp (hex a List.mem_cons_self)
    refine ⟨hnext, v, hv, ?_, ?_⟩
    · simpa [Host.vmLinks, hv] using hprev
    · have := ih (some a) (fun b hb => hex b (List.mem_cons_of_mem _ hb)) hrest
      simpa [Host.vmLinks, hv] using this

theorem Registry.length_le {P : Addr → Prop} (hr : Registry h xs) (hl : Layout P h) :
    xs.length ≤ h.mem.heap.live.length := by
  have hheld : ∀ a ∈ xs, h.mem.heap.Holds .vm a := fun a ha => by
    obtain ⟨v, hv⟩ := Option.ne_none_iff_exists'.mp ((hr.mem a).mp ha)
    exact hl.vmHeld a v hv
  exact Heap.length_le_live hr.nodup hheld

/-- The id of the VM at `a`. -/
def Host.idOf (h : Host) (a : Addr) : Option UInt32 := (h.vms a).map Nexusvm.id

theorem findById_spec {prev p : Option Addr} {fuel : ℕ} (id : UInt32)
    (hl : DoublyLinked h prev xs p) (hf : xs.length ≤ fuel) : wp (findById id fuel p)
      (fun r h' => r = xs.find? (fun a => h.idOf a = some id) ∧ h' = h) h := by
  induction xs generalizing prev p fuel with
  | nil =>
    obtain rfl := hl
    unfold findById
    rw [wp_pure]
    exact ⟨rfl, rfl⟩
  | cons a xs ih =>
    obtain ⟨rfl, v, hv, -, hrest⟩ := hl
    rw [List.length_cons] at hf
    obtain ⟨fuel, rfl⟩ : ∃ k, fuel = k + 1 := ⟨fuel - 1, by omega⟩
    rw [findById, wp_bind, wp_getVm]
    refine ⟨v, hv, wp_ite (fun hid => ?_) fun hid => ?_⟩
    · rw [wp_pure, List.find?_cons_of_pos (by simp [Host.idOf, hv, hid])]
      exact ⟨rfl, rfl⟩
    · rw [List.find?_cons_of_neg (by simp [Host.idOf, hv, hid])]
      exact ih hrest (by omega)

/-- **`vm_get_by_id`.** -/
theorem vmGetById_spec (hg : Good h) (hr : Registry h xs) (id : UInt32) :
    (vmGetById id).run h = some (xs.find? (fun a => h.idOf a = some id), h) := by
  have hlen := hr.length_le hg.layout
  suffices hwp : wp (vmGetById id)
      (fun r h' => r = xs.find? (fun a => h.idOf a = some id) ∧ h' = h) h by
    obtain ⟨r, h', hrun, rfl, rfl⟩ := hwp
    exact hrun
  simp only [vmGetById, wp_bind, wp_getHv, wp_get]
  exact ⟨hg.layout.initialized, findById_spec id hr.doublyLinked (by unfold Host.fuel; omega)⟩

theorem enumerateFrom_spec {prev p : Option Addr} {room : ℕ} (hl : DoublyLinked h prev xs p)
    (hroom : xs.length ≤ room) : wp (enumerateFrom room p)
      (fun ids h' => ids = xs.filterMap h.idOf ∧ h' = h) h := by
  induction xs generalizing prev p room with
  | nil =>
    obtain rfl := hl
    unfold enumerateFrom
    rw [wp_pure]
    exact ⟨rfl, rfl⟩
  | cons a xs ih =>
    obtain ⟨rfl, v, hv, -, hrest⟩ := hl
    rw [List.length_cons] at hroom
    obtain ⟨room, rfl⟩ : ∃ k, room = k + 1 := ⟨room - 1, by omega⟩
    simp only [enumerateFrom, wp_bind, wp_getVm]
    refine ⟨v, hv, wp_mono (ih hrest (by omega)) ?_⟩
    rintro _ _ ⟨rfl, rfl⟩
    rw [wp_pure, List.filterMap_cons_some (by simp [Host.idOf, hv] : Host.idOf _ a = some v.id)]
    exact ⟨rfl, rfl⟩

/-- **`vm_enumerate`** with room for all VMs. -/
theorem vmEnumerate_spec (hg : Good h) (hr : Registry h xs) {maxCount : UInt32}
    (hroom : xs.length ≤ maxCount.toNat) :
    (vmEnumerate maxCount).run h = some (xs.filterMap h.idOf, h) := by
  suffices hwp : wp (vmEnumerate maxCount)
      (fun ids h' => ids = xs.filterMap h.idOf ∧ h' = h) h by
    obtain ⟨r, h', hrun, rfl, rfl⟩ := hwp
    exact hrun
  simp only [vmEnumerate, wp_bind, wp_getHv]
  exact ⟨hg.layout.initialized, enumerateFrom_spec hr.doublyLinked hroom⟩

theorem Registry.setState (hr : Registry h xs) (hhv : h₁.hv = h.hv) (hvms : h₁.vms = h.vms)
    (hv : h.vms a = some v) {m : PhysMem} {s : VmState} :
    Registry ((h₁.setMem m).setVm a (some { v with state := s })) xs := by
  refine hr.congr (congrArg Hypervisor.vms hhv) (congrArg Hypervisor.vmCount hhv) fun b => ?_
  rw [Host.setVm_vms, Host.setMem_vms, hvms]
  by_cases hba : b = a
  · subst hba
    rw [Function.update_self, hv]
    rfl
  · rw [Function.update_of_ne hba]

/-- **The loop of `hypervisor_shutdown`** destroys the VMs of the list, each once. -/
theorem shutdownLoop_spec {fuel : ℕ} (hg : Good h) (hr : Registry h xs) (hf : xs.length ≤ fuel) :
    wp (shutdownLoop fuel xs.head?) (fun r h' => r = xs ∧ Good h' ∧ Registry h' []) h := by
  induction xs generalizing h fuel with
  | nil =>
    unfold shutdownLoop
    rw [List.head?_nil, wp_pure]
    exact ⟨rfl, hg, hr⟩
  | cons a xs ih =>
    obtain ⟨fuel, rfl⟩ : ∃ k, fuel = k + 1 := ⟨fuel - 1, by simp at hf; omega⟩
    obtain ⟨-, v, hv, -, hrest⟩ := hr.doublyLinked
    have hnext : v.next = xs.head? := by
      cases xs with
      | nil => exact hrest
      | cons x xs => exact hrest.1
    simp only [List.head?_cons, shutdownLoop, wp_bind, wp_getVm]
    refine ⟨v, hv, wp_mono (vmStop_spec hg hv) ?_⟩
    rintro _ h₁ ⟨hg₁, hcase⟩
    -- the VM is still listed, in whatever state
    have hstop : ∃ s, h₁.vms a = some { v with state := s } ∧ Registry h₁ (a :: xs) := by
      rcases hcase with ⟨-, rfl⟩ | ⟨-, h₂, hs, rfl⟩
      · exact ⟨v.state, hv, hr⟩
      · exact ⟨.shutdown, Function.update_self _ _ _,
          hr.setState (m := h₂.mem) hs.touches.hv hs.touches.vms hv⟩
    obtain ⟨s, hv₁, hr₁⟩ := hstop
    obtain ⟨hprev, hnext₁⟩ := hr₁.neighbours hv₁
    refine wp_mono (vmDestroy_spec hg₁ hv₁ hprev hnext₁) ?_
    rintro _ h₂ hd
    have hr₂ := hr₁.destroy hv₁ hd
    rw [List.erase_cons_head] at hr₂
    rw [hnext]
    refine wp_mono (ih (hg₁.destroy hv₁ hd) hr₂ (by simp at hf; omega)) ?_
    rintro _ h₃ ⟨rfl, hg₃, hr₃⟩
    rw [wp_pure]
    exact ⟨rfl, hg₃, hr₃⟩

/-- **`hypervisor_shutdown`.** -/
theorem hypervisorShutdown_spec (hg : Good h) (hr : Registry h xs) : ∃ h',
    hypervisorShutdown.run h = some (xs, h') ∧ h'.hv.vms = none ∧ h'.hv.vmCount = 0 ∧
      ∀ a, h'.vms a = none := by
  have hlen := hr.length_le hg.layout
  suffices hwp : wp hypervisorShutdown (fun r h' => r = xs ∧ h'.hv.vms = none ∧
      h'.hv.vmCount = 0 ∧ ∀ a, h'.vms a = none) h by
    obtain ⟨r, h', hrun, rfl, hrest⟩ := hwp
    exact ⟨h', hrun, hrest⟩
  simp only [hypervisorShutdown, wp_bind, wp_get, hg.layout.initialized, Bool.not_true,
    Bool.false_eq_true, if_false]
  rw [hr.first]
  refine wp_mono (shutdownLoop_spec hg hr (by unfold Host.fuel; omega)) ?_
  rintro _ h' ⟨rfl, -, hr'⟩
  simp only [wp_modify, wp_pure]
  refine ⟨trivial, hr'.first, hr'.count, fun a => ?_⟩
  by_contra hne
  exact List.not_mem_nil ((hr'.mem a).mpr hne)

/-! ## Ids -/

/-- Ids are distinct, and below the next one. -/
structure DistinctIds (h : Host) : Prop where
  lt : ∀ a v, h.vms a = some v → v.id < h.hv.nextVmId
  inj : ∀ a b v w, h.vms a = some v → h.vms b = some w → v.id = w.id → a = b

theorem DistinctIds.nextId (hi : DistinctIds h) (hlt : h.hv.nextVmId.toNat + 1 < 2 ^ 32)
    (hids : ∀ b w, h'.vms b = some w → ∃ x, h.vms b = some x ∧ w.id = x.id)
    (hnext : h'.hv.nextVmId = h.hv.nextVmId ∨ h'.hv.nextVmId = h.hv.nextVmId + 1) :
    DistinctIds h' := by
  refine ⟨fun b w hw => ?_, fun b c w x hw hx hwx => ?_⟩
  · obtain ⟨y, hy, hid⟩ := hids b w hw
    have hold := hi.lt b y hy
    rw [hid]
    rw [UInt32.lt_iff_toNat_lt] at hold ⊢
    rcases hnext with hn | hn
    · rw [hn]
      exact hold
    · rw [hn, UInt32.toNat_add, Nat.mod_eq_of_lt (by simpa using hlt)]
      simp only [UInt32.reduceToNat]
      omega
  · obtain ⟨y, hy, hid⟩ := hids b w hw
    obtain ⟨z, hz, hid'⟩ := hids c x hx
    exact hi.inj b c y z hy hz (by rw [← hid, ← hid', hwx])

theorem DistinctIds.create (hi : DistinctIds h) (hb : Builds vm h v v.vcpus h₁)
    (hid : v.id = h.hv.nextVmId) (hlt : h.hv.nextVmId.toNat + 1 < 2 ^ 32) :
    DistinctIds (h₁.linkVm vm v) := by
  have hself : (h₁.linkVm vm v).vms vm = some { v with next := h₁.hv.vms, state := .initialized } :=
    if_pos rfl
  have hnext : (h₁.linkVm vm v).hv.nextVmId = h.hv.nextVmId + 1 := by
    rw [Host.linkVm, hb.shape]
    rfl
  have hstep : h.hv.nextVmId < h.hv.nextVmId + 1 := by
    rw [UInt32.lt_iff_toNat_lt, UInt32.toNat_add, Nat.mod_eq_of_lt (by simpa using hlt)]
    simp
  have hold : ∀ b w, b ≠ vm → (h₁.linkVm vm v).vms b = some w →
      ∃ x, h.vms b = some x ∧ w.id = x.id := by
    intro b w hne hw
    obtain ⟨x, hx, hwx⟩ := hb.old hne hw
    exact ⟨x, hx, by rw [hwx]⟩
  refine ⟨fun b w hw => ?_, fun b c w x hw hx hwx => ?_⟩
  · rw [hnext]
    by_cases hbv : b = vm
    · subst hbv
      rw [hself] at hw
      cases hw
      rw [hid]
      exact hstep
    · obtain ⟨y, hy, hidy⟩ := hold b w hbv hw
      rw [hidy]
      exact UInt32.lt_trans (hi.lt b y hy) hstep
  · by_cases hbv : b = vm
    · by_cases hcv : c = vm
      · rw [hbv, hcv]
      · subst hbv
        rw [hself] at hw
        cases hw
        obtain ⟨y, hy, hidy⟩ := hold c x hcv hx
        have hlt' := hi.lt c y hy
        rw [← hidy, ← hwx, hid] at hlt'
        exact absurd hlt' (UInt32.lt_irrefl _)
    · obtain ⟨y, hy, hidy⟩ := hold b w hbv hw
      by_cases hcv : c = vm
      · subst hcv
        rw [hself] at hx
        cases hx
        have hlt' := hi.lt b y hy
        rw [← hidy, hwx, hid] at hlt'
        exact absurd hlt' (UInt32.lt_irrefl _)
      · obtain ⟨z, hz, hidz⟩ := hold c x hcv hx
        exact hi.inj b c y z hy hz (by rw [← hidy, ← hidz, hwx])

/-! ## Runs -/

/-- A call that changes the list. -/
inductive RegistryOp
  | create (config : VmConfig)
  | destroy (vm : Addr)

/-- Perform the calls and keep the list of the VMs created and not yet destroyed, newest first. A
VM is destroyed only while it is in that list. -/
def registryRun : List RegistryOp → List Addr → HostM (List Addr)
  | [], live => return live
  | .create config :: ops, live => do
    match ← vmCreate (some config) with
    | .ok vm => registryRun ops (vm :: live)
    | .error _ => registryRun ops live
  | .destroy vm :: ops, live => do
    Prog.require (vm ∈ live)
    let _ ← vmDestroy (some vm)
    registryRun ops (live.erase vm)

/-- The number of creations among the calls. -/
def countCreates (ops : List RegistryOp) : ℕ :=
  ops.countP fun op => match op with
    | .create _ => true
    | .destroy _ => false

/-- What runs of creations and destructions keep, with `n` creations to come. -/
structure RegistryInv (n : ℕ) (xs : List Addr) (h : Host) : Prop where
  good : Good h
  registry : Registry h xs
  ids : DistinctIds h
  room : h.hv.nextVmId.toNat + n < 2 ^ 32
  length : xs.length < h.hv.nextVmId.toNat

theorem nextId_toNat {n : ℕ} (hroom : h.hv.nextVmId.toNat + (n + 1) < 2 ^ 32) :
    h.hv.nextId.nextVmId.toNat = h.hv.nextVmId.toNat + 1 := by
  rw [Hypervisor.nextId, UInt32.toNat_add, Nat.mod_eq_of_lt (by simp; omega)]
  rfl

theorem registryInv_create {n : ℕ} (hi : RegistryInv (n + 1) xs h) (config : VmConfig) :
    wlp (vmCreate (some config)) (fun r h' => match r with
      | .ok vm => RegistryInv n (vm :: xs) h'
      | .error _ => RegistryInv n xs h') h := by
  have hroom := hi.room
  have hlen := hi.length
  have hnext := nextId_toNat hroom
  refine wlp_mono (vmCreate_spec hi.good.layout hi.registry.first_ne config) ?_
  rintro (e | vm) h' hr
  · obtain ⟨m, hv, ha, hhv, rfl⟩ := hr
    have hcase : hv.nextVmId = h.hv.nextVmId ∨ hv.nextVmId = h.hv.nextVmId + 1 := by
      rcases hhv with rfl | rfl
      · exact .inl rfl
      · exact .inr rfl
    have hn : h.hv.nextVmId.toNat ≤ hv.nextVmId.toNat ∧
        hv.nextVmId.toNat ≤ h.hv.nextVmId.toNat + 1 := by
      rcases hhv with rfl | rfl
      · omega
      · omega
    refine ⟨hi.good.failedCreate ha hhv, hi.registry.congr ?_ ?_ fun _ => rfl,
      hi.ids.nextId (by omega) (fun b w hw => ⟨w, hw, rfl⟩) hcase, ?_, ?_⟩
    · rcases hhv with rfl | rfl <;> rfl
    · rcases hhv with rfl | rfl <;> rfl
    · rw [Host.setMem_hv, Host.setHv_hv]
      omega
    · rw [Host.setMem_hv, Host.setHv_hv]
      omega
  · obtain ⟨v, h₁, name, hid, hlen', -, -, hb, rfl⟩ := hr
    have hfresh : h.vms vm = none := by
      by_contra hne
      obtain ⟨w, hw⟩ := Option.ne_none_iff_exists'.mp hne
      exact hb.vm_ne hi.good.layout hw rfl
    have hhv : (h₁.linkVm vm v).hv.nextVmId = h.hv.nextId.nextVmId := by
      rw [Host.linkVm, hb.shape]
    refine ⟨hi.good.create hb ?_, hi.registry.create hb hid.prev hfresh,
      hi.ids.create hb hid.id (by omega), ?_, ?_⟩
    · rw [hlen', hid.vcpuCount]
      rfl
    · rw [hhv]
      omega
    · rw [hhv, List.length_cons]
      omega

theorem registryInv_destroy {n : ℕ} (hi : RegistryInv n xs h) (ha : a ∈ xs) :
    wp (vmDestroy (some a)) (fun _ h' => RegistryInv n (xs.erase a) h') h := by
  obtain ⟨v, hv⟩ := Option.ne_none_iff_exists'.mp ((hi.registry.mem a).mp ha)
  obtain ⟨hprev, hnext⟩ := hi.registry.neighbours hv
  have hroom := hi.room
  have hlen := hi.length
  refine wp_mono (vmDestroy_spec hi.good hv hprev hnext) ?_
  rintro _ h' hd
  have hids : ∀ b w, h'.vms b = some w → ∃ x, h.vms b = some x ∧ w.id = x.id := by
    intro b w hw
    obtain ⟨-, x, hx, hwx⟩ := hd.old hw
    exact ⟨x, hx, by rw [hwx]⟩
  have hnid : h'.hv.nextVmId = h.hv.nextVmId := by
    rw [hd.hv]
    rfl
  refine ⟨hi.good.destroy hv hd, hi.registry.destroy hv hd, ⟨?_, ?_⟩, ?_, ?_⟩
  · intro b w hw
    obtain ⟨x, hx, hid⟩ := hids b w hw
    rw [hid, hnid]
    exact hi.ids.lt b x hx
  · intro b c w x hw hx hwx
    obtain ⟨y, hy, hid⟩ := hids b w hw
    obtain ⟨z, hz, hid'⟩ := hids c x hx
    exact hi.ids.inj b c y z hy hz (by rw [← hid, ← hid', hwx])
  · rw [hnid]
    exact hroom
  · rw [hnid]
    exact (List.length_erase_le).trans_lt hlen

theorem registryRun_spec (ops : List RegistryOp) (hi : RegistryInv (countCreates ops) xs h) :
    wlp (registryRun ops xs) (fun live h' => RegistryInv 0 live h') h := by
  induction ops generalizing xs h with
  | nil =>
    rw [registryRun, wlp_pure]
    exact hi
  | cons op ops ih =>
    cases op with
    | create config =>
      rw [registryRun, wlp_bind]
      have hcount : countCreates (.create config :: ops) = countCreates ops + 1 := by
        simp [countCreates]
      rw [hcount] at hi
      refine wlp_mono (registryInv_create hi config) ?_
      rintro (e | vm) h' hi'
      · exact ih hi'
      · exact ih hi'
    | destroy vm =>
      simp only [registryRun, wlp_bind, wlp_require]
      intro hmem
      have hcount : countCreates (.destroy vm :: ops) = countCreates ops := by
        simp [countCreates]
      rw [hcount] at hi
      refine wlp_mono (registryInv_destroy hi hmem).wlp ?_
      rintro _ h' hi'
      exact ih hi'

theorem Boot.registryInv (hb : Boot h) {n : ℕ} (hn : n < 2 ^ 32 - 1) : RegistryInv n [] h := by
  have hvms : ∀ a, h.vms a = none := fun a => congrFun hb.vms a
  have hvcpus : ∀ c, h.vcpus c = none := fun c => congrFun hb.vcpus c
  have hents : ∀ e, h.entities e = none := fun e => congrFun hb.entities e
  refine ⟨⟨⟨hb.initialized, hb.cpus, hb.online, ?_, ?_, ?_, ?_, ?_, ?_, ?_, ?_, ?_, ?_⟩, ?_⟩,
    ⟨⟨none, ?_⟩, ?_, hb.count⟩, ⟨?_, ?_⟩, ?_, ?_⟩
  · simp [hvms]
  · simp [hvcpus]
  · simp [hents]
  · simp [hvms]
  · simp [hvms]
  · simp [hvms]
  · simp [hvms]
  · simp [hvms]
  · simp [hvcpus]
  · simp [hvcpus]
  · simp [hvms]
  · exact DList.ring_nil.mpr ⟨hb.first, rfl⟩
  · simp [hvms]
  · simp [hvms]
  · simp [hvms]
  · rw [hb.nextVmId]
    simp only [UInt32.reduceToNat]
    omega
  · rw [hb.nextVmId]
    simp

/-- **The registry refines a list.** After every run of creations, whether they succeed or not, and
of destructions, with fewer than 2³² − 1 creations: the VMs `live` created and not yet destroyed,
newest first, are linked in this order in both directions; their number is the count; their ids are
distinct and below the next one; `vm_get_by_id` and `vm_enumerate` are those of the list; and
`hypervisor_shutdown` destroys each of them once and leaves none. -/
theorem registry_refines_list {h₀ : Host} (hboot : Boot h₀) {ops : List RegistryOp}
    (hops : countCreates ops < 2 ^ 32 - 1) {live : List Addr}
    (hrun : (registryRun ops []).run h₀ = some (live, h)) :
    DoublyLinked h none live h.hv.vms ∧ live.Nodup ∧ h.hv.vmCount.toNat = live.length ∧
    (live.filterMap h.idOf).Nodup ∧ (∀ id ∈ live.filterMap h.idOf, id < h.hv.nextVmId) ∧
    (∀ id, (vmGetById id).run h = some (live.find? fun a => h.idOf a = some id, h)) ∧
    (∀ maxCount, h.hv.vmCount ≤ maxCount →
      (vmEnumerate maxCount).run h = some (live.filterMap h.idOf, h)) ∧
    ∃ h', hypervisorShutdown.run h = some (live, h') ∧ h'.hv.vms = none ∧ h'.hv.vmCount = 0 ∧
      ∀ a, h'.vms a = none := by
  have hi : RegistryInv 0 live h := registryRun_spec ops (hboot.registryInv hops) live h hrun
  have hcount : h.hv.vmCount.toNat = live.length := by
    have hlt := hi.length
    have hmax := h.hv.nextVmId.toNat_lt
    rw [hi.registry.count, UInt32.toNat_ofNat']
    apply Nat.mod_eq_of_lt
    omega
  have hid : ∀ a, ∀ id, h.idOf a = some id → ∃ v, h.vms a = some v ∧ v.id = id := by
    intro a id ha
    rw [Host.idOf, Option.map_eq_some_iff] at ha
    exact ha
  refine ⟨hi.registry.doublyLinked, hi.registry.nodup, hcount, ?_, ?_,
    vmGetById_spec hi.good hi.registry, fun maxCount hmax => ?_,
    hypervisorShutdown_spec hi.good hi.registry⟩
  · apply hi.registry.nodup.filterMap
    intro a b id ha hb
    obtain ⟨v, hv, hva⟩ := hid a id ha
    obtain ⟨w, hw, hwb⟩ := hid b id hb
    exact hi.ids.inj a b v w hv hw (hva.trans hwb.symm)
  · intro id hmem
    obtain ⟨a, -, ha⟩ := List.mem_filterMap.mp hmem
    obtain ⟨v, hv, rfl⟩ := hid a id ha
    exact hi.ids.lt a v hv
  · apply vmEnumerate_spec hi.good hi.registry
    rw [← hcount]
    exact UInt32.le_iff_toNat_le.mp hmax

theorem registry_refines_list_two_creations : ∃ h,
    (registryRun [.create {}, .create {}, .destroy 16384] []).run (bootHost 1 .intel) =
        some ([81920], h) ∧
      DoublyLinked h none [81920] h.hv.vms ∧ h.hv.vmCount.toNat = 1 := by
  have hlive : ((registryRun [.create {}, .create {}, .destroy 16384] []).run
      (bootHost 1 .intel)).map Prod.fst = some [81920] := by decide +kernel
  obtain ⟨⟨live, h⟩, hrun, hfst⟩ := Option.map_eq_some_iff.mp hlive
  obtain rfl : live = [81920] := hfst
  obtain ⟨hlinked, -, hcount, -⟩ :=
    registry_refines_list (boot_bootHost (by decide) .intel) (by decide) hrun
  exact ⟨h, hrun, hlinked, hcount⟩

end NexusVM
