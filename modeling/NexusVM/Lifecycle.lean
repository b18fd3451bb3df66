import NexusVM.Objects

/-!
# The lifecycle of a VM

* `Coherent`, `Good`: the flags of the vCPUs agree with the state of their VM, for every VM;
* `StopsAll`, `StartsAll`, `Host.mapVcpus`: what the loops over the vCPUs of a VM do;
* `VmStep`: a call on a VM touches its vCPUs and sets its state;
* **`vmStart_spec`**, `vmStop_spec`, `vmPause_spec`, `vmResume_spec`, `vmReset_spec`: what each
  call does, and that it keeps `Good`.
-/

namespace NexusVM

open Prog

/-- The flags of the vCPUs agree with the state of the VM. -/
structure Coherent (h : Host) (v : Nexusvm) : Prop where
  running : v.state = .running → ∀ c ∈ v.vcpus, ∀ u, h.vcpus c = some u →
    u.running = true ∧ u.initialized = true
  stopped : v.state ≠ .running → ∀ c ∈ v.vcpus, ∀ u, h.vcpus c = some u → u.running = false
  paused : v.state = .paused → ∀ c ∈ v.vcpus, ∀ u, h.vcpus c = some u → u.initialized = true

/-- Objects are laid out, and all VMs are coherent. -/
structure Good (h : Host) : Prop where
  layout : Layout (fun _ => True) h
  coherent : ∀ a v, h.vms a = some v → Coherent h v

/-- The scheduling entity of a vCPU. -/
def Host.entityOf (h : Host) (c : Addr) : Option Addr := (h.vcpus c).bind Nexusvcpu.schedEntity

/-- Take some entities out of their queues, one after the other. -/
def unlinkAll (l : DList.Links Node) (es : List Addr) : DList.Links Node :=
  es.foldl (fun l e => listDel l (.entity e)) l

theorem unlinkAll_append (l : DList.Links Node) (es fs : List Addr) :
    unlinkAll l (es ++ fs) = unlinkAll (unlinkAll l es) fs :=
  List.foldl_append

variable {P : Addr → Prop} {h h' : Host} {a : Addr} {v : Nexusvm}

/-! ## Loops -/

/-- The state after the vCPUs `cs` were stopped. -/
structure StopsAll (cs : List Addr) (h h' : Host) : Prop where
  touches : Touches cs h h'
  stopped : ∀ c ∈ cs, ∀ u, h'.vcpus c = some u → u.running = false
  entityOf : h'.entityOf = h.entityOf
  entities : h'.entities = h.entities
  links : h'.links = unlinkAll h.links (cs.filterMap h.entityOf)
  mem : h'.mem = h.mem

theorem stopAll_spec (hl : Layout P h) {cs : List Addr} (hcs : ∀ c ∈ cs, h.vcpus c ≠ none) :
    wp (forEach (fun c => discard (vcpuStop (some c))) cs)
      (fun _ h' => Layout P h' ∧ StopsAll cs h h') h := by
  -- the invariant after the vCPUs `pre`, with the frame stated for the whole list
  refine wp_mono (wp_forEach _ (fun pre h₁ => Layout P h₁ ∧ Touches cs h h₁ ∧
    (∀ c ∈ pre, ∀ u, h₁.vcpus c = some u → u.running = false) ∧ h₁.entityOf = h.entityOf ∧
    h₁.entities = h.entities ∧ h₁.links = unlinkAll h.links (pre.filterMap h.entityOf) ∧
    h₁.mem = h.mem) cs ?_
    ⟨hl, Touches.refl cs h, fun _ hc => (List.not_mem_nil hc).elim, rfl, rfl, rfl, rfl⟩) ?_
  · rintro pre c post h₁ hpre ⟨hl₁, ht₁, hstop₁, hent₁, hents₁, hlinks₁, hmem₁⟩
    have hc : c ∈ cs := by rw [hpre]; exact List.mem_append_right _ List.mem_cons_self
    obtain ⟨u₀, hu₀⟩ := Option.ne_none_iff_exists'.mp (hcs c hc)
    obtain ⟨u, hu, -⟩ := ht₁.owns c u₀ hu₀
    obtain ⟨hwp, hl', ht'⟩ := vcpuStop_spec hl₁ hu
    rw [wp_discard]
    refine wp_mono hwp ?_
    rintro r h' ⟨-, rfl⟩
    have hself : (h₁.stopVcpu c u).vcpus c = some { u with running := false } :=
      Function.update_self _ _ _
    have hother : ∀ d, d ≠ c → (h₁.stopVcpu c u).vcpus d = h₁.vcpus d := fun d hd =>
      Function.update_of_ne hd _ _
    refine ⟨hl', ht₁.trans (ht'.mono fun d hd => List.mem_singleton.mp hd ▸ hc), fun d hd w hw => ?_,
      ?_, hents₁, ?_, hmem₁⟩
    · by_cases hdc : d = c
      · subst hdc
        rw [hself] at hw
        cases hw
        rfl
      · rw [hother d hdc] at hw
        rcases List.mem_append.mp hd with hd | hd
        · exact hstop₁ d hd w hw
        · exact absurd (List.mem_singleton.mp hd) hdc
    · rw [← hent₁]
      funext d
      by_cases hdc : d = c
      · subst hdc
        rw [Host.entityOf, Host.entityOf, hself, hu]
        rfl
      · rw [Host.entityOf, Host.entityOf, hother d hdc]
    · have hcu : h.entityOf c = u.schedEntity := by rw [← hent₁, Host.entityOf, hu]; rfl
      rw [List.filterMap_append, unlinkAll_append, ← hlinks₁]
      cases he : u.schedEntity <;> simp [Host.stopVcpu, unlinkAll, hcu, he]
  · rintro _ h₁ ⟨hl₁, ht₁, hstop₁, hent₁, hents₁, hlinks₁, hmem₁⟩
    exact ⟨hl₁, ht₁, hstop₁, hent₁, hents₁, hlinks₁, hmem₁⟩

/-- **The loop of `vm_start`.** An invariant of the vCPUs already started and of those left. -/
theorem wp_startVcpus {I : List Addr → List Addr → Host → Prop} {Q : Result → Host → Prop}
    (step : ∀ started c cs h, I started (c :: cs) h → wp (vcpuStart (some c)) (fun r h' =>
      (r = .ok → I (started ++ [c]) cs h') ∧
      (r ≠ .ok → wp (forEach (fun d => discard (vcpuStop (some d))) started)
        (fun _ h'' => Q r h'') h')) h)
    (done : ∀ started h, I started [] h → Q .ok h) {started cs : List Addr} {h : Host}
    (hI : I started cs h) : wp (startVcpus started cs) Q h := by
  induction cs generalizing started h with
  | nil =>
    rw [startVcpus, wp_pure]
    exact done started h hI
  | cons c cs ih =>
    rw [startVcpus, wp_bind]
    refine wp_mono (step started c cs h hI) fun r h' hr => ?_
    refine wp_ite (fun hne => ?_) fun hne => ?_
    · simp only [wp_bind, wp_pure]
      exact hr.2 hne
    · exact ih (hr.1 (not_not.mp hne))

/-- The state in which `f` was applied to the vCPUs `cs`. -/
def Host.mapVcpus (h : Host) (cs : List Addr) (f : Nexusvcpu → Nexusvcpu) : Host :=
  { h with vcpus := fun c => if c ∈ cs then (h.vcpus c).map f else h.vcpus c }

theorem updateAll_spec {body : Addr → HostM Unit} {f : Nexusvcpu → Nexusvcpu}
    (hbody : ∀ h c u, h.vcpus c = some u →
      wp (body c) (fun _ h' => h' = h.setVcpu c (some (f u))) h)
    {cs : List Addr} (hnd : cs.Nodup) (hcs : ∀ c ∈ cs, h.vcpus c ≠ none) :
    wp (forEach body cs) (fun _ h' => h' = h.mapVcpus cs f) h := by
  refine wp_forEach body (fun pre h₁ => h₁ = h.mapVcpus pre f) cs ?_ ?_
  · rintro pre c post h₁ hpre rfl
    have hc : c ∈ cs := by rw [hpre]; exact List.mem_append_right _ List.mem_cons_self
    have hcpre : c ∉ pre := fun hmem => by
      rw [hpre] at hnd
      exact (List.nodup_append.mp hnd).2.2 c hmem c List.mem_cons_self rfl
    obtain ⟨u, hu⟩ := Option.ne_none_iff_exists'.mp (hcs c hc)
    refine wp_mono (hbody _ c u ?_) ?_
    · simp only [Host.mapVcpus, if_neg hcpre, hu]
    · rintro _ h' rfl
      simp only [Host.setVcpu, Host.mapVcpus, Host.mk.injEq, true_and, and_true]
      funext d
      by_cases hdc : d = c
      · subst hdc
        rw [Function.update_self, if_pos (by simp), hu]
        rfl
      · simp [hdc]
  · simp [Host.mapVcpus]

theorem Host.mapVcpus_vcpus_of_mem {cs : List Addr} {f : Nexusvcpu → Nexusvcpu} {c : Addr}
    (hc : c ∈ cs) : (h.mapVcpus cs f).vcpus c = (h.vcpus c).map f := if_pos hc

theorem Host.mapVcpus_vcpus_of_notMem {cs : List Addr} {f : Nexusvcpu → Nexusvcpu} {c : Addr}
    (hc : c ∉ cs) : (h.mapVcpus cs f).vcpus c = h.vcpus c := if_neg hc

section Map

variable {f : Nexusvcpu → Nexusvcpu} (cs : List Addr) (hvm : ∀ u, (f u).vm = u.vm)
  (hse : ∀ u, (f u).schedEntity = u.schedEntity)

include hvm hse

theorem mapVcpus_back {c : Addr} {u : Nexusvcpu} (hu : (h.mapVcpus cs f).vcpus c = some u) :
    ∃ u', h.vcpus c = some u' ∧ u'.vm = u.vm ∧ u'.schedEntity = u.schedEntity := by
  by_cases hc : c ∈ cs
  · rw [Host.mapVcpus_vcpus_of_mem hc, Option.map_eq_some_iff] at hu
    obtain ⟨u', hu', rfl⟩ := hu
    exact ⟨u', hu', (hvm u').symm, (hse u').symm⟩
  · rw [Host.mapVcpus_vcpus_of_notMem hc] at hu
    exact ⟨u, hu, rfl, rfl⟩

theorem Layout.mapVcpus (hl : Layout P h) : Layout P (h.mapVcpus cs f) := by
  refine { hl with
    vcpuHeld := fun c u hu => ?_
    vcpus := fun b w hb hw c hc => ?_
    entity := fun c u e hu he => ?_
    inj := fun c c' u u' e hu hu' he he' => ?_ }
  · obtain ⟨u', hu', -⟩ := mapVcpus_back cs hvm hse hu
    exact hl.vcpuHeld c u' hu'
  · obtain ⟨u, hu, hub⟩ := hl.vcpus b w hb hw c hc
    by_cases hcs : c ∈ cs
    · exact ⟨f u, by rw [Host.mapVcpus_vcpus_of_mem hcs, hu]; rfl, (hvm u).trans hub⟩
    · exact ⟨u, by rw [Host.mapVcpus_vcpus_of_notMem hcs, hu], hub⟩
  · obtain ⟨u', hu', -, hs⟩ := mapVcpus_back cs hvm hse hu
    exact hl.entity c u' e hu' (hs.trans he)
  · obtain ⟨x, hx, -, hs⟩ := mapVcpus_back cs hvm hse hu
    obtain ⟨x', hx', -, hs'⟩ := mapVcpus_back cs hvm hse hu'
    exact hl.inj c c' x x' e hx hx' (hs.trans he) (hs'.trans he')

theorem Touches.mapVcpus (hi : ∀ u, u.initialized → (f u).initialized) :
    Touches cs h (h.mapVcpus cs f) := by
  refine { Touches.refl cs h with
    statics := ⟨rfl, rfl, rfl, rfl, rfl⟩
    others := fun c hc => Host.mapVcpus_vcpus_of_notMem hc
    owns := fun c u hu => ?_ }
  by_cases hc : c ∈ cs
  · exact ⟨f u, by rw [Host.mapVcpus_vcpus_of_mem hc, hu]; rfl, hvm u, hi u,
      fun e he => (hse u).trans he⟩
  · exact ⟨u, by rw [Host.mapVcpus_vcpus_of_notMem hc, hu], rfl, id, fun _ => id⟩

end Map

/-! ## Starting the vCPUs -/

/-- The state after the vCPUs `cs` were started in turn, from `h₀` on. -/
inductive StartsAll (h₀ : Host) : List Addr → Host → Prop
  | nil : StartsAll h₀ [] h₀
  | snoc {cs : List Addr} {c : Addr} {u : Nexusvcpu} {h h' : Host} : StartsAll h₀ cs h →
      h.vcpus c = some u → Touches [c] h h' → Starts c u h .ok h' → StartsAll h₀ (cs ++ [c]) h'

theorem StartsAll.touches {h₀ : Host} {cs : List Addr} (hs : StartsAll h₀ cs h) :
    Touches cs h₀ h := by
  induction hs with
  | nil => exact Touches.refl [] h₀
  | snoc _ _ ht _ ih =>
    apply (ih.mono ?_).trans (ht.mono ?_)
    · exact fun d hd => List.mem_append_left _ hd
    · exact fun d hd => List.mem_append_right _ hd

theorem StartsAll.running {h₀ : Host} {cs : List Addr} (hs : StartsAll h₀ cs h) :
    ∀ c ∈ cs, ∀ u, h.vcpus c = some u → u.running = true ∧ u.initialized = true := by
  induction hs with
  | nil => exact fun c hc => absurd hc List.not_mem_nil
  | @snoc cs c u h h' _ _ ht hst ih =>
    obtain ⟨w, hw, ⟨-, hrun, hini, -⟩ | ⟨hne, -⟩⟩ := hst
    swap
    · exact absurd rfl hne
    intro d hd x hx
    by_cases hdc : d = c
    · subst hdc
      rw [hw] at hx
      cases hx
      exact ⟨hrun, hini⟩
    · have hd' : d ∈ cs := by
        rcases List.mem_append.mp hd with hd | hd
        · exact hd
        · exact absurd (List.mem_singleton.mp hd) hdc
      rw [ht.others d (fun hc => hdc (List.mem_singleton.mp hc))] at hx
      exact ih d hd' x hx

theorem notMem_of_nodup_append {cs : List Addr} {c : Addr} (hnd : (cs ++ [c]).Nodup) : c ∉ cs :=
  fun hc => (List.nodup_append.mp hnd).2.2 c hc c (List.mem_singleton_self c) rfl

/-- What the loop of `vm_start` has done: every vCPU is started, or one could not be and those
before it were stopped again. -/
def StartLoop (cs : List Addr) (h : Host) (r : Result) (h' : Host) : Prop :=
  (r = .ok ∧ StartsAll h cs h') ∨
  (r ≠ .ok ∧ ∃ started c u h₁ h₂, (∀ d ∈ started, d ∈ cs) ∧ c ∈ cs ∧ (started ++ [c]).Nodup ∧
    StartsAll h started h₁ ∧ h₁.vcpus c = some u ∧ Touches [c] h₁ h₂ ∧ Starts c u h₁ r h₂ ∧
    StopsAll started h₂ h')

theorem startVcpus_spec (hl : Layout P h) {cs : List Addr} (hnd : cs.Nodup)
    (hcs : ∀ c ∈ cs, ∃ u, h.vcpus c = some u ∧ u.running = false ∧ h.vms u.vm ≠ none) :
    wp (startVcpus [] cs) (fun r h' => Layout P h' ∧ StartLoop cs h r h') h := by
  refine wp_startVcpus (I := fun started rest h₁ => started ++ rest = cs ∧ Layout P h₁ ∧
    StartsAll h started h₁) ?_ ?_ ⟨rfl, hl, .nil⟩
  · rintro started c rest h₁ ⟨heq, hl₁, hs⟩
    have hc : c ∈ cs := by rw [← heq]; exact List.mem_append_right _ List.mem_cons_self
    have hsub : ∀ d ∈ started, d ∈ cs := fun d hd => by
      rw [← heq]; exact List.mem_append_left _ hd
    have hndc : (started ++ [c]).Nodup := by
      rw [← heq] at hnd
      exact hnd.sublist (List.Sublist.append_left (List.singleton_sublist.mpr List.mem_cons_self) _)
    have hnot : c ∉ started := notMem_of_nodup_append hndc
    -- the vCPU is as it was before the loop
    obtain ⟨u, hu, hrun, hvm⟩ := hcs c hc
    have hu₁ : h₁.vcpus c = some u := (hs.touches.others c hnot).trans hu
    have hvm₁ : h₁.vms u.vm ≠ none := by rw [hs.touches.vms]; exact hvm
    refine wp_mono (vcpuStart_spec hl₁ hu₁ hvm₁ hrun) ?_
    rintro r h₂ ⟨hl₂, ht₂, hst⟩
    constructor
    · rintro rfl
      exact ⟨by rw [List.append_assoc]; exact heq, hl₂, hs.snoc hu₁ ht₂ hst⟩
    · intro hr
      have hex : ∀ d ∈ started, h₂.vcpus d ≠ none := by
        intro d hd
        obtain ⟨w, hw, -⟩ := hcs d (hsub d hd)
        obtain ⟨w₁, hw₁, -⟩ := hs.touches.owns d w hw
        obtain ⟨w₂, hw₂, -⟩ := ht₂.owns d w₁ hw₁
        rw [hw₂]
        exact Option.some_ne_none w₂
      refine wp_mono (stopAll_spec hl₂ hex) ?_
      rintro _ h' ⟨hl', hstop⟩
      exact ⟨hl', .inr ⟨hr, started, c, u, h₁, h₂, hsub, hc, hndc, hs, hu₁, ht₂, hst, hstop⟩⟩
  · rintro started h₁ ⟨heq, hl₁, hs⟩
    rw [List.append_nil] at heq
    subst heq
    exact ⟨hl₁, .inl ⟨rfl, hs⟩⟩

theorem StartLoop.touches {cs : List Addr} {r : Result} (hs : StartLoop cs h r h') :
    Touches cs h h' := by
  obtain ⟨-, hs⟩ | ⟨-, started, c, u, h₁, h₂, hsub, hc, -, hs, -, ht, -, hstop⟩ := hs
  · exact hs.touches
  · refine (hs.touches.mono hsub).trans ((ht.mono ?_).trans (hstop.touches.mono hsub))
    intro d hd
    exact List.mem_singleton.mp hd ▸ hc

theorem StartLoop.stopped {cs : List Addr} {r : Result} (hs : StartLoop cs h r h') (hr : r ≠ .ok)
    (hrun : ∀ c ∈ cs, ∀ u, h.vcpus c = some u → u.running = false) :
    ∀ c ∈ cs, ∀ u, h'.vcpus c = some u → u.running = false := by
  obtain ⟨rfl, -⟩ | ⟨-, started, c, u, h₁, h₂, hsub, hc, -, hs, -, ht, hst, hstop⟩ := hs
  · exact absurd rfl hr
  intro d hd w hw
  by_cases hds : d ∈ started
  · exact hstop.stopped d hds w hw
  rw [hstop.touches.others d hds] at hw
  by_cases hdc : d = c
  · subst hdc
    obtain ⟨x, hx, ⟨rfl, -⟩ | ⟨-, hfalse, -⟩⟩ := hst
    · exact absurd rfl hr
    · rw [hx] at hw
      cases hw
      exact hfalse
  · rw [ht.others d (fun hmem => hdc (List.mem_singleton.mp hmem)), hs.touches.others d hds] at hw
    exact hrun d hd w hw

/-! ## Calls -/

/-- What a call on the VM at `a` leaves behind that touched its vCPUs, maybe cleared its root, and
set its state. -/
def VmStep (a : Addr) (v : Nexusvm) (s : VmState) (h h' : Host) : Prop :=
  ∃ h₁ m, Touches v.vcpus h h₁ ∧ m.heap = h₁.mem.heap ∧
    h' = (h₁.setMem m).setVm a (some { v with state := s })

theorem Layout.setMem (hl : Layout P h) {m : PhysMem} (hm : m.heap = h.mem.heap) :
    Layout P (h.setMem m) := by
  refine hl.same ⟨rfl, rfl, rfl, rfl, rfl⟩ rfl rfl rfl rfl ?_
  intro b hb
  rw [Host.setMem_mem, hm]
  exact hb

theorem Layout.setVm (hl : Layout P h) (hv : h.vms a = some v) {w : Nexusvm}
    (hvcpus : w.vcpus = v.vcpus) (hcount : w.vcpuCount = v.vcpuCount)
    (hroot : w.eptRoot = v.eptRoot) : Layout P (h.setVm a (some w)) := by
  -- every VM of the new state has a predecessor with the same vCPUs and root
  have hold : ∀ b x, (h.setVm a (some w)).vms b = some x → ∃ y, h.vms b = some y ∧
      y.vcpus = x.vcpus ∧ y.vcpuCount = x.vcpuCount ∧ y.eptRoot = x.eptRoot := by
    intro b x hx
    rw [Host.setVm_vms] at hx
    by_cases hba : b = a
    · subst hba
      rw [Function.update_self] at hx
      cases hx
      exact ⟨v, hv, hvcpus.symm, hcount.symm, hroot.symm⟩
    · rw [Function.update_of_ne hba] at hx
      exact ⟨x, hx, rfl, rfl, rfl⟩
  refine { hl with vmHeld := ?_, count := ?_, nodup := ?_, vcpus := ?_, root := ?_, rootInj := ?_ }
  · intro b x hx
    obtain ⟨y, hy, -⟩ := hold b x hx
    exact hl.vmHeld b y hy
  · intro b x hP hx
    obtain ⟨y, hy, hxs, hn, -⟩ := hold b x hx
    rw [← hxs, ← hn]
    exact hl.count b y hP hy
  · intro b x hP hx
    obtain ⟨y, hy, hxs, -⟩ := hold b x hx
    rw [← hxs]
    exact hl.nodup b y hP hy
  · intro b x hP hx
    obtain ⟨y, hy, hxs, -⟩ := hold b x hx
    rw [← hxs]
    exact hl.vcpus b y hP hy
  · intro b x r hP hx hr
    obtain ⟨y, hy, -, -, hyr⟩ := hold b x hx
    exact hl.root b y r hP hy (hyr.trans hr)
  · intro b b' x x' r hP hP' hx hx' hr hr'
    obtain ⟨y, hy, -, -, hyr⟩ := hold b x hx
    obtain ⟨y', hy', -, -, hyr'⟩ := hold b' x' hx'
    exact hl.rootInj b b' y y' r hP hP' hy hy' (hyr.trans hr) (hyr'.trans hr')

theorem Layout.vcpus_disjoint (hl : Layout (fun _ => True) h) (hv : h.vms a = some v) {b : Addr}
    {w : Nexusvm} (hw : h.vms b = some w) (hba : b ≠ a) : ∀ c ∈ w.vcpus, c ∉ v.vcpus := by
  intro c hcw hcv
  obtain ⟨u, hu, hub⟩ := hl.vcpus b w trivial hw c hcw
  obtain ⟨x, hx, hxa⟩ := hl.vcpus a v trivial hv c hcv
  rw [hu] at hx
  cases hx
  exact hba (hub.symm.trans hxa)

/-- **A call on one VM keeps the others coherent.** -/
theorem Good.step (hg : Good h) (hv : h.vms a = some v) {h₁ : Host} {m : PhysMem}
    {s : VmState} (ht : Touches v.vcpus h h₁) (hl : Layout (fun _ => True) h₁)
    (hm : m.heap = h₁.mem.heap) (hc : Coherent h₁ { v with state := s }) :
    Good ((h₁.setMem m).setVm a (some { v with state := s })) := by
  have hv₁ : h₁.vms a = some v := by rw [ht.vms]; exact hv
  refine ⟨(hl.setMem hm).setVm hv₁ rfl rfl rfl, fun b w hw => ?_⟩
  rw [Host.setVm_vms, Host.setMem_vms] at hw
  by_cases hba : b = a
  · subst hba
    rw [Function.update_self] at hw
    cases hw
    exact ⟨hc.running, hc.stopped, hc.paused⟩
  · rw [Function.update_of_ne hba, ht.vms] at hw
    have hcw := hg.coherent b w hw
    have hsame : ∀ c ∈ w.vcpus, h₁.vcpus c = h.vcpus c := fun c hc =>
      ht.others c (hg.layout.vcpus_disjoint hv hw hba c hc)
    exact ⟨fun hs c hc u hu => hcw.running hs c hc u ((hsame c hc).symm.trans hu),
      fun hs c hc u hu => hcw.stopped hs c hc u ((hsame c hc).symm.trans hu),
      fun hs c hc u hu => hcw.paused hs c hc u ((hsame c hc).symm.trans hu)⟩

/-- What `vm_start` has done to the VM at `a`. -/
def StartCall (a : Addr) (v : Nexusvm) (h : Host) (r : Result) (h' : Host) : Prop :=
  (v.state = .initialized ∨ v.state = .paused ∨ v.state = .shutdown) ∧
  ((r = .ok ∧ ∃ h₁, StartLoop v.vcpus h .ok h₁ ∧
      h' = h₁.setVm a (some { v with state := .running })) ∨
    (r ≠ .ok ∧ StartLoop v.vcpus h r h'))

/-- **`vm_start`.** -/
theorem vmStart_spec (hg : Good h) (hv : h.vms a = some v) :
    wp (vmStart (some a)) (fun r h' => Good h' ∧ (h' = h ∨ StartCall a v h r h')) h := by
  rw [vmStart, wp_bind, wp_getVm]
  refine ⟨v, hv, wp_ite (fun _ => ?_) fun hne => wp_ite (fun _ => ?_) fun hstate => ?_⟩
  · rw [wp_pure]
    exact ⟨hg, .inl rfl⟩
  · rw [wp_pure]
    exact ⟨hg, .inl rfl⟩
  have hco := hg.coherent a v hv
  have hstate' : v.state = .initialized ∨ v.state = .paused ∨ v.state = .shutdown := by
    by_contra hc
    simp only [not_or] at hc
    exact hstate hc
  rw [wp_bind]
  refine wp_mono (startVcpus_spec hg.layout (hg.layout.nodup a v trivial hv) ?_) ?_
  · intro c hc
    obtain ⟨u, hu, hua⟩ := hg.layout.vcpus a v trivial hv c hc
    refine ⟨u, hu, hco.stopped hne c hc u hu, ?_⟩
    rw [hua, hv]
    exact Option.some_ne_none v
  rintro r h₁ ⟨hl₁, hloop⟩
  have ht := hloop.touches
  have hv₁ : h₁.vms a = some v := by rw [ht.vms]; exact hv
  refine wp_ite (fun hr => ?_) fun hr => ?_
  · -- the call failed: the state stays, and no vCPU runs
    rw [wp_pure]
    have hsame : h₁ = (h₁.setMem h₁.mem).setVm a (some { v with state := v.state }) := by
      simp only [Host.setVm, Host.setMem, ← hv₁, Function.update_eq_self]
    refine ⟨?_, .inr ⟨hstate', .inr ⟨hr, hloop⟩⟩⟩
    rw [hsame]
    refine hg.step hv ht hl₁ rfl ⟨fun hc => absurd hc hne, fun _ => ?_, fun hp => ?_⟩
    · exact hloop.stopped hr (hco.stopped hne)
    · intro c hc u hu
      obtain ⟨w, hw, -⟩ := hg.layout.vcpus a v trivial hv c hc
      obtain ⟨u', hu', -, hini, -⟩ := ht.owns c w hw
      rw [hu] at hu'
      cases hu'
      exact hini (hco.paused hp c hc w hw)
  · obtain rfl := not_not.mp hr
    simp only [wp_bind, wp_getVm, wp_putVm, wp_pure]
    refine ⟨v, hv₁, ?_, .inr ⟨hstate', .inl ⟨rfl, h₁, hloop, rfl⟩⟩⟩
    refine hg.step hv ht (m := h₁.mem) hl₁ rfl ⟨fun _ => ?_, fun hc => ?_, fun hc => ?_⟩
    · obtain ⟨-, hs⟩ | ⟨hc, -⟩ := hloop
      · exact hs.running
      · exact absurd rfl hc
    · exact absurd rfl hc
    · cases hc

/-- **`vm_stop`.** -/
theorem vmStop_spec (hg : Good h) (hv : h.vms a = some v) :
    wp (vmStop (some a)) (fun _ h' => Good h' ∧ (v.state ≠ .running ∧ h' = h ∨
      v.state = .running ∧ ∃ h₁, StopsAll v.vcpus h h₁ ∧
        h' = h₁.setVm a (some { v with state := .shutdown }))) h := by
  rw [vmStop, wp_bind, wp_getVm]
  refine ⟨v, hv, wp_ite (fun hne => ?_) fun hrun => ?_⟩
  · rw [wp_pure]
    exact ⟨hg, .inl ⟨hne, rfl⟩⟩
  rw [wp_bind]
  refine wp_mono (stopAll_spec hg.layout ?_) ?_
  · intro c hc
    obtain ⟨u, hu, -⟩ := hg.layout.vcpus a v trivial hv c hc
    rw [hu]
    exact Option.some_ne_none u
  rintro _ h₁ ⟨hl₁, hs⟩
  simp only [wp_bind, wp_getVm, wp_putVm, wp_pure]
  refine ⟨v, by rw [hs.touches.vms]; exact hv, ?_, .inr ⟨not_not.mp hrun, h₁, hs, rfl⟩⟩
  refine hg.step hv hs.touches (m := h₁.mem) hl₁ rfl ⟨fun hc => ?_, fun _ => hs.stopped, fun hc => ?_⟩
  · cases hc
  · cases hc

theorem Good.vcpus_ne (hg : Good h) (hv : h.vms a = some v) : ∀ c ∈ v.vcpus, h.vcpus c ≠ none := by
  intro c hc
  obtain ⟨u, hu, -⟩ := hg.layout.vcpus a v trivial hv c hc
  rw [hu]
  exact Option.some_ne_none u

/-- A vCPU after a pause, a resumption or a reset of its VM. -/
def Nexusvcpu.pause (u : Nexusvcpu) : Nexusvcpu := { u with running := false }

@[inherit_doc Nexusvcpu.pause]
def Nexusvcpu.resume (u : Nexusvcpu) : Nexusvcpu :=
  { u with running := u.running || u.initialized }

@[inherit_doc Nexusvcpu.pause]
def Nexusvcpu.reset (u : Nexusvcpu) : Nexusvcpu := { u with cpuState := resetState }

section Updates

variable {cs : List Addr} (hnd : cs.Nodup) (hcs : ∀ c ∈ cs, h.vcpus c ≠ none)

include hnd hcs

theorem pauseAll_spec : wp (forEach (fun c => do
    let u ← getVcpu c
    Prog.when u.running (putVcpu c { u with running := false })) cs)
      (fun _ h' => h' = h.mapVcpus cs Nexusvcpu.pause) h := by
  refine updateAll_spec (fun h c u hu => ?_) hnd hcs
  rw [wp_bind, wp_getVcpu]
  refine ⟨u, hu, wp_when.mpr ⟨fun _ => ?_, fun hn => ?_⟩⟩
  · rw [wp_putVcpu, Nexusvcpu.pause]
  · have hsame : u.pause = u := by
      rw [Bool.not_eq_true] at hn
      rw [Nexusvcpu.pause, ← hn]
    rw [hsame, Host.setVcpu, ← hu, Function.update_eq_self]

theorem resumeAll_spec : wp (forEach (fun c => do
    let u ← getVcpu c
    Prog.when u.initialized (putVcpu c { u with running := true })) cs)
      (fun _ h' => h' = h.mapVcpus cs Nexusvcpu.resume) h := by
  refine updateAll_spec (fun h c u hu => ?_) hnd hcs
  rw [wp_bind, wp_getVcpu]
  refine ⟨u, hu, wp_when.mpr ⟨fun hi => ?_, fun hn => ?_⟩⟩
  · rw [wp_putVcpu, Nexusvcpu.resume, hi, Bool.or_true]
  · rw [Bool.not_eq_true] at hn
    rw [Nexusvcpu.resume, hn, Bool.or_false, ← hn, Host.setVcpu, ← hu, Function.update_eq_self]

theorem resetAll_spec : wp (forEach (fun c => do
    putVcpu c { ← getVcpu c with cpuState := resetState }) cs)
      (fun _ h' => h' = h.mapVcpus cs Nexusvcpu.reset) h := by
  refine updateAll_spec (fun h c u hu => ?_) hnd hcs
  simp only [wp_bind, wp_getVcpu, wp_putVcpu]
  exact ⟨u, hu, rfl⟩

end Updates

/-- **`vm_pause`.** The flags are cleared, the entities stay in their queues. -/
theorem vmPause_spec (hg : Good h) (hv : h.vms a = some v) :
    wp (vmPause (some a)) (fun _ h' => Good h' ∧ (h' = h ∨ v.state = .running ∧
      h' = (h.mapVcpus v.vcpus Nexusvcpu.pause).setVm a
        (some { v with state := .paused }))) h := by
  have hco := hg.coherent a v hv
  rw [vmPause, wp_bind, wp_getVm]
  refine ⟨v, hv, wp_ite (fun _ => ?_) fun hrun => ?_⟩
  · rw [wp_pure]
    exact ⟨hg, .inl rfl⟩
  rw [not_not] at hrun
  rw [wp_bind]
  refine wp_mono (pauseAll_spec (hg.layout.nodup a v trivial hv) (hg.vcpus_ne hv)) ?_
  rintro _ h₁ rfl
  simp only [wp_bind, wp_getVm, wp_putVm, wp_pure]
  refine ⟨v, hv, ?_, .inr ⟨hrun, rfl⟩⟩
  have ht := Touches.mapVcpus (h := h) (f := Nexusvcpu.pause) v.vcpus
    (fun _ => rfl) (fun _ => rfl) fun _ => id
  refine hg.step hv ht (m := h.mem)
    (hg.layout.mapVcpus v.vcpus (fun _ => rfl) fun _ => rfl) rfl ⟨fun hc => ?_, fun _ => ?_, fun _ => ?_⟩
  · cases hc
  · intro c hc u hu
    rw [Host.mapVcpus_vcpus_of_mem hc, Option.map_eq_some_iff] at hu
    obtain ⟨w, -, rfl⟩ := hu
    rfl
  · intro c hc u hu
    rw [Host.mapVcpus_vcpus_of_mem hc, Option.map_eq_some_iff] at hu
    obtain ⟨w, hw, rfl⟩ := hu
    exact (hco.running hrun c hc w hw).2

/-- **`vm_resume`.** -/
theorem vmResume_spec (hg : Good h) (hv : h.vms a = some v) :
    wp (vmResume (some a)) (fun _ h' => Good h' ∧ (h' = h ∨ v.state = .paused ∧
      h' = (h.mapVcpus v.vcpus Nexusvcpu.resume).setVm a
        (some { v with state := .running }))) h := by
  have hco := hg.coherent a v hv
  rw [vmResume, wp_bind, wp_getVm]
  refine ⟨v, hv, wp_ite (fun _ => ?_) fun hpaused => ?_⟩
  · rw [wp_pure]
    exact ⟨hg, .inl rfl⟩
  rw [not_not] at hpaused
  rw [wp_bind]
  refine wp_mono (resumeAll_spec (hg.layout.nodup a v trivial hv) (hg.vcpus_ne hv)) ?_
  rintro _ h₁ rfl
  simp only [wp_bind, wp_getVm, wp_putVm, wp_pure]
  refine ⟨v, hv, ?_, .inr ⟨hpaused, rfl⟩⟩
  have ht := Touches.mapVcpus (h := h) (f := Nexusvcpu.resume) v.vcpus (fun _ => rfl)
    (fun _ => rfl) fun _ => id
  refine hg.step hv ht (m := h.mem)
    (hg.layout.mapVcpus v.vcpus (fun _ => rfl) fun _ => rfl) rfl ⟨fun _ => ?_, fun hc => ?_, fun hc => ?_⟩
  · intro c hc u hu
    rw [Host.mapVcpus_vcpus_of_mem hc, Option.map_eq_some_iff] at hu
    obtain ⟨w, hw, rfl⟩ := hu
    have hi := hco.paused hpaused c hc w hw
    exact ⟨by rw [Nexusvcpu.resume, hi, Bool.or_true], hi⟩
  · exact absurd rfl hc
  · cases hc

/-- The memory after a reset of a VM. -/
def PhysMem.resetRoot (m : PhysMem) (root : Option Addr) (cold : Bool) : PhysMem :=
  match root with
  | none => m
  | some r => if cold then m.zero r 4096 else m

theorem PhysMem.resetRoot_heap (m : PhysMem) (root : Option Addr) (cold : Bool) :
    (m.resetRoot root cold).heap = m.heap := by
  unfold PhysMem.resetRoot
  split
  · rfl
  · split_ifs <;> rfl

theorem PhysMem.resetRoot_abi (m : PhysMem) (root : Option Addr) (cold : Bool) :
    (m.resetRoot root cold).abi = m.abi := by
  unfold PhysMem.resetRoot
  split
  · rfl
  · split_ifs <;> rfl

theorem clearRoot_spec {root : Option Addr} (cold : Bool)
    (hr : ∀ r, root = some r → tablePage r ∈ h.mem.heap.live) :
    wp (Prog.when cold (onMem (eptClearRoot root)))
      (fun _ h' => h' = h.setMem (h.mem.resetRoot root cold)) h := by
  cases root with
  | none => simp [eptClearRoot, PhysMem.resetRoot, Host.setMem]
  | some r =>
    have hmap : h.mem.Mapped r := ⟨tablePage r, hr r rfl, rfl, le_refl r, le_refl _⟩
    cases cold <;> simp [eptClearRoot, PhysMem.resetRoot, Host.setMem, hmap]
    rfl

/-- What stopping a VM that runs does to all but the record of the VM. -/
def StopsRunning (v : Nexusvm) (h h₁ : Host) : Prop :=
  v.state ≠ .running ∧ h₁ = h ∨ v.state = .running ∧ StopsAll v.vcpus h h₁

/-- The first step of `vm_reset` and of `vm_destroy`: after it no vCPU of the VM runs. -/
theorem stopRunning_spec (hg : Good h) (hv : h.vms a = some v) :
    wp (Prog.when (v.state = .running) (discard (vmStop (some a)))) (fun _ h' =>
      ∃ h₁ s, StopsRunning v h h₁ ∧ Touches v.vcpus h h₁ ∧ Layout (fun _ => True) h₁ ∧
        (∀ c ∈ v.vcpus, ∀ u, h₁.vcpus c = some u → u.running = false) ∧
        h' = h₁.setVm a (some { v with state := s })) h := by
  rw [wp_when]
  refine ⟨fun hrun => ?_, fun hrun => ?_⟩
  · rw [wp_discard]
    refine wp_mono (vmStop_spec hg hv) ?_
    rintro _ h' ⟨hg', ⟨hne, -⟩ | ⟨-, h₁, hs, rfl⟩⟩
    · exact absurd hrun hne
    have hv₁ : h₁.vms a = some v := by rw [hs.touches.vms]; exact hv
    refine ⟨h₁, .shutdown, .inr ⟨hrun, hs⟩, hs.touches, ?_, hs.stopped, rfl⟩
    have hback := hg'.layout.setVm (w := v) (Function.update_self a _ _) rfl rfl rfl
    rw [Host.setVm_setVm, Host.setVm, ← hv₁, Function.update_eq_self] at hback
    exact hback
  · refine ⟨h, v.state, .inl ⟨hrun, rfl⟩, Touches.refl _ _, hg.layout,
      (hg.coherent a v hv).stopped hrun, ?_⟩
    rw [Host.setVm, ← hv, Function.update_eq_self]

/-- **`vm_reset`.** A running VM is stopped first; the entities of another stay where they are. -/
theorem vmReset_spec (hg : Good h) (hv : h.vms a = some v) (cold : Bool) :
    wp (vmReset (some a) cold) (fun _ h' => Good h' ∧ ∃ h₁, StopsRunning v h h₁ ∧
      h' = ((h₁.mapVcpus v.vcpus Nexusvcpu.reset).setMem
        (h₁.mem.resetRoot v.eptRoot cold)).setVm a (some { v with state := .shutdown })) h := by
  rw [vmReset, wp_bind, wp_getVm]
  refine ⟨v, hv, ?_⟩
  rw [wp_bind]
  refine wp_mono (stopRunning_spec hg hv) ?_
  rintro _ _ ⟨h₁, s, hcase, ht, hl, hrun, rfl⟩
  have hv₁ : h₁.vms a = some v := by rw [ht.vms]; exact hv
  rw [wp_bind]
  refine wp_mono (resetAll_spec (hg.layout.nodup a v trivial hv) ?_) ?_
  · intro c hc
    obtain ⟨u, hu, -⟩ := hl.vcpus a v trivial hv₁ c hc
    rw [Host.setVm_vcpus, hu]
    exact Option.some_ne_none u
  rintro _ _ rfl
  rw [wp_bind]
  refine wp_mono (clearRoot_spec cold fun r hr => hl.root a v r trivial hv₁ hr) ?_
  rintro _ _ rfl
  simp only [wp_bind, wp_getVm, wp_putVm, wp_pure]
  refine ⟨{ v with state := s }, Function.update_self _ _ _, ?_⟩
  have hset : (((h₁.setVm a (some { v with state := s })).mapVcpus v.vcpus Nexusvcpu.reset).setMem
        (h₁.mem.resetRoot v.eptRoot cold)).setVm a (some { v with state := .shutdown }) =
      ((h₁.mapVcpus v.vcpus Nexusvcpu.reset).setMem
        (h₁.mem.resetRoot v.eptRoot cold)).setVm a (some { v with state := .shutdown }) := by
    simp only [Host.setVm, Host.setMem, Host.mapVcpus, Function.update_idem]
  have ht' := ht.trans (Touches.mapVcpus (f := Nexusvcpu.reset) v.vcpus (fun _ => rfl)
    (fun _ => rfl) fun _ => id)
  refine ⟨(congrArg Good hset).mpr ?_, h₁, hcase, hset⟩
  refine hg.step hv ht' (hl.mapVcpus v.vcpus (fun _ => rfl) fun _ => rfl)
    (h₁.mem.resetRoot_heap v.eptRoot cold) ⟨fun hc => ?_, fun _ => ?_, fun hc => ?_⟩
  · cases hc
  · intro c hc u hu
    rw [Host.mapVcpus_vcpus_of_mem hc, Option.map_eq_some_iff] at hu
    obtain ⟨u', hu', rfl⟩ := hu
    exact hrun c hc u' hu'
  · cases hc

end NexusVM
