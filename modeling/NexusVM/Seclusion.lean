import NexusVM.Identity
import NexusVM.Lib.Annex

/-!
# Entities that nothing points to

A vCPU that is taken out of its queue keeps its pointers; what matters is who points to it.

* `Host.Foreign`, `Host.Secludes`: the nodes that do not belong to some vCPUs, and that no pointer leads
  from them to the others;
* `Adds.secludes`, `StartsSeq.secludes`, **`LifeEffect.secludes`**, `SchedStep.secludes`: calls on other vCPUs;
* `StartsSeq.annexed`, **`RollsBack.secludes`**: a start that fails, whatever the queues are.
-/

namespace NexusVM

open Prog

variable {n : ℕ} {q : Fin n → List Node} {h h' h₀ h₁ : Host} {a b c d e : Addr} {v w : Nexusvm}
  {u : Nexusvcpu} {cs ds : List Addr} {r : Result} {P : Addr → Prop}

/-! ## Nodes that belong to others -/

/-- The heads, and the entities that are those of no vCPU of `cs`. -/
def Host.Foreign (h : Host) (cs : List Addr) : Set Node :=
  {x | (∃ i < h.gCpuCount.toNat, x = .head i) ∨
    ∃ e, x = .entity e ∧ h.entities e ≠ none ∧ ∀ c ∈ cs, h.entityOf c ≠ some e}

/-- No pointer leads from them to an entity of `cs`. -/
def Host.Secludes (h : Host) (cs : List Addr) : Prop := h.links.Closed (h.Foreign cs)

theorem head_mem_foreign {i : ℕ} (hi : i < h.gCpuCount.toNat) : .head i ∈ h.Foreign cs :=
  .inl ⟨i, hi, rfl⟩

theorem entity_mem_foreign : .entity e ∈ h.Foreign cs ↔
    h.entities e ≠ none ∧ ∀ c ∈ cs, h.entityOf c ≠ some e := by
  constructor
  · rintro (⟨i, -, heq⟩ | ⟨e', heq, he⟩)
    · cases heq
    · cases heq
      exact he
  · exact fun he => .inr ⟨e, rfl, he⟩

theorem foreign_congr (hcpus : h'.gCpuCount = h.gCpuCount)
    (hents : ∀ e, h'.entities e ≠ none ↔ h.entities e ≠ none)
    (hown : ∀ c ∈ cs, h'.entityOf c = h.entityOf c) : h'.Foreign cs = h.Foreign cs := by
  ext x
  cases x with
  | head i =>
    change (_ ∨ _) ↔ (_ ∨ _)
    simp only [hcpus, reduceCtorEq, false_and, exists_false]
  | entity e =>
    rw [entity_mem_foreign, entity_mem_foreign, hents]
    exact and_congr_right fun _ => forall₂_congr fun c hc => by rw [hown c hc]

theorem Host.Secludes.congr (hs : h.Secludes cs) (hlinks : h'.links = h.links)
    (hcpus : h'.gCpuCount = h.gCpuCount) (hents : h'.entities = h.entities)
    (hown : ∀ c ∈ cs, h'.entityOf c = h.entityOf c) : h'.Secludes cs := by
  unfold Host.Secludes
  rw [hlinks, foreign_congr hcpus (fun e => by rw [hents]) hown]
  exact hs

theorem Layout.foreign (hl : Layout P h) (hc : c ∉ cs) (he : h.entityOf c = some e) :
    .entity e ∈ h.Foreign cs := by
  obtain ⟨u, hu, hue⟩ := Option.bind_eq_some_iff.mp he
  obtain ⟨s, hs⟩ := hl.entity c u e hu hue
  refine entity_mem_foreign.mpr ⟨by rw [hs]; exact Option.some_ne_none s, fun d hd hde => ?_⟩
  exact hc (hl.entityOf_inj he hde ▸ hd)

/-! ## Calls on other vCPUs -/

theorem home_mem_foreign (hl : Layout P h) : .head (u.home h.gCpuCount).toNat ∈ h.Foreign cs :=
  head_mem_foreign (u.home_lt hl.cpus)

theorem foreign_giveEntity (hl : Layout P h) (hc : c ∉ cs) (hnone : h.entities e = none) {vmId : UInt32} :
    (h.giveEntity c e u vmId).Foreign cs = insert (.entity e) (h.Foreign cs) := by
  have hown : ∀ d ∈ cs, (h.giveEntity c e u vmId).entityOf d = h.entityOf d := fun d hd => by
    have hdc : d ≠ c := fun heq => hc (heq ▸ hd)
    rw [Host.entityOf, Host.giveEntity_vcpus, Function.update_of_ne hdc, Host.entityOf]
  ext x
  cases x with
  | head i =>
    rw [Set.mem_insert_iff, or_iff_right (by simp)]
    change (_ ∨ _) ↔ (_ ∨ _)
    simp only [reduceCtorEq, false_and, exists_false]
    rfl
  | entity x =>
    rw [Set.mem_insert_iff, Node.entity.injEq, entity_mem_foreign, entity_mem_foreign]
    by_cases hxe : x = e
    · subst hxe
      refine iff_of_true ⟨?_, fun d hd hde => ?_⟩ (.inl rfl)
      · exact fun hc => Option.some_ne_none _ ((Function.update_self x _ _).symm.trans hc)
      · rw [hown d hd] at hde
        obtain ⟨w, hw, hwe⟩ := Option.bind_eq_some_iff.mp hde
        obtain ⟨s, hs⟩ := hl.entity d w x hw hwe
        rw [hs] at hnone
        cases hnone
    · have hents : (h.giveEntity c e u vmId).entities x = h.entities x := Function.update_of_ne hxe _ _
      rw [or_iff_right hxe, hents]
      exact and_congr_right fun _ => forall₂_congr fun d hd => by rw [hown d hd]

theorem Adds.secludes (ha : Adds c u h r h') (hl : Layout P h) (hu : h.vcpus c = some u) (hc : c ∉ cs)
    (hs : h.Secludes cs) : h'.Secludes cs := by
  have hhome : .head (u.home h.gCpuCount).toNat ∈ h.Foreign cs := home_mem_foreign hl
  cases ha with
  | @again e he =>
    have hmem : .entity e ∈ h.Foreign cs := hl.foreign hc ((entityOf_some hu).trans he)
    have := hs.insertBefore (e := .entity e) hhome
    rwa [Set.insert_eq_of_mem hmem] at this
  | noMemory => exact hs
  | @fresh e vmId _ hfit =>
    have := hs.insertBefore (e := .entity e) hhome
    have hfor : (h.giveEntity c e u vmId).Foreign cs = insert (.entity e) (h.Foreign cs) :=
      foreign_giveEntity hl hc (hl.entity_fresh hfit)
    rwa [← hfor] at this

theorem entityOf_setVcpu_of_ne (hd : d ≠ c) {o : Option Nexusvcpu} :
    (h.setVcpu c o).entityOf d = h.entityOf d := by
  rw [Host.entityOf, Host.setVcpu_vcpus, Function.update_of_ne hd, Host.entityOf]

theorem VcpuStarts.secludes (hs : VcpuStarts c u h r h') (hl : Layout P h) (hu : h.vcpus c = some u)
    (hc : c ∉ cs) (hsec : h.Secludes cs) : h'.Secludes cs := by
  have hne : ∀ d ∈ cs, d ≠ c := fun d hd hdc => hc (hdc ▸ hd)
  have hsetup : (h.afterSetup c u).Secludes cs :=
    hsec.congr rfl rfl rfl fun d hd => entityOf_setVcpu_of_ne (hne d hd)
  cases hs with
  | running => exact hsec
  | failed => exact hsetup
  | added _ _ ha =>
    refine ha.secludes (hl.beforeAdd hu) beforeAdd_vcpus hc ?_
    unfold Host.beforeAdd
    split_ifs
    · exact hsec.congr rfl rfl rfl fun d hd => entityOf_setVcpu_of_ne (hne d hd)
    · exact hsetup.congr rfl rfl rfl fun d hd => entityOf_setVcpu_of_ne (hne d hd)

theorem StartsSeq.secludes (hs : StartsSeq h ds h') (hl : Layout P h) (hdis : ∀ d ∈ ds, d ∉ cs)
    (hsec : h.Secludes cs) : h'.Secludes cs := by
  induction hs with
  | nil => exact hsec
  | snoc hs hu hstart ih =>
    exact hstart.secludes (hs.layout hl) hu (hdis _ (by simp))
      (ih fun d hd => hdis d (List.mem_append_left _ hd))

theorem unlinkAll_eq (l : DList.Links Node) (es : List Addr) :
    unlinkAll l es = (es.map Node.entity).foldl DList.Links.remove l := by
  rw [unlinkAll, List.foldl_map]
  rfl

theorem foreign_stopVcpus : (h.stopVcpus ds).Foreign cs = h.Foreign cs :=
  foreign_congr rfl (fun _ => Iff.rfl) fun c _ => congrFun entityOf_stopVcpus c

theorem Host.Secludes.stopVcpus (hsec : h.Secludes cs) (hl : Layout P h) (hdis : ∀ d ∈ ds, d ∉ cs) :
    (h.stopVcpus ds).Secludes cs := by
  unfold Host.Secludes
  rw [foreign_stopVcpus]
  change (unlinkAll h.links _).Closed _
  rw [unlinkAll_eq]
  refine hsec.removeAll fun x hx => ?_
  obtain ⟨e, he, rfl⟩ := List.mem_map.mp hx
  obtain ⟨d, hd, hde⟩ := List.mem_filterMap.mp he
  exact hl.foreign (hdis d hd) hde

theorem Host.Secludes.mapVcpus (hsec : h.Secludes cs) {f : Nexusvcpu → Nexusvcpu}
    (hf : ∀ u, (f u).schedEntity = u.schedEntity) : (h.mapVcpus ds f).Secludes cs :=
  hsec.congr rfl rfl rfl fun c _ => congrFun (mapVcpus_entityOf ds hf) c

/-- **A call on another VM.** -/
theorem LifeEffect.secludes {op : LifecycleOp} (he : LifeEffect b w h op r h') (hl : Layout P h)
    (hdis : ∀ d ∈ w.vcpus, d ∉ cs) (hsec : h.Secludes cs) : h'.Secludes cs := by
  cases he with
  | idle => exact hsec
  | started _ hs => exact hs.secludes hl hdis hsec
  | rolledBack _ hb =>
    obtain ⟨hcs, hs, hu, hstart, -⟩ := hb
    rw [hcs] at hdis
    have hl₁ := hs.layout hl
    have hsec₁ := hs.secludes hl (fun d hd => hdis d (List.mem_append_left _ hd)) hsec
    exact (hstart.secludes hl₁ hu (hdis _ (by simp)) hsec₁).stopVcpus (hstart.layout hl₁ hu)
      fun d hd => hdis d (List.mem_append_left _ hd)
  | stopped => exact hsec.stopVcpus hl hdis
  | paused => exact hsec.mapVcpus fun _ => rfl
  | resumed => exact hsec.mapVcpus fun _ => rfl
  | @reset cold h₁ hh₁ =>
    have hsec₁ : h₁.Secludes cs := by
      rw [hh₁]
      split_ifs
      · exact hsec.stopVcpus hl hdis
      · exact hsec
    have hreset : (h₁.mapVcpus w.vcpus Nexusvcpu.reset).Secludes cs := hsec₁.mapVcpus fun _ => rfl
    exact hreset

/-- The vCPU that a call of the scheduler is about. -/
def SchedOp.vcpu : SchedOp → Option Addr
  | .add c | .remove c | .yield c | .wake c | .migrate c _ => some c
  | .loadBalance _ => none

theorem SchedStep.secludes {op : SchedOp} (hs : SchedStep h op h') (hl : Layout P h)
    (hop : ∀ c ∈ cs, op.vcpu ≠ some c) (hsec : h.Secludes cs) : h'.Secludes cs := by
  have hrest : ∀ {l : DList.Links Node}, l.Closed (h.Foreign cs) → (h.setLinks l).Secludes cs := id
  have hown : ∀ {c e : Addr} {u : Nexusvcpu}, c ∉ cs → h.vcpus c = some u → u.schedEntity = some e →
      .entity e ∈ h.Foreign cs := fun hc hu he => hl.foreign hc ((entityOf_some hu).trans he)
  cases hs with
  | add hu ha => exact ha.secludes hl hu (fun hc => hop _ hc rfl) hsec
  | remove hu he => exact hrest (hsec.remove (hown (fun hc => hop _ hc rfl) hu he))
  | @yield c e u hu he =>
    have hmem := hown (fun hc => hop _ hc rfl) hu he
    have := (hsec.remove hmem).insertBefore (e := .entity e) (home_mem_foreign (u := u) hl)
    rw [Set.insert_eq_of_mem hmem] at this
    exact hrest this
  | @wake c e u hu he =>
    have hmem := hown (fun hc => hop _ hc rfl) hu he
    have := (hsec.remove hmem).insertAfter (e := .entity e) (home_mem_foreign (u := u) hl)
    rw [Set.insert_eq_of_mem hmem] at this
    exact hrest this
  | @loadBalance cpu tgt hcpu hne htgt =>
    have hlt : cpu.toNat < h.gCpuCount.toNat := UInt32.lt_iff_toNat_lt.mp hcpu
    have hmem := (hsec _ (head_mem_foreign hlt)).1
    have htgt' : tgt < h.gCpuCount.toNat := by
      rcases htgt with rfl | ⟨hleast, -⟩
      · exact hlt
      · exact hleast.lt
    have := (hsec.remove hmem).insertBefore (e := h.links.next (.head cpu.toNat))
      (head_mem_foreign htgt')
    rw [Set.insert_eq_of_mem hmem] at this
    exact hrest this
  | migrate hu =>
    refine hsec.congr rfl rfl rfl fun d hd => entityOf_setVcpu_of_ne ?_
    rintro rfl
    exact hop d hd rfl

/-! ## A start of the VM itself -/

theorem entityOf_setVcpu (hu : h.vcpus c = some u) {u' : Nexusvcpu} (hent : u'.schedEntity = u.schedEntity) :
    (h.setVcpu c (some u')).entityOf = h.entityOf := by
  funext d
  by_cases hdc : d = c
  · subst hdc
    rw [entityOf_some (Host.setVcpu_self _ _ _), entityOf_some hu, hent]
  · exact entityOf_setVcpu_of_ne hdc

theorem entityOf_afterSetup (hu : h.vcpus c = some u) : (h.afterSetup c u).entityOf = h.entityOf := by
  obtain ⟨id, hid⟩ := setupVcpu_eq h u
  exact entityOf_setVcpu hu (by rw [hid])

theorem entityOf_beforeAdd (hu : h.vcpus c = some u) : (h.beforeAdd c u).entityOf = h.entityOf := by
  obtain ⟨id, hid⟩ := startedVcpu_eq h u
  unfold Host.beforeAdd
  split_ifs
  · exact entityOf_setVcpu hu (by rw [hid])
  · have hself : (h.afterSetup c u).vcpus c = some (h.setupVcpu u) := Host.setVcpu_self _ _ _
    obtain ⟨id', hid'⟩ := setupVcpu_eq h u
    rw [entityOf_setVcpu hself (by rw [hid, hid']), entityOf_afterSetup hu]

theorem links_beforeAdd : (h.beforeAdd c u).links = h.links := by
  unfold Host.beforeAdd
  split_ifs <;> rfl

theorem gCpuCount_beforeAdd : (h.beforeAdd c u).gCpuCount = h.gCpuCount := by
  unfold Host.beforeAdd
  split_ifs <;> rfl

/-- The entities of some vCPUs, as nodes. -/
def Host.nodesOf (h : Host) (cs : List Addr) : List Node := (cs.filterMap h.entityOf).map .entity

theorem mem_nodesOf {x : Node} :
    x ∈ h.nodesOf ds ↔ ∃ d ∈ ds, ∃ e, h.entityOf d = some e ∧ x = .entity e := by
  simp only [Host.nodesOf, List.mem_map, List.mem_filterMap]
  constructor
  · rintro ⟨e, ⟨d, hd, hde⟩, rfl⟩
    exact ⟨d, hd, e, hde, rfl⟩
  · rintro ⟨d, hd, e, hde, rfl⟩
    exact ⟨e, ⟨d, hd, hde⟩, rfl⟩

theorem nodesOf_congr (hown : ∀ d ∈ ds, h'.entityOf d = h.entityOf d) : h'.nodesOf ds = h.nodesOf ds := by
  rw [Host.nodesOf, Host.nodesOf, List.filterMap_congr hown]

theorem nodesOf_snoc (o : Option Addr) (hc : h.entityOf c = o) :
    h.nodesOf (ds ++ [c]) = h.nodesOf ds ++ (o.map Node.entity).toList := by
  rw [Host.nodesOf, Host.nodesOf, List.filterMap_append, List.map_append]
  cases o <;> simp [hc]

theorem foreign_giveEntity_own (hc : c ∈ cs) (hu : h.vcpus c = some u) (hnone : u.schedEntity = none)
    (hfresh : h.entities e = none) {vmId : UInt32} :
    (h.giveEntity c e u vmId).Foreign cs = h.Foreign cs := by
  ext x
  cases x with
  | head i =>
    change (_ ∨ _) ↔ (_ ∨ _)
    simp only [reduceCtorEq, false_and, exists_false]
    rfl
  | entity x =>
    rw [entity_mem_foreign, entity_mem_foreign]
    by_cases hxe : x = e
    · subst hxe
      refine iff_of_false (fun hx => hx.2 c hc ?_) fun hx => hx.1 hfresh
      rw [Host.entityOf, Host.giveEntity_vcpus, Function.update_self]
      rfl
    · have hents : (h.giveEntity c e u vmId).entities x = h.entities x := Function.update_of_ne hxe _ _
      rw [hents]
      refine and_congr_right fun _ => forall₂_congr fun d _ => ?_
      by_cases hdc : d = c
      · subst hdc
        rw [entityOf_some hu, hnone, Host.entityOf, Host.giveEntity_vcpus, Function.update_self]
        exact iff_of_true (fun heq => hxe (Option.some.inj heq).symm) (by simp)
      · rw [Host.entityOf, Host.giveEntity_vcpus, Function.update_of_ne hdc, Host.entityOf]

/-- **One more entity of the VM** is linked in. -/
theorem Adds.annexed (ha : Adds c u h r h') (hl : Layout P h) (hu : h.vcpus c = some u) (hc : c ∈ cs)
    (hds : c ∉ ds) (hann : h.links.Annexed (h.Foreign cs) (h.nodesOf ds)) :
    h'.Foreign cs = h.Foreign cs ∧ h'.links.Annexed (h.Foreign cs) (h'.nodesOf (ds ++ [c])) := by
  have hhome : .head (u.home h.gCpuCount).toNat ∈ h.Foreign cs := home_mem_foreign hl
  have hent := entityOf_some hu
  cases ha with
  | @again e he =>
    have hown : h.entityOf c = some e := hent.trans he
    have hnot : .entity e ∉ h.nodesOf ds := by
      intro hmem
      obtain ⟨d, hd, x, hdx, heq⟩ := mem_nodesOf.mp hmem
      cases heq
      exact hds (hl.entityOf_inj hown hdx ▸ hd)
    have hfor : .entity e ∉ h.Foreign cs := fun hmem => (entity_mem_foreign.mp hmem).2 c hc hown
    refine ⟨rfl, ?_⟩
    change (listAddTail h.links _ _).Annexed _ (h.nodesOf (ds ++ [c]))
    rw [nodesOf_snoc _ hown]
    exact hann.insertBefore hhome hfor hnot
  | noMemory hnone =>
    refine ⟨rfl, ?_⟩
    change h.links.Annexed _ (h.nodesOf (ds ++ [c]))
    rw [nodesOf_snoc _ (hent.trans hnone)]
    simpa using hann
  | @fresh e vmId hnone hfit =>
    have hfresh : h.entities e = none := hl.entity_fresh hfit
    have hsame : ∀ d ∈ ds, ((h.giveEntity c e u vmId).enqueue e (u.home h.gCpuCount).toNat).entityOf d =
        h.entityOf d := fun d hd => by
      have hdc : d ≠ c := fun heq => hds (heq ▸ hd)
      rw [Host.entityOf, Host.enqueue_vcpus, Host.giveEntity_vcpus, Function.update_of_ne hdc, Host.entityOf]
    have hnot : .entity e ∉ h.nodesOf ds := by
      intro hmem
      obtain ⟨d, hd, x, hdx, heq⟩ := mem_nodesOf.mp hmem
      cases heq
      obtain ⟨w, hw, hwe⟩ := Option.bind_eq_some_iff.mp hdx
      obtain ⟨s, hs⟩ := hl.entity d w e hw hwe
      rw [hs] at hfresh
      cases hfresh
    have hfor : .entity e ∉ h.Foreign cs := fun hmem => (entity_mem_foreign.mp hmem).1 hfresh
    refine ⟨foreign_giveEntity_own hc hu hnone hfresh, ?_⟩
    rw [nodesOf_snoc _ entityOf_giveEntity, nodesOf_congr hsame]
    exact hann.insertBefore hhome hfor hnot

theorem foreign_beforeAdd (hu : h.vcpus c = some u) : (h.beforeAdd c u).Foreign cs = h.Foreign cs :=
  foreign_congr gCpuCount_beforeAdd (fun e => by rw [beforeAdd_entities]) fun d _ =>
    congrFun (entityOf_beforeAdd hu) d

theorem nodesOf_eq (hown : h'.entityOf = h.entityOf) : h'.nodesOf ds = h.nodesOf ds := by
  rw [Host.nodesOf, Host.nodesOf, hown]

theorem VcpuStarts.annexed (hs : VcpuStarts c u h .ok h') (hl : Layout P h) (hu : h.vcpus c = some u)
    (hstopped : u.running = false) (hc : c ∈ cs) (hds : c ∉ ds)
    (hann : h.links.Annexed (h.Foreign cs) (h.nodesOf ds)) :
    h'.Foreign cs = h.Foreign cs ∧ h'.links.Annexed (h.Foreign cs) (h'.nodesOf (ds ++ [c])) := by
  generalize hr : Result.ok = r at hs
  cases hs with
  | running hrun => simp [hstopped] at hrun
  | failed _ _ hne => exact absurd hr.symm hne
  | added _ _ ha =>
    have hann' : (h.beforeAdd c u).links.Annexed ((h.beforeAdd c u).Foreign cs)
        ((h.beforeAdd c u).nodesOf ds) := by
      rw [links_beforeAdd, foreign_beforeAdd hu, nodesOf_eq (entityOf_beforeAdd hu)]
      exact hann
    have hadd := ha.annexed (hl.beforeAdd hu) beforeAdd_vcpus hc hds hann'
    rwa [foreign_beforeAdd hu] at hadd

/-- **Whatever the queues are**, a loop over stopped vCPUs links their entities in one after the other. -/
theorem StartsSeq.annexed (hs : StartsSeq h₀ ds h) (hl : Layout P h₀) (hnd : ds.Nodup)
    (hsub : ∀ d ∈ ds, d ∈ cs) (hstopped : ∀ d ∈ ds, ∀ u, h₀.vcpus d = some u → u.running = false)
    (hsec : h₀.Secludes cs) :
    h.Foreign cs = h₀.Foreign cs ∧ h.links.Annexed (h₀.Foreign cs) (h.nodesOf ds) := by
  induction hs with
  | nil => exact ⟨rfl, DList.Links.annexed_nil.mpr hsec⟩
  | @snoc ds c u h h' hs hu hstart ih =>
    have hds : c ∉ ds := notMem_of_nodup_append hnd
    obtain ⟨hfor, hann⟩ := ih (List.nodup_append.mp hnd).1 (fun d hd => hsub d (List.mem_append_left _ hd))
      fun d hd => hstopped d (List.mem_append_left _ hd)
    have hu₀ := hu
    rw [hs.vcpus_of_notMem hds] at hu₀
    rw [← hfor] at hann ⊢
    exact hstart.annexed (hs.layout hl) hu (hstopped c (by simp) u hu₀) (hsub c (by simp)) hds hann

theorem VcpuStarts.eq_of_ne (hs : VcpuStarts c u h r h') (hne : r ≠ .ok) :
    u.initialized = false ∧ r = h.setupResult u ∧ h' = h.afterSetup c u := by
  cases hs with
  | running => exact absurd rfl hne
  | failed _ hinit => exact ⟨hinit, rfl, rfl⟩
  | added => exact absurd rfl hne

/-- **A start that fails leaves no pointer to the VM behind**, whatever the queues are. -/
theorem RollsBack.secludes (hb : RollsBack h₀ cs r h) (hl : Layout P h₀) (hnd : cs.Nodup)
    (hstopped : ∀ d ∈ cs, ∀ u, h₀.vcpus d = some u → u.running = false) (hsec : h₀.Secludes cs) :
    h.Secludes cs := by
  obtain ⟨hcs, hs, hu, hstart, hne⟩ := hb
  rename_i started rest c u h₁ h₂
  obtain ⟨-, -, rfl⟩ := hstart.eq_of_ne hne
  have hsub : ∀ d ∈ started, d ∈ cs := fun d hd => hcs ▸ List.mem_append_left _ hd
  have hnd' : started.Nodup := (List.nodup_append.mp (hcs ▸ hnd)).1
  obtain ⟨hfor, hann⟩ := hs.annexed hl hnd' hsub (fun d hd => hstopped d (hsub d hd)) hsec
  have hsetup : (h₁.afterSetup c u).Foreign cs = h₁.Foreign cs :=
    foreign_congr rfl (fun _ => Iff.rfl) fun d _ => congrFun (entityOf_afterSetup hu) d
  unfold Host.Secludes
  rw [foreign_stopVcpus, hsetup, hfor]
  change (unlinkAll h₁.links (started.filterMap (h₁.afterSetup c u).entityOf)).Closed _
  rw [entityOf_afterSetup hu, unlinkAll_eq]
  exact hann.removeAll

end NexusVM
