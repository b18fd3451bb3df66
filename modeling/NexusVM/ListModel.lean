import NexusVM.Rollback
import NexusVM.Lib.Stale

/-!
# The runqueue of one CPU as a list

Calls that take a vCPU out of a runqueue do not look whether it is there.

* `QueueCall`, `QueueCall.onList`: the calls, and what they are to do to a list of vCPUs;
* `Modelled`, `QueueCall.both`: the host with the list beside it;
* `QueueCall.Performs`, `QueueCall.run_performs`: what a call does to the pointers;
* `QueueCall.Harmless`, `QueueCall.Performs.ring_iff`: when the queue is the list again after a call;
* **`runqueue_refines_list_iff`**: the same for runs.
-/

namespace NexusVM

open Prog

variable {h h' h₀ : Host} {a c d e : Addr} {u : Nexusvcpu} {cs : List Addr} {r : Result} {cpu : ℕ}

/-! ## Calls -/

/-- A call on the runqueue of its vCPU. -/
inductive QueueCall
  | add (c : Addr)
  | remove (c : Addr)
  | yield (c : Addr)
  | wake (c : Addr)
  | stop (c : Addr)

def QueueCall.run : QueueCall → HostM Result
  | .add c => schedulerAddVcpu (some c)
  | .remove c => schedulerRemoveVcpu (some c)
  | .yield c => do
    schedulerYield (some c)
    return .ok
  | .wake c => do
    schedulerWake (some c)
    return .ok
  | .stop c => vcpuStop (some c)

def QueueCall.vcpu : QueueCall → Addr
  | .add c | .remove c | .yield c | .wake c | .stop c => c

/-- What the call with the result `r` is to do to the list of queued vCPUs: it may be about an absent one. -/
def QueueCall.onList (r : Result) : QueueCall → List Addr → List Addr
  | .add c, cs => if r = .ok then cs ++ [c] else cs
  | .remove c, cs | .stop c, cs => cs.erase c
  | .yield c, cs => cs.erase c ++ [c]
  | .wake c, cs => c :: cs.erase c

/-- A host, and a list of vCPUs. -/
structure Modelled where
  host : Host
  list : List Addr

/-- The call on the host, and on the list. -/
def QueueCall.both (call : QueueCall) : Prog Modelled Unit := do
  let r ← Prog.zoom Modelled.host (fun s h => { s with host := h }) call.run
  modify fun s => { s with list := call.onList r s.list }

/-- The vCPU is that of a VM, its CPU is `cpu`, and it is not queued if it is to be added, and has been
queued before if not. -/
def QueueCall.Permitted (cpu : ℕ) (call : QueueCall) (s : Modelled) : Prop :=
  (∃ u, s.host.vcpus call.vcpu = some u ∧ s.host.vms u.vm ≠ none ∧
    (u.home s.host.gCpuCount).toNat = cpu) ∧
  match call with
  | .add c => c ∉ s.list
  | .remove c | .yield c | .wake c | .stop c => s.host.entityOf c ≠ none

instance (call : QueueCall) (s : Modelled) : Decidable (call.Permitted cpu s) := by
  unfold QueueCall.Permitted
  have hvcpu : Decidable (∃ u, s.host.vcpus call.vcpu = some u ∧ s.host.vms u.vm ≠ none ∧
      (u.home s.host.gCpuCount).toNat = cpu) :=
    inferInstanceAs (Decidable (∃ u ∈ s.host.vcpus call.vcpu, s.host.vms u.vm ≠ none ∧
      (u.home s.host.gCpuCount).toNat = cpu))
  cases call <;> infer_instance

/-- The runqueue of the CPU consists of the vCPUs of the list, read in both directions. -/
def Modelled.Agrees (cpu : ℕ) (s : Modelled) : Prop :=
  s.host.runqueue cpu = some (s.host.nodesOf s.list) ∧
    DList.Ring s.host.links (.head cpu) (s.host.nodesOf s.list)

/-! ## Harmless calls -/

/-- The nodes of a runqueue, with its head. -/
def Host.ringOf (h : Host) (cpu : ℕ) : List Node := .head cpu :: (h.runqueue cpu).getD []

/-- What a call that unlinks `x` writes into the nodes of the ring through `head` that it does not link `x` to
is there already. -/
def QueueCall.StoresSame (x head : Node) (ring : List Node) (l : DList.Links Node) : QueueCall → Prop
  | .add _ => True
  | .remove _ | .stop _ => l.Stays x ring ring
  | .yield _ => l.Stays x (ring.erase (l.prev head)) ring
  | .wake _ => l.Stays x ring (ring.erase (l.next head))

instance (x head : Node) (ring : List Node) (l : DList.Links Node) (call : QueueCall) :
    Decidable (call.StoresSame x head ring l) := by
  unfold QueueCall.StoresSame
  split <;> infer_instance

/-- The vCPU is queued, or the nodes that its entity points to are neighbours where they are on the queue. -/
def QueueCall.Harmless (cpu : ℕ) (call : QueueCall) (h : Host) : Prop :=
  ∀ e, h.entityOf call.vcpu = some e → .entity e ∉ h.ringOf cpu →
    call.StoresSame (.entity e) (.head cpu) (h.ringOf cpu) h.links

instance (call : QueueCall) (h : Host) : Decidable (call.Harmless cpu h) :=
  inferInstanceAs (Decidable (∀ e ∈ h.entityOf call.vcpu, .entity e ∉ h.ringOf cpu →
    call.StoresSame (.entity e) (.head cpu) (h.ringOf cpu) h.links))

/-! ## What a call does -/

/-- The pointers after a call, where `e` is the entity of its vCPU. -/
def QueueCall.links (cpu : ℕ) (e : Addr) (l : DList.Links Node) : QueueCall → DList.Links Node
  | .add _ => listAddTail l (.entity e) (.head cpu)
  | .remove _ | .stop _ => listDel l (.entity e)
  | .yield _ => listAddTail (listDel l (.entity e)) (.entity e) (.head cpu)
  | .wake _ => listAdd (listDel l (.entity e)) (.entity e) (.head cpu)

/-- What a call does. -/
structure QueueCall.Performs (cpu : ℕ) (call : QueueCall) (h : Host) (r : Result) (h' : Host) : Prop where
  layout : Layout (fun _ => True) h'
  owners : ∀ d e, h.entityOf d = some e → h'.entityOf d = some e
  effect : (r = .ok ∧ ∃ e, h'.entityOf call.vcpu = some e ∧ h'.links = call.links cpu e h.links ∧
      (h.entityOf call.vcpu = some e ∨ (∃ c, call = .add c) ∧ h.entityOf call.vcpu = none ∧ h.entities e = none)) ∨
    (r ≠ .ok ∧ (∃ c, call = .add c) ∧ h'.links = h.links)

theorem Adds.performs (hl : Layout (fun _ => True) h) (hu : h.vcpus c = some u)
    (ha : Adds c u h r h') : (QueueCall.add c).Performs (u.home h.gCpuCount).toNat h r h' := by
  have hent := entityOf_some hu
  refine ⟨ha.layout hl hu, fun d e hd => ?_, ?_⟩
  · cases ha with
    | again | noMemory => exact hd
    | fresh hnone =>
      have hdc : d ≠ c := by
        rintro rfl
        rw [hent, hnone] at hd
        cases hd
      rw [Host.entityOf, Host.enqueue_vcpus, Host.giveEntity_vcpus, Function.update_of_ne hdc]
      exact hd
  · cases ha with
    | again he => exact .inl ⟨rfl, _, hent.trans he, rfl, .inl (hent.trans he)⟩
    | noMemory => exact .inr ⟨by simp, ⟨c, rfl⟩, rfl⟩
    | fresh hnone hfit =>
      exact .inl ⟨rfl, _, entityOf_giveEntity, rfl, .inr ⟨⟨c, rfl⟩, hent.trans hnone, hl.entity_fresh hfit⟩⟩

theorem performs_setLinks {call : QueueCall} (hl : Layout (fun _ => True) h)
    (he : h.entityOf call.vcpu = some e) :
    call.Performs cpu h .ok (h.setLinks (call.links cpu e h.links)) :=
  ⟨hl.setLinks _, fun _ _ => id, .inl ⟨rfl, e, he, rfl, .inl he⟩⟩

/-- **Every call returns**, and changes the pointers in its way. -/
theorem QueueCall.run_performs (hl : Layout (fun _ => True) h) {call : QueueCall} {list : List Addr}
    (hp : call.Permitted cpu ⟨h, list⟩) : wp call.run (call.Performs cpu h) h := by
  obtain ⟨⟨u, hu, hvm, rfl⟩, hcall⟩ := hp
  have hent := entityOf_some hu
  cases call with
  | add c =>
    obtain ⟨r, h', hrun, -, w, hw, ha⟩ := wp_and_wlp (schedulerAddVcpu_spec hl hu hvm) schedulerAddVcpu_adds
    obtain rfl : u = w := Option.some.inj (hu.symm.trans hw)
    exact ⟨r, h', hrun, ha.performs hl hu⟩
  | remove c =>
    obtain ⟨e, he⟩ := Option.ne_none_iff_exists'.mp hcall
    have he' := hent.symm.trans he
    simp only [QueueCall.run, schedulerRemoveVcpu, wp_bind, wp_getVcpu]
    refine ⟨u, hu, ?_⟩
    rw [he']
    simp only [wp_bind]
    refine wp_mono (homeCpu_at hl.cpus u) ?_
    rintro _ _ ⟨rfl, rfl⟩
    simp only [wp_getLinks, wp_putLinks, wp_pure]
    exact performs_setLinks hl he
  | yield c =>
    obtain ⟨e, he⟩ := Option.ne_none_iff_exists'.mp hcall
    have he' := hent.symm.trans he
    simp only [QueueCall.run, schedulerYield, wp_bind, wp_getVcpu]
    refine ⟨u, hu, ?_⟩
    rw [he']
    simp only [wp_bind]
    refine wp_mono (homeCpu_at hl.cpus u) ?_
    rintro _ _ ⟨rfl, rfl⟩
    simp only [wp_getLinks, wp_putLinks, wp_pure]
    exact performs_setLinks hl he
  | wake c =>
    obtain ⟨e, he⟩ := Option.ne_none_iff_exists'.mp hcall
    have he' := hent.symm.trans he
    simp only [QueueCall.run, schedulerWake, wp_bind, wp_getVcpu]
    refine ⟨u, hu, ?_⟩
    rw [he']
    simp only [wp_bind]
    refine wp_mono (homeCpu_at hl.cpus u) ?_
    rintro _ _ ⟨rfl, rfl⟩
    simp only [wp_getLinks, wp_putLinks, wp_pure]
    exact performs_setLinks hl he
  | stop c =>
    obtain ⟨e, he⟩ := Option.ne_none_iff_exists'.mp hcall
    have he' := hent.symm.trans he
    obtain ⟨hstop, hl', ht⟩ := vcpuStop_spec hl hu
    refine wp_mono hstop ?_
    rintro _ _ ⟨rfl, rfl⟩
    have hown : (h.stopVcpu c u).entityOf = h.entityOf := entityOf_setVcpu (h := h) hu rfl
    refine ⟨hl', fun d x hd => (congrFun hown d).trans hd,
      .inl ⟨rfl, e, (congrFun hown c).trans he, ?_, .inl he⟩⟩
    rw [Host.stopVcpu, Host.setLinks_links, he']
    rfl

/-! ## The queue after a call -/

theorem mem_nodesOf_iff (hl : Layout (fun _ => True) h) (he : h.entityOf c = some e) :
    .entity e ∈ h.nodesOf cs ↔ c ∈ cs := by
  rw [mem_nodesOf]
  constructor
  · rintro ⟨d, hd, x, hdx, heq⟩
    cases heq
    exact hl.entityOf_inj he hdx ▸ hd
  · exact fun hc => ⟨c, hc, e, he, rfl⟩

theorem nodesOf_erase (hl : Layout (fun _ => True) h) (he : h.entityOf c = some e) :
    h.nodesOf (cs.erase c) = (h.nodesOf cs).erase (.entity e) := by
  have hcons : ∀ (d : Addr) (ds : List Addr),
      h.nodesOf (d :: ds) = ((h.entityOf d).map Node.entity).toList ++ h.nodesOf ds := by
    intro d ds
    rw [Host.nodesOf, Host.nodesOf, List.filterMap_cons]
    cases h.entityOf d <;> rfl
  induction cs with
  | nil => rfl
  | cons d ds ih =>
    by_cases hdc : d = c
    · subst hdc
      rw [List.erase_cons_head, hcons, he]
      exact (List.erase_cons_head ..).symm
    · rw [List.erase_cons_tail (by simpa using hdc), hcons, hcons, ih, List.erase_append_right]
      intro hmem
      cases hd : h.entityOf d with
      | none => simp [hd] at hmem
      | some x =>
        simp only [hd, Option.map_some, Option.toList_some, List.mem_singleton, Node.entity.injEq] at hmem
        exact hdc (hl.entityOf_inj hd (hmem ▸ he))

/-- The vCPUs of the list have entities. -/
def Owning (h : Host) (cs : List Addr) : Prop := ∀ c ∈ cs, h.entityOf c ≠ none

theorem QueueCall.Performs.nodesOf {call : QueueCall} (hp : call.Performs cpu h r h') (hown : Owning h cs) :
    h'.nodesOf cs = h.nodesOf cs := by
  refine nodesOf_congr fun d hd => ?_
  obtain ⟨e, he⟩ := Option.ne_none_iff_exists'.mp (hown d hd)
  rw [he, hp.owners d e he]

theorem ringOf_eq (hq : h.runqueue cpu = some (h.nodesOf cs)) : h.ringOf cpu = .head cpu :: h.nodesOf cs := by
  rw [Host.ringOf, hq, Option.getD_some]

theorem QueueCall.harmless_of_mem {call : QueueCall} (hl : Layout (fun _ => True) h)
    (hq : h.runqueue cpu = some (h.nodesOf cs)) (hc : call.vcpu ∈ cs) : call.Harmless cpu h := by
  intro e he hnot
  rw [ringOf_eq hq] at hnot
  exact absurd (List.mem_cons_of_mem _ ((mem_nodesOf_iff hl he).mpr hc)) hnot

/-- What a call does to the nodes of the queue, where `x` is that of its vCPU. -/
def QueueCall.onNodes (x : Node) (xs : List Node) : QueueCall → List Node
  | .add _ => xs ++ [x]
  | .remove _ | .stop _ => xs.erase x
  | .yield _ => xs.erase x ++ [x]
  | .wake _ => x :: xs.erase x

theorem nodesOf_cons (he : h.entityOf c = some e) : h.nodesOf (c :: cs) = .entity e :: h.nodesOf cs := by
  rw [Host.nodesOf, Host.nodesOf, List.filterMap_cons, he]
  rfl

theorem nodesOf_onList {call : QueueCall} (hl : Layout (fun _ => True) h) (he : h.entityOf call.vcpu = some e) :
    h.nodesOf (call.onList .ok cs) = call.onNodes (.entity e) (h.nodesOf cs) := by
  cases call with
  | add c => exact nodesOf_snoc _ he
  | remove c => exact nodesOf_erase hl he
  | stop c => exact nodesOf_erase hl he
  | yield c =>
    change h.entityOf c = some e at he
    change h.nodesOf (cs.erase c ++ [c]) = (h.nodesOf cs).erase (.entity e) ++ [.entity e]
    rw [nodesOf_snoc _ he, nodesOf_erase hl he]
    rfl
  | wake c =>
    change h.entityOf c = some e at he
    change h.nodesOf (c :: cs.erase c) = .entity e :: (h.nodesOf cs).erase (.entity e)
    rw [nodesOf_cons he, nodesOf_erase hl he]

theorem ring_links {call : QueueCall} {l : DList.Links Node} {xs : List Node}
    (hr : DList.Ring l (.head cpu) xs) (hmem : (∃ c, call = .add c) ↔ .entity e ∉ xs) :
    DList.Ring (call.links cpu e l) (.head cpu) (call.onNodes (.entity e) xs) := by
  have hhead : ∀ {ys : List Node}, .entity e ∉ ys → .entity e ∉ Node.head cpu :: ys := fun hy => by
    simpa using hy
  have hin : (∀ c, call ≠ .add c) → .entity e ∈ xs := fun hne => by
    by_contra hc
    obtain ⟨c, hcall⟩ := hmem.mpr hc
    exact hne c hcall
  have herase : .entity e ∉ xs.erase (.entity e) := fun hc =>
    ((List.nodup_cons.mp hr.nodup).2.mem_erase_iff.mp hc).1 rfl
  cases call with
  | add c => exact hr.insertBefore (hhead (hmem.mp ⟨c, rfl⟩))
  | remove c => exact hr.erase (hin (by simp))
  | stop c => exact hr.erase (hin (by simp))
  | yield c => exact (hr.erase (hin (by simp))).insertBefore (hhead herase)
  | wake c => exact (hr.erase (hin (by simp))).insertAfter (hhead herase)

/-- **A call on a node that is not in the ring** keeps it one just if the pointers that it overwrites stay. -/
theorem ring_links_iff {call : QueueCall} {l : DList.Links Node} {xs : List Node}
    (hr : DList.Ring l (.head cpu) xs) (hnot : .entity e ∉ Node.head cpu :: xs) (hcall : ∀ c, call ≠ .add c) :
    DList.Ring (call.links cpu e l) (.head cpu) (call.onNodes (.entity e) xs) ↔
      call.StoresSame (.entity e) (.head cpu) (Node.head cpu :: xs) l := by
  have herase : xs.erase (.entity e) = xs :=
    List.erase_of_not_mem fun hc => hnot (List.mem_cons_of_mem _ hc)
  cases call with
  | add c => exact absurd rfl (hcall c)
  | remove c =>
    rw [QueueCall.onNodes, herase]
    exact hr.remove_stale_iff
  | stop c =>
    rw [QueueCall.onNodes, herase]
    exact hr.remove_stale_iff
  | yield c =>
    rw [QueueCall.onNodes, herase]
    exact hr.append_stale_iff hnot
  | wake c =>
    rw [QueueCall.onNodes, herase]
    exact hr.push_stale_iff hnot

/-- **When the queue is the list again**: just if the call is harmless. -/
theorem QueueCall.Performs.ring_iff {call : QueueCall} (hp : call.Performs cpu h r h')
    (hl : Layout (fun _ => True) h) (hperm : call.Permitted cpu ⟨h, cs⟩) (hown : Owning h cs)
    (hq : h.runqueue cpu = some (h.nodesOf cs)) (hr : DList.Ring h.links (.head cpu) (h.nodesOf cs)) :
    DList.Ring h'.links (.head cpu) (h'.nodesOf (call.onList r cs)) ↔ call.Harmless cpu h := by
  have hsame := hp.nodesOf hown
  obtain ⟨hok, e, he', hlinks, hold⟩ | ⟨hne, ⟨c, rfl⟩, hlinks⟩ := hp.effect
  swap
  · -- no memory for an entity
    refine iff_of_true ?_ fun _ _ _ => trivial
    rw [QueueCall.onList, if_neg hne, hlinks, hsame]
    exact hr
  rw [hok, nodesOf_onList hp.layout he', hsame, hlinks]
  rcases hold with he | ⟨⟨c, rfl⟩, hnone, hfresh⟩
  swap
  · -- a new entity
    refine iff_of_true (ring_links hr (iff_of_true ⟨c, rfl⟩ fun hmem => ?_)) fun _ _ _ => trivial
    obtain ⟨d, -, x, hdx, heq⟩ := mem_nodesOf.mp hmem
    cases heq
    obtain ⟨w, hw, hwx⟩ := Option.bind_eq_some_iff.mp hdx
    obtain ⟨s, hs⟩ := hl.entity d w e hw hwx
    rw [hs] at hfresh
    cases hfresh
  by_cases hadd : ∃ c, call = .add c
  · obtain ⟨c, rfl⟩ := hadd
    exact iff_of_true (ring_links hr (iff_of_true ⟨c, rfl⟩ fun hmem =>
      hperm.2 ((mem_nodesOf_iff hl he).mp hmem))) fun _ _ _ => trivial
  by_cases hc : call.vcpu ∈ cs
  · have hmem := (mem_nodesOf_iff hl he).mpr hc
    exact iff_of_true (ring_links hr (iff_of_false hadd (not_not.mpr hmem)))
      (QueueCall.harmless_of_mem hl hq hc)
  · have hnot : .entity e ∉ Node.head cpu :: h.nodesOf cs := by
      simpa using fun hmem => hc ((mem_nodesOf_iff hl he).mp hmem)
    rw [not_exists] at hadd
    rw [ring_links_iff hr hnot hadd, QueueCall.Harmless, he, ringOf_eq hq]
    exact ⟨fun hs x hx _ => Option.some.inj hx ▸ hs, fun hs => hs e rfl hnot⟩

/-! ## Runs -/

/-- What every run keeps, whether the queue is the list or not. -/
structure Modelled.Sound (s : Modelled) : Prop where
  layout : Layout (fun _ => True) s.host
  owning : Owning s.host s.list

theorem Modelled.Sound.agrees_iff {s : Modelled} (hs : s.Sound) :
    s.Agrees cpu ↔ DList.Ring s.host.links (.head cpu) (s.host.nodesOf s.list) := by
  refine ⟨And.right, fun hr => ⟨runqueue_of_ring hs.layout hr fun x hx => ?_, hr⟩⟩
  obtain ⟨d, -, e, hde, rfl⟩ := mem_nodesOf.mp hx
  obtain ⟨u, hu, hue⟩ := Option.bind_eq_some_iff.mp hde
  obtain ⟨s', hs'⟩ := hs.layout.entity d u e hu hue
  exact ⟨e, rfl, by rw [hs']; exact Option.some_ne_none s'⟩

theorem QueueCall.Performs.owning {call : QueueCall} (hp : call.Performs cpu h r h')
    (hown : Owning h cs) : Owning h' (call.onList r cs) := by
  have hkeep : ∀ d, h.entityOf d ≠ none → h'.entityOf d ≠ none := fun d hd => by
    obtain ⟨e, he⟩ := Option.ne_none_iff_exists'.mp hd
    rw [hp.owners d e he]
    exact Option.some_ne_none e
  have hold : Owning h' cs := fun d hd => hkeep d (hown d hd)
  obtain ⟨rfl, e, he, -⟩ | ⟨hne, ⟨c, rfl⟩, -⟩ := hp.effect
  swap
  · rw [QueueCall.onList, if_neg hne]
    exact hold
  have hself : h'.entityOf call.vcpu ≠ none := by
    rw [he]
    exact Option.some_ne_none e
  have hless : ∀ c, Owning h' (cs.erase c) := fun c d hd => hold d (List.mem_of_mem_erase hd)
  cases call with
  | add c => exact List.forall_mem_append.mpr ⟨hold, fun d hd => List.mem_singleton.mp hd ▸ hself⟩
  | remove c => exact hless c
  | stop c => exact hless c
  | yield c => exact List.forall_mem_append.mpr ⟨hless c, fun d hd => List.mem_singleton.mp hd ▸ hself⟩
  | wake c => exact List.forall_mem_cons.mpr ⟨hself, hless c⟩

/-- **One call**, on the host and on the list. -/
theorem QueueCall.both_spec {call : QueueCall} {s : Modelled} (hs : s.Sound) (hperm : call.Permitted cpu s) :
    wp call.both (fun _ s' => s'.Sound ∧ (s.Agrees cpu → (s'.Agrees cpu ↔ call.Harmless cpu s.host))) s := by
  rw [QueueCall.both, wp_bind, wp_zoom]
  refine wp_mono (call.run_performs hs.layout hperm) fun r h' hp => ?_
  rw [wp_modify]
  have hs' : Modelled.Sound { host := h', list := call.onList r s.list } := ⟨hp.layout, hp.owning hs.owning⟩
  refine ⟨hs', fun ha => ?_⟩
  rw [hs'.agrees_iff]
  exact hp.ring_iff hs.layout hperm hs.owning ha.1 ha.2

/-- **When a runqueue is the list that the calls describe.** In any state that a run has led to, let the queue
of a CPU be empty. Calls on vCPUs of that CPU return, and after every part of them the queue is that list, read
in both directions, just if each call is harmless where it is made. -/
theorem runqueue_refines_list_iff (hboot : Boot h₀) {pre : List HostCall}
    (hpre : (runOps HostCall.run pre).run h₀ = some ((), h))
    (hempty : h.links.next (.head cpu) = .head cpu ∧ h.links.prev (.head cpu) = .head cpu)
    {calls : List QueueCall} (hperm : Along QueueCall.both (QueueCall.Permitted cpu) calls ⟨h, []⟩) :
    ∃ s, (runOps QueueCall.both calls).run ⟨h, []⟩ = some ((), s) ∧
      ((∀ past t, past <+: calls → (runOps QueueCall.both past).run ⟨h, []⟩ = some ((), t) → t.Agrees cpu) ↔
        Along QueueCall.both (fun call s => call.Harmless cpu s.host) calls ⟨h, []⟩) := by
  have hs : Modelled.Sound ⟨h, []⟩ := ⟨(hostCalls_run hboot hpre).1.good.layout, by simp [Owning]⟩
  have ha : Modelled.Agrees cpu ⟨h, []⟩ := hs.agrees_iff.mpr (DList.ring_nil.mpr hempty)
  obtain ⟨⟨⟩, s, hrun, -⟩ := wp_runOps (I := fun _ s => s.Sound)
    (fun _ call s _ hC hs => wp_mono (QueueCall.both_spec hs hC) fun _ _ hq => hq.1) hperm hs
  refine ⟨s, hrun, forall_state_iff_along_of (K := Modelled.Sound) (fun call s hC hs ha => ?_) hrun hperm hs ha⟩
  exact wp.wlp (wp_mono (QueueCall.both_spec hs hC) fun _ _ hq => ⟨hq.1, hq.2 ha⟩)

theorem runqueue_refines_list_iff_stopped_twice : ∃ h s,
    (runOps HostCall.run [.hv (.create { vcpuCount := 2 })]).run (bootHost 1 .intel) = some ((), h) ∧
    (runOps QueueCall.both [.add 81920, .stop 81920, .stop 81920, .wake 81920]).run ⟨h, []⟩ = some ((), s) ∧
    s.Agrees 0 := by
  have hdec : ((runOps HostCall.run [.hv (.create { vcpuCount := 2 })]).run (bootHost 1 .intel)).any (fun p =>
      decide (p.2.links.next (.head 0) = .head 0 ∧ p.2.links.prev (.head 0) = .head 0) &&
      decide (Along QueueCall.both (QueueCall.Permitted 0) [.add 81920, .stop 81920, .stop 81920, .wake 81920]
        ⟨p.2, []⟩) &&
      decide (Along QueueCall.both (fun call s => call.Harmless 0 s.host)
        [.add 81920, .stop 81920, .stop 81920, .wake 81920] ⟨p.2, []⟩)) = true := by decide +kernel
  obtain ⟨⟨⟨⟩, h⟩, hcreate, hp⟩ := (Option.any_eq_true _ _).mp hdec
  simp only [Bool.and_eq_true, decide_eq_true_eq] at hp
  obtain ⟨⟨hempty, hperm⟩, hharmless⟩ := hp
  obtain ⟨s, hrun, hiff⟩ := runqueue_refines_list_iff (boot_bootHost (by decide) .intel) hcreate hempty hperm
  exact ⟨h, s, hcreate, hrun, hiff.mpr hharmless _ s (List.prefix_refl _) hrun⟩

/-- **A vCPU that was stopped twice brings another one back** to the queue. -/
theorem second_stop_requeues : ∃ h s,
    (runOps HostCall.run [.hv (.create { vcpuCount := 2 })]).run (bootHost 1 .intel) = some ((), h) ∧
    h.runqueue 0 = some [] ∧ Along QueueCall.both (QueueCall.Permitted 0)
      [.add 81920, .add 180224, .stop 81920, .stop 180224, .stop 81920] ⟨h, []⟩ ∧
    (runOps QueueCall.both [.add 81920, .add 180224, .stop 81920, .stop 180224, .stop 81920]).run ⟨h, []⟩ =
      some ((), s) ∧ s.list = [] ∧ s.host.runqueue 0 = some (s.host.nodesOf [180224]) ∧
    s.host.runqueue 0 ≠ some (s.host.nodesOf s.list) := by
  have hdec : ((runOps HostCall.run [.hv (.create { vcpuCount := 2 })]).run (bootHost 1 .intel)).any (fun p =>
      decide (p.2.runqueue 0 = some []) && decide (Along QueueCall.both (QueueCall.Permitted 0)
        [.add 81920, .add 180224, .stop 81920, .stop 180224, .stop 81920] ⟨p.2, []⟩) &&
      ((runOps QueueCall.both [.add 81920, .add 180224, .stop 81920, .stop 180224, .stop 81920]).run
        ⟨p.2, []⟩).any fun q => decide (q.2.list = [] ∧
          q.2.host.runqueue 0 = some (q.2.host.nodesOf [180224]) ∧
          q.2.host.runqueue 0 ≠ some (q.2.host.nodesOf q.2.list))) = true := by decide +kernel
  obtain ⟨⟨⟨⟩, h⟩, hcreate, hp⟩ := (Option.any_eq_true _ _).mp hdec
  simp only [Bool.and_eq_true, decide_eq_true_eq] at hp
  obtain ⟨⟨hempty, hperm⟩, hp⟩ := hp
  obtain ⟨⟨⟨⟩, s⟩, hrun, hp⟩ := (Option.any_eq_true _ _).mp hp
  exact ⟨h, s, hcreate, hempty, hperm, hrun, of_decide_eq_true hp⟩

end NexusVM
