import NexusVM.Runs

/-!
# The runqueues

* `WellFormedQueues`, `Host.Queued`: circular lists without a common entity; being on one of them;
* `Queues`: the same with the queues named, and `Queues.enqueue`, `Queues.dequeue`;
* `QueueInv`, **`queueInv_step`**: the entities of running and of paused VMs are queued;
* **`runqueues_wellFormed`**: the queues stay well formed as long as no VM is started that has a
  vCPU on a queue.
-/

namespace NexusVM

open Prog

variable {n : ℕ} {q : Fin n → List Node} {h h' h₁ : Host} {a : Addr} {v : Nexusvm}

/-! ## Well-formed queues -/

/-- Each runqueue is a circular list of entities through its head, and no entity is on two. -/
def WellFormedQueues (h : Host) : Prop := ∃ q : Fin h.gCpuCount.toNat → List Node,
  DList.Rings h.links (fun i : Fin h.gCpuCount.toNat => .head i) q ∧
    ∀ i, ∀ x ∈ q i, ∃ e, x = .entity e ∧ h.entities e ≠ none

/-- The entity is on a runqueue. -/
def Host.Queued (h : Host) (e : Addr) : Prop :=
  ∃ cpu < h.gCpuCount.toNat, ∃ nodes ∈ h.runqueue cpu, .entity e ∈ nodes

instance (h : Host) (e : Addr) : Decidable (h.Queued e) :=
  inferInstanceAs (Decidable (∃ cpu < h.gCpuCount.toNat, ∃ nodes ∈ h.runqueue cpu, .entity e ∈ nodes))

/-- The runqueues of the `n` CPUs are the circular lists `q`. -/
structure Queues (n : ℕ) (h : Host) (q : Fin n → List Node) : Prop where
  cpus : h.gCpuCount.toNat = n
  rings : DList.Rings h.links (fun i : Fin n => .head i) q
  entities : ∀ i, ∀ x ∈ q i, ∃ e, x = .entity e ∧ h.entities e ≠ none

theorem Queues.wellFormed (hq : Queues n h q) : WellFormedQueues h := by
  obtain ⟨rfl, hr, he⟩ := hq
  exact ⟨q, hr, he⟩

theorem wellFormed_iff : WellFormedQueues h ↔ ∃ q, Queues h.gCpuCount.toNat h q :=
  ⟨fun ⟨q, hr, he⟩ => ⟨q, rfl, hr, he⟩, fun ⟨_, hq⟩ => hq.wellFormed⟩

theorem Queues.congr (hq : Queues n h q) (hcpus : h'.gCpuCount = h.gCpuCount)
    (hlinks : h'.links = h.links) (hents : ∀ e, h.entities e ≠ none → h'.entities e ≠ none) :
    Queues n h' q := by
  refine ⟨by rw [hcpus]; exact hq.cpus, by rw [hlinks]; exact hq.rings, fun i x hx => ?_⟩
  obtain ⟨e, rfl, he⟩ := hq.entities i x hx
  exact ⟨e, rfl, hents e he⟩

theorem Queues.exists_entity (hq : Queues n h q) {i : Fin n} {e : Addr} (he : .entity e ∈ q i) :
    h.entities e ≠ none := by
  obtain ⟨e', heq, hex⟩ := hq.entities i _ he
  cases heq
  exact hex

theorem Queues.insert (hq : Queues n h q) {e : Addr} {cpu : Fin n} {xs : List Node}
    (hrings : DList.Rings h'.links (fun i : Fin n => .head i) (Function.update q cpu xs))
    (hxs : ∀ x, x ∈ xs ↔ x ∈ q cpu ∨ x = .entity e) (hcpus : h'.gCpuCount = h.gCpuCount)
    (hents : ∀ x, h.entities x ≠ none → h'.entities x ≠ none) (he : h'.entities e ≠ none) :
    ∃ q', Queues n h' q' ∧ ∀ i x, x ∈ q' i ↔ x ∈ q i ∨ i = cpu ∧ x = .entity e := by
  have hmem : ∀ i x, x ∈ Function.update q cpu xs i ↔ x ∈ q i ∨ i = cpu ∧ x = .entity e := by
    intro i x
    by_cases hi : i = cpu
    · subst hi
      simp [hxs]
    · simp [hi]
  refine ⟨_, ⟨by rw [hcpus]; exact hq.cpus, hrings, fun i x hx => ?_⟩, hmem⟩
  rcases (hmem i x).mp hx with hx | ⟨-, rfl⟩
  · obtain ⟨e', rfl, he'⟩ := hq.entities i x hx
    exact ⟨e', rfl, hents e' he'⟩
  · exact ⟨e, rfl, he⟩

theorem Queues.notMem_cons (q : Fin n → List Node) {e : Addr} (hnot : ∀ i, .entity e ∉ q i) (i : Fin n) :
    .entity e ∉ Node.head i :: q i := by
  rw [List.mem_cons, not_or]
  exact ⟨nofun, hnot i⟩

theorem Queues.append (hq : Queues n h q) {e : Addr} {cpu : ℕ} (hcpu : cpu < n)
    (hnot : ∀ i, .entity e ∉ q i) (hcpus : h'.gCpuCount = h.gCpuCount)
    (hlinks : h'.links = listAddTail h.links (.entity e) (.head cpu))
    (hents : ∀ x, h.entities x ≠ none → h'.entities x ≠ none) (he : h'.entities e ≠ none) :
    Queues n h' (Function.update q ⟨cpu, hcpu⟩ (q ⟨cpu, hcpu⟩ ++ [.entity e])) := by
  refine ⟨by rw [hcpus]; exact hq.cpus, ?_, fun i x hx => ?_⟩
  · rw [hlinks]
    exact hq.rings.insertBefore ⟨cpu, hcpu⟩ (Queues.notMem_cons q hnot)
  have hold : x ∈ q i → ∃ e, x = .entity e ∧ h'.entities e ≠ none := fun hx => by
    obtain ⟨e', rfl, he'⟩ := hq.entities i x hx
    exact ⟨e', rfl, hents e' he'⟩
  by_cases hi : i = ⟨cpu, hcpu⟩
  · subst hi
    rw [Function.update_self, List.mem_append, List.mem_singleton] at hx
    exact hx.elim hold fun hx => ⟨e, hx, he⟩
  · rw [Function.update_of_ne hi] at hx
    exact hold hx

theorem Queues.enqueue (hq : Queues n h q) {e : Addr} {cpu : ℕ} (hcpu : cpu < n)
    (hnot : ∀ i, .entity e ∉ q i) (hcpus : h'.gCpuCount = h.gCpuCount)
    (hlinks : h'.links = listAddTail h.links (.entity e) (.head cpu))
    (hents : ∀ x, h.entities x ≠ none → h'.entities x ≠ none) (he : h'.entities e ≠ none) :
    ∃ q', Queues n h' q' ∧ ∀ i x, x ∈ q' i ↔ x ∈ q i ∨ i = ⟨cpu, hcpu⟩ ∧ x = .entity e := by
  have hrings := hq.rings.insertBefore ⟨cpu, hcpu⟩ (Queues.notMem_cons q hnot)
  refine hq.insert (by rw [hlinks]; exact hrings) (fun x => ?_) hcpus hents he
  rw [List.mem_append, List.mem_singleton]

theorem Queues.push (hq : Queues n h q) {e : Addr} {cpu : ℕ} (hcpu : cpu < n)
    (hnot : ∀ i, .entity e ∉ q i) (hcpus : h'.gCpuCount = h.gCpuCount)
    (hlinks : h'.links = listAdd h.links (.entity e) (.head cpu))
    (hents : ∀ x, h.entities x ≠ none → h'.entities x ≠ none) (he : h'.entities e ≠ none) :
    ∃ q', Queues n h' q' ∧ ∀ i x, x ∈ q' i ↔ x ∈ q i ∨ i = ⟨cpu, hcpu⟩ ∧ x = .entity e := by
  have hrings := hq.rings.insertAfter ⟨cpu, hcpu⟩ (Queues.notMem_cons q hnot)
  refine hq.insert (by rw [hlinks]; exact hrings) (fun x => ?_) hcpus hents he
  rw [List.mem_cons, or_comm]

theorem Queues.dequeue (hq : Queues n h q) {es : List Addr} (hnd : es.Nodup)
    (hes : ∀ e ∈ es, ∃ i, .entity e ∈ q i) (hcpus : h'.gCpuCount = h.gCpuCount)
    (hlinks : h'.links = unlinkAll h.links es)
    (hents : ∀ x, h.entities x ≠ none → h'.entities x ≠ none) :
    ∃ q', Queues n h' q' ∧ ∀ i e, .entity e ∈ q' i ↔ .entity e ∈ q i ∧ e ∉ es := by
  have hes' : ∀ x ∈ es.map Node.entity, ∃ i, x ∈ q i := by
    intro x hx
    obtain ⟨e, he, rfl⟩ := List.mem_map.mp hx
    exact hes e he
  obtain ⟨q', hr, hmem⟩ := hq.rings.removeAll (hnd.map Node.entity_injective) hes'
  refine ⟨q', ⟨by rw [hcpus]; exact hq.cpus, ?_, fun i x hx => ?_⟩, fun i e => ?_⟩
  · rw [hlinks, unlinkAll]
    rw [List.foldl_map] at hr
    exact hr
  · obtain ⟨e, rfl, he⟩ := hq.entities i x ((hmem i x).mp hx).1
    exact ⟨e, rfl, hents e he⟩
  · rw [hmem, List.mem_map_of_injective Node.entity_injective]

theorem Queues.remove (hq : Queues n h q) {e : Addr} (he : ∃ i, .entity e ∈ q i) : ∃ q',
    Queues n (h.setLinks (listDel h.links (.entity e))) q' ∧
      ∀ i d, .entity d ∈ q' i ↔ .entity d ∈ q i ∧ d ≠ e := by
  obtain ⟨q', hq', hmem⟩ : ∃ q', Queues n (h.setLinks (listDel h.links (.entity e))) q' ∧ _ :=
    hq.dequeue (List.nodup_singleton e) (fun d hd => List.mem_singleton.mp hd ▸ he) rfl rfl fun _ => id
  refine ⟨q', hq', fun i d => ?_⟩
  rw [hmem, List.mem_singleton]

theorem Queues.move (hq : Queues n h q) {e : Addr} (he : ∃ i, .entity e ∈ q i) {tgt : ℕ}
    (htgt : tgt < n) : ∃ q',
      Queues n (h.setLinks (listAddTail (listDel h.links (.entity e)) (.entity e) (.head tgt))) q' ∧
      ∀ i d, .entity d ∈ q' i ↔ (.entity d ∈ q i ∧ d ≠ e) ∨ i = ⟨tgt, htgt⟩ ∧ d = e := by
  -- in the state between the two calls it is on no queue
  obtain ⟨q₁, hq₁, hmem₁⟩ := hq.remove he
  obtain ⟨i, hi⟩ := he
  obtain ⟨q', hq', hmem⟩ : ∃ q', Queues n (h.setLinks (listAddTail (listDel h.links (.entity e))
      (.entity e) (.head tgt))) q' ∧ _ := hq₁.enqueue htgt
    (fun i hi => ((hmem₁ i e).mp hi).2 rfl) rfl rfl (fun _ => id) (hq.exists_entity hi)
  refine ⟨q', hq', fun i d => ?_⟩
  rw [hmem, hmem₁, Node.entity.injEq]

theorem Queues.moveFront (hq : Queues n h q) {e : Addr} (he : ∃ i, .entity e ∈ q i) {tgt : ℕ}
    (htgt : tgt < n) : ∃ q',
      Queues n (h.setLinks (listAdd (listDel h.links (.entity e)) (.entity e) (.head tgt))) q' ∧
      ∀ i d, .entity d ∈ q' i ↔ (.entity d ∈ q i ∧ d ≠ e) ∨ i = ⟨tgt, htgt⟩ ∧ d = e := by
  obtain ⟨q₁, hq₁, hmem₁⟩ := hq.remove he
  obtain ⟨i, hi⟩ := he
  obtain ⟨q', hq', hmem⟩ : ∃ q', Queues n (h.setLinks (listAdd (listDel h.links (.entity e))
      (.entity e) (.head tgt))) q' ∧ _ := hq₁.push htgt
    (fun i hi => ((hmem₁ i e).mp hi).2 rfl) rfl rfl (fun _ => id) (hq.exists_entity hi)
  refine ⟨q', hq', fun i d => ?_⟩
  rw [hmem, hmem₁, Node.entity.injEq]

theorem Queues.first (hq : Queues n h q) {src : ℕ} (hsrc : src < n)
    (hne : h.links.next (.head src) ≠ .head src) :
    ∃ e, h.links.next (.head src) = .entity e ∧ .entity e ∈ q ⟨src, hsrc⟩ := by
  obtain ⟨x, hx⟩ : ∃ x, h.links.next (.head src) = x := ⟨_, rfl⟩
  have hfirst : x ∈ q ⟨src, hsrc⟩ := by
    have hmem := (hq.rings.ring ⟨src, hsrc⟩).next_head_mem
    rw [hx] at hmem hne
    exact (List.mem_cons.mp hmem).resolve_left hne
  obtain ⟨e, rfl, -⟩ := hq.entities _ x hfirst
  exact ⟨e, hx, hfirst⟩

theorem Queues.rotate (hq : Queues n h q) {src tgt : ℕ} (hsrc : src < n) (htgt : tgt < n)
    (hne : h.links.next (.head src) ≠ .head src) : ∃ q',
      Queues n (h.setLinks (listAddTail (listDel h.links (h.links.next (.head src)))
        (h.links.next (.head src)) (.head tgt))) q' ∧
      ∀ e, (∃ i, .entity e ∈ q i) ↔ ∃ i, .entity e ∈ q' i := by
  obtain ⟨e, hx, hfirst⟩ := hq.first hsrc hne
  rw [hx]
  obtain ⟨q', hq', hmem⟩ := hq.move ⟨_, hfirst⟩ htgt
  refine ⟨q', hq', fun d => ?_⟩
  simp only [hmem]
  constructor
  · rintro ⟨i, hi⟩
    by_cases hde : d = e
    · exact ⟨_, .inr ⟨rfl, hde⟩⟩
    · exact ⟨i, .inl ⟨hi, hde⟩⟩
  · rintro ⟨i, ⟨hi, -⟩ | ⟨-, rfl⟩⟩
    · exact ⟨i, hi⟩
    · exact ⟨_, hfirst⟩

/-- **A `list_for_each` over a ring of entities visits them and ends.** There are no more of them than
live blocks. -/
theorem runqueue_of_held {cpu : ℕ} {es : List Addr} (hr : DList.Ring h.links (.head cpu) (es.map Node.entity))
    (hheld : ∀ e ∈ es, h.mem.heap.Holds .entity e) : h.runqueue cpu = some (es.map Node.entity) := by
  have hnd := (List.nodup_cons.mp hr.nodup).2.of_map _
  have hlen := Heap.length_le_live hnd hheld
  exact hr.walk (by rw [List.length_map]; unfold Host.fuel; omega)

theorem exists_entities {xs : List Node} (hents : ∀ x ∈ xs, ∃ e, x = .entity e ∧ h.entities e ≠ none) :
    ∃ es : List Addr, xs = es.map Node.entity ∧ ∀ e ∈ es, h.entities e ≠ none := by
  induction xs with
  | nil => exact ⟨[], rfl, by simp⟩
  | cons x xs ih =>
    obtain ⟨es, rfl, hes⟩ := ih fun y hy => hents y (List.mem_cons_of_mem _ hy)
    obtain ⟨e, rfl, he⟩ := hents x List.mem_cons_self
    exact ⟨e :: es, rfl, List.forall_mem_cons.mpr ⟨he, hes⟩⟩

theorem runqueue_of_ring {P : Addr → Prop} (hl : Layout P h) {cpu : ℕ} {xs : List Node}
    (hr : DList.Ring h.links (.head cpu) xs) (hents : ∀ x ∈ xs, ∃ e, x = .entity e ∧ h.entities e ≠ none) :
    h.runqueue cpu = some xs := by
  obtain ⟨es, rfl, hes⟩ := exists_entities hents
  refine runqueue_of_held hr fun e he => ?_
  obtain ⟨s, hs⟩ := Option.ne_none_iff_exists'.mp (hes e he)
  exact hl.entityHeld e s hs

theorem Queues.runqueue {P : Addr → Prop} (hq : Queues n h q) (hl : Layout P h) (i : Fin n) :
    h.runqueue i = some (q i) :=
  runqueue_of_ring hl (hq.rings.ring i) (hq.entities i)

theorem Queues.queued_iff {P : Addr → Prop} (hq : Queues n h q) (hl : Layout P h) {e : Addr} :
    h.Queued e ↔ ∃ i, .entity e ∈ q i := by
  constructor
  · rintro ⟨cpu, hcpu, nodes, hrun, he⟩
    rw [hq.cpus] at hcpu
    rw [hq.runqueue hl ⟨cpu, hcpu⟩] at hrun
    cases hrun
    exact ⟨_, he⟩
  · rintro ⟨i, he⟩
    exact ⟨i, by rw [hq.cpus]; exact i.2, q i, hq.runqueue hl i, he⟩

/-! ## Starting and stopping -/

theorem StartsAll.entityOf {cs : List Addr} (hs : StartsAll h cs h') {c e : Addr}
    (he : h'.entityOf c = some e) : h.entityOf c = some e ∨ h.entities e = none := by
  induction hs with
  | nil => exact .inl he
  | @snoc cs d u g g' hprev hu ht hst ih =>
    obtain ⟨u', hu', ⟨-, -, -, henq⟩ | ⟨hne, -⟩⟩ := hst
    swap
    · exact absurd rfl hne
    by_cases hcd : c = d
    · subst hcd
      rw [Host.entityOf, hu'] at he
      have he' : u'.schedEntity = some e := he
      rcases henq with ⟨hnone, -⟩ | ⟨x, cpu, hx, -, hold | hfresh, -⟩
      · rw [hnone] at he'
        cases he'
      · rw [hx] at he'
        cases he'
        apply ih
        rw [Host.entityOf, hu]
        exact hold
      · rw [hx] at he'
        cases he'
        right
        by_contra hex
        obtain ⟨s, hs⟩ := Option.ne_none_iff_exists'.mp hex
        rw [hprev.touches.entities e s hs] at hfresh
        cases hfresh
    · apply ih
      rw [Host.entityOf, ← ht.others c fun hc => hcd (List.mem_singleton.mp hc)]
      exact he

/-- **Starting vCPUs whose entities are on no queue** puts each of them on one. -/
theorem StartsAll.queues {cs : List Addr} {P : Addr → Prop} (hs : StartsAll h cs h')
    (hl : Layout P h) (hnd : cs.Nodup) (hq : Queues n h q)
    (hun : ∀ c ∈ cs, ∀ e, h.entityOf c = some e → ∀ i, .entity e ∉ q i) :
    ∃ q', Queues n h' q' ∧ (∀ i x, x ∈ q i → x ∈ q' i) ∧
      (∀ c ∈ cs, ∀ e, h'.entityOf c = some e → ∃ i, .entity e ∈ q' i) ∧
      ∀ i e, .entity e ∈ q' i → .entity e ∈ q i ∨ ∃ c ∈ cs, h'.entityOf c = some e := by
  induction hs with
  | nil => exact ⟨q, hq, fun _ _ => id, fun c hc => absurd hc List.not_mem_nil, fun _ _ => .inl⟩
  | @snoc cs c u g g' hprev hu ht hst ih =>
    obtain ⟨q₁, hq₁, hsub, hin, hback⟩ := ih (List.nodup_append.mp hnd).1 fun d hd =>
      hun d (List.mem_append_left _ hd)
    have hcs : c ∉ cs := notMem_of_nodup_append hnd
    have hsame : ∀ d ∈ cs, g'.entityOf d = g.entityOf d := fun d hd => by
      rw [Host.entityOf, ht.others d, Host.entityOf]
      rintro hc
      exact hcs (List.mem_singleton.mp hc ▸ hd)
    obtain ⟨u', hu', ⟨-, -, -, henq⟩ | ⟨hne, -⟩⟩ := hst
    swap
    · exact absurd rfl hne
    have hself : g'.entityOf c = u'.schedEntity := by rw [Host.entityOf, hu']; rfl
    have hents : ∀ x, g.entities x ≠ none → g'.entities x ≠ none := by
      intro x hx
      obtain ⟨s, hs⟩ := Option.ne_none_iff_exists'.mp hx
      rw [ht.entities x s hs]
      exact Option.some_ne_none s
    rcases henq with ⟨hnone, hlinks, -⟩ | ⟨e, cpu, he, hcpu, hold, -, hex, hlinks⟩
    · -- no memory for an entity
      refine ⟨q₁, hq₁.congr ht.statics.gCpuCount hlinks hents, hsub, fun d hd x hx => ?_,
        fun i x hx => ?_⟩
      · rcases List.mem_append.mp hd with hd | hd
        · rw [hsame d hd] at hx
          exact hin d hd x hx
        · rw [List.mem_singleton.mp hd, hself, hnone] at hx
          cases hx
      · rcases hback i x hx with hx | ⟨d, hd, hx⟩
        · exact .inl hx
        · exact .inr ⟨d, List.mem_append_left _ hd, (hsame d hd).trans hx⟩
    · have hnot : ∀ i, .entity e ∉ q₁ i := by
        intro i hi
        rcases hold with hold | hfresh
        · -- the entity was that of `c` from the beginning
          have hc₀ : h.entityOf c = some e := by
            rw [Host.entityOf, ← hprev.touches.others c hcs, hu]
            exact hold
          rcases hback i e hi with hi | ⟨d, hd, hde⟩
          · exact hun c (List.mem_append_right _ (List.mem_singleton_self c)) e hc₀ i hi
          · obtain ⟨w, hw, hwe⟩ := Option.bind_eq_some_iff.mp hc₀
            rcases hprev.entityOf hde with hde | hnew
            · obtain ⟨w', hw', hwe'⟩ := Option.bind_eq_some_iff.mp hde
              exact hcs (hl.inj c d w w' e hw hw' hwe hwe' ▸ hd)
            · obtain ⟨s, hs⟩ := hl.entity c w e hw hwe
              rw [hs] at hnew
              cases hnew
        · exact hq₁.exists_entity hi hfresh
      rw [hq₁.cpus] at hcpu
      obtain ⟨q', hq', hmem⟩ := hq₁.enqueue hcpu hnot ht.statics.gCpuCount hlinks hents hex
      refine ⟨q', hq', fun i x hx => (hmem i x).mpr (.inl (hsub i x hx)), fun d hd x hx => ?_,
        fun i x hx => ?_⟩
      · rcases List.mem_append.mp hd with hd | hd
        · rw [hsame d hd] at hx
          obtain ⟨i, hi⟩ := hin d hd x hx
          exact ⟨i, (hmem i _).mpr (.inl hi)⟩
        · rw [List.mem_singleton.mp hd, hself, he] at hx
          cases hx
          exact ⟨⟨cpu, hcpu⟩, (hmem _ _).mpr (.inr ⟨rfl, rfl⟩)⟩
      · rcases (hmem i _).mp hx with hx | ⟨-, hx⟩
        · rcases hback i x hx with hx | ⟨d, hd, hx⟩
          · exact .inl hx
          · exact .inr ⟨d, List.mem_append_left _ hd, (hsame d hd).trans hx⟩
        · cases hx
          exact .inr ⟨c, List.mem_append_right _ (List.mem_singleton_self c), hself.trans he⟩

theorem entitiesOf_nodup {P : Addr → Prop} (hl : Layout P h) {cs : List Addr} (hnd : cs.Nodup) :
    (cs.filterMap h.entityOf).Nodup := by
  apply hnd.filterMap
  intro c d e hc hd
  obtain ⟨u, hu, hue⟩ := Option.bind_eq_some_iff.mp hc
  obtain ⟨w, hw, hwe⟩ := Option.bind_eq_some_iff.mp hd
  exact hl.inj c d u w e hu hw hue hwe

theorem StopsAll.queues {cs : List Addr} (hs : StopsAll cs h h')
    (hnd : (cs.filterMap h.entityOf).Nodup) (hq : Queues n h q)
    (hin : ∀ c ∈ cs, ∀ e, h.entityOf c = some e → ∃ i, .entity e ∈ q i) :
    ∃ q', Queues n h' q' ∧
      ∀ i e, .entity e ∈ q' i ↔ .entity e ∈ q i ∧ ∀ c ∈ cs, h.entityOf c ≠ some e := by
  obtain ⟨q', hq', hmem⟩ := hq.dequeue hnd (fun e he => by
    obtain ⟨c, hc, hce⟩ := List.mem_filterMap.mp he
    exact hin c hc e hce) hs.touches.statics.gCpuCount hs.links fun x hx => by
      rw [hs.entities]
      exact hx
  refine ⟨q', hq', fun i e => ?_⟩
  rw [hmem, List.mem_filterMap]
  simp only [not_exists, not_and, ne_eq]

/-! ## The invariant -/

/-- The entities of the VM are on the queues. -/
def Enrolled (h : Host) (q : Fin n → List Node) (v : Nexusvm) : Prop :=
  ∀ c ∈ v.vcpus, ∀ e, h.entityOf c = some e → ∃ i, .entity e ∈ q i

/-- The queues are `q`, and every VM that runs or is paused is on them. -/
structure QueueInv (n : ℕ) (h : Host) (q : Fin n → List Node) : Prop where
  hv : HvInv h
  queues : Queues n h q
  enrolled : ∀ a v, h.vms a = some v → v.state = .running ∨ v.state = .paused → Enrolled h q v

/-- No VM is started that has a vCPU on a queue. -/
def StartsUnqueued : HvOp → Host → Prop
  | .lifecycle .start a, h => ∀ v ∈ h.vms a,
      v.state = .initialized ∨ v.state = .paused ∨ v.state = .shutdown →
      ∀ c ∈ v.vcpus, ∀ e ∈ h.entityOf c, ¬ h.Queued e
  | _, _ => True

instance (op : HvOp) (h : Host) : Decidable (StartsUnqueued op h) := by
  unfold StartsUnqueued
  split <;> infer_instance

theorem Layout.entityOf_inj {P : Addr → Prop} (hl : Layout P h) {c d e : Addr}
    (hc : h.entityOf c = some e) (hd : h.entityOf d = some e) : c = d := by
  obtain ⟨u, hu, hue⟩ := Option.bind_eq_some_iff.mp hc
  obtain ⟨w, hw, hwe⟩ := Option.bind_eq_some_iff.mp hd
  exact hl.inj c d u w e hu hw hue hwe

theorem QueueInv.vmStep (hi : QueueInv n h q) (hv : h.vms a = some v) {s : VmState}
    (hs : VmStep a v s h h') (hhv : HvInv h') {q' : Fin n → List Node} (hq' : Queues n h' q')
    (hkeep : ∀ i e, .entity e ∈ q i → (∀ c ∈ v.vcpus, h.entityOf c ≠ some e) →
      ∃ j, .entity e ∈ q' j)
    (hnew : s = .running ∨ s = .paused → Enrolled h' q' v) : QueueInv n h' q' := by
  refine ⟨hhv, hq', fun b w hw hws c hc e he => ?_⟩
  obtain ⟨h₁, m, ht, -, rfl⟩ := hs
  by_cases hba : b = a
  · subst hba
    rw [Host.setVm_vms, Function.update_self] at hw
    cases hw
    exact hnew hws c hc e he
  · rw [Host.setVm_vms, Function.update_of_ne hba, Host.setMem_vms, ht.vms] at hw
    have hcv := hi.hv.good.layout.vcpus_disjoint hv hw hba
    have he' : h.entityOf c = some e := by
      rw [Host.entityOf, ← ht.others c (hcv c hc)]
      exact he
    obtain ⟨i, hie⟩ := hi.enrolled b w hw hws c hc e he'
    apply hkeep i e hie
    rintro d hd hde
    exact hcv c hc (hi.hv.good.layout.entityOf_inj hde he' ▸ hd)

theorem mapVcpus_entityOf {f : Nexusvcpu → Nexusvcpu} (cs : List Addr)
    (hse : ∀ u, (f u).schedEntity = u.schedEntity) : (h.mapVcpus cs f).entityOf = h.entityOf := by
  funext c
  by_cases hc : c ∈ cs
  · rw [Host.entityOf, Host.mapVcpus_vcpus_of_mem hc, Host.entityOf]
    cases h.vcpus c with
    | none => rfl
    | some u => exact hse u
  · rw [Host.entityOf, Host.mapVcpus_vcpus_of_notMem hc, Host.entityOf]

/-- **A start of a VM that is on no queue** puts at most its own entities on the queues. -/
theorem StartCall.queues (hg : Good h) (hq : Queues n h q) (hv : h.vms a = some v) {r : Result}
    (hun : ∀ c ∈ v.vcpus, ∀ e, h.entityOf c = some e → ¬ h.Queued e) (hs : StartCall a v h r h')
    (hg' : Good h') : ∃ q', Queues n h' q' ∧
      (∀ i e, .entity e ∈ q i → (∀ c ∈ v.vcpus, h.entityOf c ≠ some e) → .entity e ∈ q' i) ∧
      (r = .ok → Enrolled h' q' v) ∧
      ∀ i e, .entity e ∈ q' i → .entity e ∈ q i ∨ r = .ok ∧ ∃ c ∈ v.vcpus, h'.entityOf c = some e := by
  have hun' : ∀ c ∈ v.vcpus, ∀ e, h.entityOf c = some e → ∀ i, .entity e ∉ q i :=
    fun c hc e he i hie => hun c hc e he ((hq.queued_iff hg.layout).mpr ⟨i, hie⟩)
  have hnd := hg.layout.nodup a v trivial hv
  obtain ⟨-, ⟨rfl, h₁, hloop, rfl⟩ | ⟨hr, hloop⟩⟩ := hs
  · obtain ⟨-, hall⟩ | ⟨hc, -⟩ := hloop
    swap
    · exact absurd rfl hc
    obtain ⟨q', hq', hsub, hin, hback⟩ := hall.queues hg.layout hnd hq hun'
    refine ⟨q', hq'.congr rfl rfl fun _ => id, fun i e he _ => hsub i _ he, fun _ => hin, fun i e he => ?_⟩
    exact (hback i e he).imp_right fun hown => ⟨rfl, hown⟩
  · obtain ⟨hok, -⟩ | ⟨-, started, c, u, h₁, h₂, hsub, hc, hndc, hall, hu, ht, hst, hstop⟩ := hloop
    · exact absurd hok hr
    have hcs : c ∉ started := notMem_of_nodup_append hndc
    obtain ⟨q₁, hq₁, hkeep, hin, hback⟩ := hall.queues hg.layout (List.nodup_append.mp hndc).1
      hq fun d hd => hun' d (hsub d hd)
    obtain ⟨u', -, ⟨hok, -⟩ | ⟨-, -, -, -, hlinks, hents⟩⟩ := hst
    · exact absurd hok hr
    have hq₂ : Queues n h₂ q₁ := hq₁.congr ht.statics.gCpuCount hlinks fun x hx => by
      rw [hents]
      exact hx
    have hsame : ∀ d ∈ started, h₂.entityOf d = h₁.entityOf d := fun d hd => by
      rw [Host.entityOf, ht.others d, Host.entityOf]
      rintro hdc
      exact hcs (List.mem_singleton.mp hdc ▸ hd)
    have hnd₂ := entitiesOf_nodup hg'.layout (List.nodup_append.mp hndc).1
    rw [hstop.entityOf] at hnd₂
    obtain ⟨q', hq', hmem⟩ := hstop.queues hnd₂ hq₂ fun d hd e he =>
      hin d hd e ((hsame d hd).symm.trans he)
    refine ⟨q', hq', fun i e he hother => ?_, fun hok => absurd hok hr, fun i e he => ?_⟩
    · refine (hmem i e).mpr ⟨hkeep i _ he, fun d hd hde => ?_⟩
      rw [hsame d hd] at hde
      rcases hall.entityOf hde with hde | hnew
      · exact hother d (hsub d hd) hde
      · exact hq.exists_entity he hnew
    · -- what the loop has put on the queues is taken back
      obtain ⟨he₁, hnot⟩ := (hmem i e).mp he
      rcases hback i e he₁ with he₁ | ⟨d, hd, hde⟩
      · exact .inl he₁
      · exact absurd ((hsame d hd).trans hde) (hnot d hd)

/-- **Starting a VM that is on no queue.** -/
theorem QueueInv.start (hi : QueueInv n h q) (hv : h.vms a = some v) {r : Result}
    (hun : ∀ c ∈ v.vcpus, ∀ e, h.entityOf c = some e → ¬ h.Queued e) (hs : StartCall a v h r h')
    (hhv : HvInv h') : ∃ q', QueueInv n h' q' := by
  obtain ⟨q', hq', hkeep, hin, -⟩ := hs.queues hi.hv.good hi.queues hv hun hhv.good
  have hkeep' : ∀ i e, .entity e ∈ q i → (∀ c ∈ v.vcpus, h.entityOf c ≠ some e) →
      ∃ j, .entity e ∈ q' j := fun i e he hother => ⟨i, hkeep i e he hother⟩
  obtain ⟨hstate, ⟨rfl, h₁, hloop, rfl⟩ | ⟨hr, hloop⟩⟩ := hs
  · exact ⟨q', hi.vmStep hv ⟨_, _, hloop.touches, rfl, rfl⟩ hhv hq' hkeep' fun _ => hin rfl⟩
  · have hstep : VmStep a v v.state h h' := by
      refine ⟨h', h'.mem, hloop.touches, rfl, ?_⟩
      have hv' : h'.vms a = some v := by rw [hloop.touches.vms]; exact hv
      simp only [Host.setVm, Host.setMem, ← hv', Function.update_eq_self]
    refine ⟨q', hi.vmStep hv hstep hhv hq' hkeep' fun hs => ?_⟩
    obtain ⟨hok, -⟩ | ⟨-, started, c, u, h₁, h₂, -, hc, hndc, hall, hu, -, hst, -⟩ := hloop
    · exact absurd hok hr
    obtain ⟨u', -, ⟨hok, -⟩ | ⟨-, -, hini, -⟩⟩ := hst
    · exact absurd hok hr
    -- the vCPUs of a paused VM are initialized, so none of them fails
    rcases hs with hs | hs
    · rw [hs] at hstate
      simp at hstate
    · rw [hall.touches.others c (notMem_of_nodup_append hndc)] at hu
      rw [(hi.hv.good.coherent a v hv).paused hs c hc u hu] at hini
      cases hini

theorem Destroys.queues (hi : QueueInv n h q) (hv : h.vms a = some v) (hd : Destroys a v h h') :
    ∃ q', Queues n h' q' ∧ ∀ i e, .entity e ∈ q' i ↔
      .entity e ∈ q i ∧ (v.state = .running → ∀ c ∈ v.vcpus, h.entityOf c ≠ some e) := by
  have hents : ∀ e, h.entities e ≠ none → h'.entities e ≠ none := fun e he => by
    rw [hd.entities]
    exact he
  have hl := hi.hv.good.layout
  rcases hd.links with ⟨hrun, hlinks⟩ | ⟨hrun, hlinks⟩
  · exact ⟨q, hi.queues.congr hd.statics.gCpuCount hlinks hents,
      fun i e => ⟨fun he => ⟨he, fun hc => absurd hc hrun⟩, And.left⟩⟩
  · obtain ⟨q', hq', hmem⟩ := hi.queues.dequeue
      (entitiesOf_nodup hl (hl.nodup a v trivial hv)) (fun e he => by
        obtain ⟨c, hc, hce⟩ := List.mem_filterMap.mp he
        exact hi.enrolled a v hv (.inl hrun) c hc e hce) hd.statics.gCpuCount hlinks hents
    refine ⟨q', hq', fun i e => ?_⟩
    rw [hmem, List.mem_filterMap]
    simp only [hrun, true_imp_iff, not_exists, not_and, ne_eq]

/-- **A call on one VM keeps the queues.** -/
theorem QueueInv.lifecycle (hi : QueueInv n h q) (hv : h.vms a = some v) {op : LifecycleOp}
    (hC : StartsUnqueued (.lifecycle op a) h) (hs : LifeStep a v h op h') (hhv : HvInv h') :
    ∃ q', QueueInv n h' q' := by
  have hnd := hi.hv.good.layout.nodup a v trivial hv
  have hstep := hs.vmStep hv
  -- a running VM is taken off the queues
  have hstopped : ∀ h₁, v.state = .running → StopsAll v.vcpus h h₁ → ∃ q', Queues n h₁ q' ∧
      ∀ i e, .entity e ∈ q i → (∀ c ∈ v.vcpus, h.entityOf c ≠ some e) → ∃ j, .entity e ∈ q' j := by
    intro h₁ hrun hs
    obtain ⟨q', hq', hmem⟩ := hs.queues (entitiesOf_nodup hi.hv.good.layout hnd) hi.queues
      (hi.enrolled a v hv (.inl hrun))
    exact ⟨q', hq', fun i e he hother => ⟨i, (hmem i e).mpr ⟨he, hother⟩⟩⟩
  cases hs with
  | start hs => exact hi.start hv (hC v hv hs.1) hs hhv
  | stop hrun hs =>
    obtain ⟨q', hq', hkeep⟩ := hstopped _ hrun hs
    exact ⟨q', hi.vmStep hv ⟨_, _, hs.touches, rfl, rfl⟩ hhv (hq'.congr rfl rfl fun _ => id) hkeep
      (by simp)⟩
  | pause hrun =>
    have ht := Touches.mapVcpus (h := h) (f := Nexusvcpu.pause) v.vcpus (fun _ => rfl)
      (fun _ => rfl) fun _ => id
    refine ⟨q, hi.vmStep hv (s := .paused) ⟨_, _, ht, rfl, rfl⟩ hhv
      (hi.queues.congr rfl rfl fun _ => id) (fun i e he _ => ⟨i, he⟩) fun _ c hc e he => ?_⟩
    refine hi.enrolled a v hv (.inl hrun) c hc e ?_
    rw [← mapVcpus_entityOf (f := Nexusvcpu.pause) v.vcpus fun _ => rfl]
    exact he
  | resume hpaused =>
    have ht := Touches.mapVcpus (h := h) (f := Nexusvcpu.resume) v.vcpus (fun _ => rfl)
      (fun _ => rfl) fun _ => id
    refine ⟨q, hi.vmStep hv (s := .running) ⟨_, _, ht, rfl, rfl⟩ hhv
      (hi.queues.congr rfl rfl fun _ => id) (fun i e he _ => ⟨i, he⟩) fun _ c hc e he => ?_⟩
    refine hi.enrolled a v hv (.inr hpaused) c hc e ?_
    rw [← mapVcpus_entityOf (f := Nexusvcpu.resume) v.vcpus fun _ => rfl]
    exact he
  | @reset cold h₁ hs =>
    have ht := hs.touches.trans (Touches.mapVcpus (f := Nexusvcpu.reset) v.vcpus (fun _ => rfl)
      (fun _ => rfl) fun _ => id)
    have hvm : VmStep a v .shutdown h _ :=
      ⟨_, _, ht, h₁.mem.resetRoot_heap v.eptRoot cold, rfl⟩
    rcases hs with ⟨-, rfl⟩ | ⟨hrun, hs⟩
    · exact ⟨q, hi.vmStep hv hvm hhv (hi.queues.congr rfl rfl fun _ => id)
        (fun i e he _ => ⟨i, he⟩) (by simp)⟩
    · obtain ⟨q', hq', hkeep⟩ := hstopped _ hrun hs
      exact ⟨q', hi.vmStep hv hvm hhv (hq'.congr rfl rfl fun _ => id) hkeep (by simp)⟩

/-- **Each call keeps the queues**, where no VM is started that has a vCPU on a queue. -/
theorem queueInv_step (hi : QueueInv n h q) {op : HvOp} (hC : StartsUnqueued op h)
    (hs : HvStep h op h') (hhv : HvInv h') : ∃ q', QueueInv n h' q' := by
  have hg := hi.hv.good
  cases hs with
  | createFailed ha hcase => exact ⟨q, hhv, hi.queues.congr rfl rfl fun _ => id, hi.enrolled⟩
  | @create config vm v h₁ name hid hlen _ _ hb =>
    have hq' : Queues n (h₁.linkVm vm v) q := by
      rw [hb.shape]
      exact hi.queues.congr rfl rfl fun _ => id
    refine ⟨q, hhv, hq', fun b w hw hws c hc e he => ?_⟩
    by_cases hne : b = vm
    · subst hne
      have hself : (h₁.linkVm b v).vms b = some { v with next := h₁.hv.vms, state := .initialized } :=
        if_pos rfl
      rw [hself] at hw
      cases hw
      simp at hws
    · obtain ⟨x, hx, hwx⟩ := hb.old hne hw
      rw [hwx] at hws hc
      obtain ⟨u, hu, -⟩ := hg.layout.vcpus b x trivial hx c hc
      refine hi.enrolled b x hx hws c hc e ?_
      rw [Host.entityOf, hu, ← (hb.vcpus_of_some hg.layout hu).2]
      exact he
  | lifecycle hv hs => exact hi.lifecycle hv hC hs hhv
  | @destroy a v h' hv hd =>
    have hold : ∀ c e, h'.entityOf c = some e → c ∉ v.vcpus ∧ h.entityOf c = some e := by
      intro c e he
      obtain ⟨u, hu, hue⟩ := Option.bind_eq_some_iff.mp he
      obtain ⟨hc, hu'⟩ := hd.vcpu hu
      exact ⟨hc, by rw [Host.entityOf, hu']; exact hue⟩
    obtain ⟨q', hq', hmem⟩ := hd.queues hi hv
    refine ⟨q', hhv, hq', fun b w hw hws c hc e he => ?_⟩
    obtain ⟨hba, x, hx, hwx⟩ := hd.old hw
    rw [hwx] at hws hc
    obtain ⟨hcv, he'⟩ := hold c e he
    obtain ⟨i, hie⟩ := hi.enrolled b x hx hws c hc e he'
    refine ⟨i, (hmem i e).mpr ⟨hie, fun _ d hd hde => hcv ?_⟩⟩
    exact hg.layout.entityOf_inj hde he' ▸ hd
  | @loadBalance cpu tgt hcpu htgt hne =>
    have hcpu' : cpu.toNat < n := by rw [← hi.queues.cpus]; exact UInt32.lt_iff_toNat_lt.mp hcpu
    have htgt' : tgt < n := by rw [← hi.queues.cpus]; exact htgt
    obtain ⟨q', hq', hmem⟩ := hi.queues.rotate hcpu' htgt' hne
    refine ⟨q', hhv, hq', fun a v hv hs c hc e he => ?_⟩
    rw [← hmem]
    exact hi.enrolled a v hv hs c hc e he

/-! ## Runs -/

theorem Boot.queueInv (hb : Boot h) : QueueInv h.gCpuCount.toNat h fun _ => [] := by
  refine ⟨hb.hvInv, ⟨rfl, ⟨fun i => DList.ring_nil.mpr (hb.heads i i.2), fun i j hij x hx => ?_⟩,
    fun i x hx => absurd hx List.not_mem_nil⟩, fun a v hv => ?_⟩
  · rw [List.mem_singleton] at hx ⊢
    rw [hx, Node.head.injEq, ← Fin.ext_iff]
    exact hij
  · rw [hb.vms] at hv
    cases hv

theorem queueInv_run {h₀ : Host} (hboot : Boot h₀) {ops : List HvOp}
    (hC : Along HvOp.run StartsUnqueued ops h₀) (hrun : (runOps HvOp.run ops).run h₀ = some ((), h)) :
    ∃ q, QueueInv h₀.gCpuCount.toNat h q := by
  refine wlp_runOps (I := fun h => ∃ q, QueueInv h₀.gCpuCount.toNat h q) ?_ hC
    ⟨_, hboot.queueInv⟩ () h hrun
  rintro op g hCg ⟨q, hi⟩
  refine wlp_mono (hvOp_spec hi.hv op) ?_
  rintro _ g' ⟨hhv, rfl | hs⟩
  · exact ⟨q, hi⟩
  · exact queueInv_step hi hCg hs hhv

/-- **The runqueues stay well formed.** From empty queues, every run of creations, lifecycle calls,
destructions and load balancing in which no VM is started that has a vCPU on a queue leads to
well-formed queues, and a `list_for_each` over any of them ends. -/
theorem runqueues_wellFormed {h₀ : Host} (hboot : Boot h₀) {ops : List HvOp}
    (hC : Along HvOp.run StartsUnqueued ops h₀) (hrun : (runOps HvOp.run ops).run h₀ = some ((), h)) :
    WellFormedQueues h ∧ ∀ cpu < h.gCpuCount.toNat, ∃ nodes, h.runqueue cpu = some nodes := by
  obtain ⟨q, hi⟩ := queueInv_run hboot hC hrun
  refine ⟨hi.queues.wellFormed, fun cpu hcpu => ?_⟩
  rw [hi.queues.cpus] at hcpu
  exact ⟨_, hi.queues.runqueue hi.hv.good.layout ⟨cpu, hcpu⟩⟩

theorem runqueues_wellFormed_restart : ∃ h, (runOps HvOp.run [.create { vcpuCount := 1 },
      .lifecycle .start 16384, .lifecycle .stop 16384, .lifecycle .start 16384]).run
        (bootHost 1 .intel) = some ((), h) ∧
      WellFormedQueues h ∧ h.runqueue 0 = some [.entity 180224] := by
  have hq : ((runOps HvOp.run [.create { vcpuCount := 1 }, .lifecycle .start 16384,
      .lifecycle .stop 16384, .lifecycle .start 16384]).run (bootHost 1 .intel)).map
        (fun p => p.2.runqueue 0) = some (some [.entity 180224]) := by decide +kernel
  obtain ⟨⟨⟨⟩, h⟩, hrun, hq⟩ := Option.map_eq_some_iff.mp hq
  refine ⟨h, hrun, ?_, hq⟩
  exact (runqueues_wellFormed (boot_bootHost (by decide) .intel) (by decide +kernel) hrun).1

/-- **The queues are not kept in every run.** A paused VM is on its queue, and starting it puts its
entity there a second time: the entity becomes its own successor, and the loops over the queue do
not end. -/
theorem start_of_paused_breaks_queue : ∃ h, (runOps HvOp.run [.create { vcpuCount := 1 },
      .lifecycle .start 16384, .lifecycle .pause 16384, .lifecycle .start 16384]).run
        (bootHost 1 .intel) = some ((), h) ∧
      h.mem.heap.refused = 0 ∧ h.links.next (.entity 180224) = .entity 180224 ∧
      h.runqueue 0 = none ∧ ¬ WellFormedQueues h := by
  have hq : ((runOps HvOp.run [.create { vcpuCount := 1 }, .lifecycle .start 16384,
      .lifecycle .pause 16384, .lifecycle .start 16384]).run (bootHost 1 .intel)).map
        (fun p => (p.2.mem.heap.refused, p.2.links.next (.entity 180224), p.2.runqueue 0,
          p.2.gCpuCount)) = some (0, .entity 180224, none, 1) := by decide +kernel
  obtain ⟨⟨⟨⟩, h⟩, hrun, hq⟩ := Option.map_eq_some_iff.mp hq
  obtain ⟨hrefused, hnext, hnone, hcpus⟩ : _ ∧ _ ∧ _ ∧ h.gCpuCount = 1 := by
    simpa only [Prod.mk.injEq] using hq
  refine ⟨h, hrun, hrefused, hnext, hnone, fun hwf => ?_⟩
  obtain ⟨q, hq⟩ := wellFormed_iff.mp hwf
  have hpos : 0 < h.gCpuCount.toNat := by
    rw [hcpus]
    decide
  have hend := hq.runqueue (hvInv_run (boot_bootHost (by decide) .intel) hrun).good.layout ⟨0, hpos⟩
  have hend' : h.runqueue 0 = some (q ⟨0, hpos⟩) := hend
  rw [hnone] at hend'
  cases hend'

end NexusVM
