import NexusVM.Homes

/-!
# The runqueues as lists

What the calls that put a vCPU on a runqueue, take it off or move it do to the lists of all CPUs.

* `RunqueuesAre`, `Queues.runqueuesAre`: the runqueues are these lists, read in both directions;
* `deleteFrom`, `appendTo`, `pushTo`: the operations on lists;
* `Queues.listAddTail`, `Queues.listAdd`, **`Queues.listDel`**: the pointer updates perform them;
* **`runqueue_calls_refine_lists`**: so do the calls.
-/

namespace NexusVM

open Prog

variable {n : ℕ} {q : Fin n → List Node} {h h' : Host} {c e : Addr} {u : Nexusvcpu} {home : Fin n}

/-! ## Lists -/

/-- The runqueues of the `n` CPUs are the circular lists `q`, and `next` and `prev` are inverse on them. -/
structure RunqueuesAre (n : ℕ) (h : Host) (q : Fin n → List Node) : Prop extends Queues n h q where
  inverse : ∀ i : Fin n, ∀ x ∈ Node.head i :: q i,
    h.links.prev (h.links.next x) = x ∧ h.links.next (h.links.prev x) = x

theorem Queues.runqueuesAre (hq : Queues n h q) : RunqueuesAre n h q :=
  ⟨hq, fun i _ hx => (hq.rings.ring i).inverse hx⟩

/-- The entity is taken out of the list that has it. -/
def deleteFrom (q : Fin n → List Node) (e : Addr) : Fin n → List Node := fun i => (q i).erase (.entity e)

/-- The entity is put at the end of a list. -/
def appendTo (q : Fin n → List Node) (home : Fin n) (e : Addr) : Fin n → List Node :=
  Function.update q home (q home ++ [.entity e])

/-- The entity is put at the front of a list. -/
def pushTo (q : Fin n → List Node) (home : Fin n) (e : Addr) : Fin n → List Node :=
  Function.update q home (.entity e :: q home)

/-! ## Pointers -/

theorem Queues.existsUnique (hq : Queues n h q) (he : ∃ i, .entity e ∈ q i) : ∃! i, .entity e ∈ q i := by
  obtain ⟨i, hi⟩ := he
  exact ⟨i, hi, fun j hj => hq.rings.eq_of_mem hj hi⟩

theorem Queues.notMem_deleteFrom (hq : Queues n h q) (e : Addr) (i : Fin n) :
    .entity e ∉ deleteFrom q e i := fun hmem =>
  ((List.nodup_cons.mp (hq.rings.ring i).nodup).2.mem_erase_iff.mp hmem).1 rfl

theorem Queues.listAddTail (hq : Queues n h q) (hnot : ∀ i, .entity e ∉ q i) (he : h.entities e ≠ none) :
    Queues n (h.setLinks (listAddTail h.links (.entity e) (.head home))) (appendTo q home e) :=
  hq.append home.isLt hnot rfl rfl (fun _ => id) he

theorem Queues.listAdd (hq : Queues n h q) (hnot : ∀ i, .entity e ∉ q i) (he : h.entities e ≠ none) :
    Queues n (h.setLinks (listAdd h.links (.entity e) (.head home))) (pushTo q home e) := by
  refine ⟨hq.cpus, hq.rings.insertAfter home (Queues.notMem_cons q hnot), fun i x hx => ?_⟩
  by_cases hi : i = home
  · subst hi
    rw [pushTo, Function.update_self, List.mem_cons] at hx
    exact hx.elim (fun hx => ⟨e, hx, he⟩) (hq.entities i x)
  · rw [pushTo, Function.update_of_ne hi] at hx
    exact hq.entities i x hx

/-- **`list_del`** takes the entity out of the list that has it, wherever it is. -/
theorem Queues.listDel (hq : Queues n h q) (he : ∃ i, .entity e ∈ q i) :
    Queues n (h.setLinks (listDel h.links (.entity e))) (deleteFrom q e) := by
  obtain ⟨i, hi⟩ := he
  have hdelete : deleteFrom q e = Function.update q i ((q i).erase (.entity e)) := by
    funext j
    by_cases hj : j = i
    · subst hj
      rw [Function.update_self]
      rfl
    · rw [Function.update_of_ne hj]
      exact List.erase_of_not_mem fun hmem => hj (hq.rings.eq_of_mem hmem hi)
  refine ⟨hq.cpus, ?_, fun j x hx => hq.entities j x (List.mem_of_mem_erase hx)⟩
  rw [hdelete]
  exact hq.rings.remove hi

/-! ## Calls -/

/-- The CPU whose queue a vCPU uses. -/
def IsHome (u : Nexusvcpu) (home : Fin n) : Prop :=
  home.val = if u.physicalCpu.toNat < n then u.physicalCpu.toNat else u.vcpuId.toNat % n

theorem home_eq (hq : Queues n h q) (u : Nexusvcpu) : (u.home h.gCpuCount).toNat =
    if u.physicalCpu.toNat < n then u.physicalCpu.toNat else u.vcpuId.toNat % n := by
  have hlt : u.physicalCpu ≥ h.gCpuCount ↔ ¬ u.physicalCpu.toNat < n := by
    rw [← hq.cpus, Nat.not_lt]
    exact UInt32.le_iff_toNat_le
  unfold Nexusvcpu.home
  split_ifs with hge hcpu hcpu
  · exact absurd hcpu (hlt.mp hge)
  · rw [UInt32.toNat_mod, hq.cpus]
  · rfl
  · exact absurd (hlt.mpr hcpu) hge

theorem Queues.homeCpu (hq : Queues n h q) (u : Nexusvcpu)
    (hhome : IsHome u home) :
    wp (homeCpu u) (fun cpu h' => h' = h ∧ cpu.toNat = home) h := by
  have hcpus : h.gCpuCount ≠ 0 := by
    rintro hzero
    have hpos := home.pos
    rw [← hq.cpus, hzero] at hpos
    exact absurd hpos (by decide)
  refine wp_mono (homeCpu_at hcpus u) ?_
  rintro _ _ ⟨rfl, rfl⟩
  exact ⟨rfl, (home_eq hq u).trans hhome.symm⟩

/-- What `scheduler_add_vcpu` does to the lists: a vCPU that has no entity gets one, if there is memory. -/
inductive AddsTo (h : Host) (q : Fin n → List Node) (home : Fin n) (c : Addr) (u : Nexusvcpu) :
    Result → Host → Prop
  | appended {h' : Host} {e : Addr} : (∀ x, u.schedEntity = some x → x = e) → h'.entityOf c = some e →
      (∀ i, .entity e ∉ q i) → RunqueuesAre n h' (appendTo q home e) → AddsTo h q home c u .ok h'
  | noMemory {h' : Host} : u.schedEntity = none →
      ¬ h.mem.heap.Serves .entity 16 (1 * sizeofSchedEntity) 1 → RunqueuesAre n h' q →
      AddsTo h q home c u .errNoMemory h'

theorem Queues.giveEntity (hq : Queues n h q) {vmId : UInt32} (hnot : ∀ i, .entity e ∉ q i) :
    Queues n ((h.giveEntity c e u vmId).enqueue e home) (appendTo q home e) := by
  have hnew : (h.giveEntity c e u vmId).entities e ≠ none := fun hnone =>
    Option.some_ne_none _ ((Function.update_self e _ _).symm.trans hnone)
  have hold : ∀ x, h.entities x ≠ none → (h.giveEntity c e u vmId).entities x ≠ none := by
    intro x hx
    by_cases hxe : x = e
    · exact hxe ▸ hnew
    · exact fun hnone => hx ((Function.update_of_ne hxe _ _).symm.trans hnone)
  exact hq.append home.isLt hnot rfl rfl hold hnew

theorem Queues.schedulerAddVcpu (hq : Queues n h q) (hu : h.vcpus c = some u) (hvm : h.vms u.vm ≠ none)
    (hhome : IsHome u home) (hlive : ∀ i e, .entity e ∈ q i → h.mem.heap.Holds .entity e)
    (hun : ∀ e, u.schedEntity = some e → h.entities e ≠ none ∧ ∀ i, .entity e ∉ q i) :
    wp (schedulerAddVcpu (some c)) (AddsTo h q home c u) h := by
  obtain ⟨v, hv⟩ := Option.ne_none_iff_exists'.mp hvm
  rw [NexusVM.schedulerAddVcpu, wp_bind, wp_getVcpu]
  refine ⟨u, hu, ?_⟩
  rw [wp_bind]
  refine wp_mono (hq.homeCpu u hhome) ?_
  rintro cpu h' ⟨rfl, hcpu⟩
  split
  next e he =>
    obtain ⟨hex, hnot⟩ := hun e he
    simp only [wp_bind, wp_getLinks, wp_putLinks, wp_pure]
    rw [hcpu]
    refine .appended (fun x hx => ?_) ((entityOf_some hu).trans he) hnot
      (hq.listAddTail hnot hex).runqueuesAre
    exact Option.some.inj (hx.symm.trans he)
  next he =>
    rw [wp_bind]
    refine wp_alignedAlloc_iff.mpr ⟨fun e _ hf => ?_, fun hno => ?_⟩
    · -- the block of the new entity is no block of a queued one
      have hnot : ∀ i, .entity e ∉ q i := fun i hi => hf.base_ne (hlive i e hi) rfl
      have hqueues : Queues n ((h'.giveEntity c e u v.id).enqueue e home) (appendTo q home e) :=
        hq.giveEntity hnot
      simp only [wp_bind, wp_getVm, wp_putVcpu, wp_putEntity, wp_getLinks, wp_putLinks, wp_pure]
      refine ⟨v, hv, ?_⟩
      rw [hcpu]
      refine .appended (fun x hx => ?_) entityOf_giveEntity hnot hqueues.runqueuesAre
      rw [he] at hx
      cases hx
    · have hqueues : Queues n h'.refuse q := hq.congr rfl rfl fun _ => id
      rw [wp_pure]
      exact .noMemory he hno hqueues.runqueuesAre

theorem Queues.schedulerRemoveVcpu (hq : Queues n h q) (hu : h.vcpus c = some u) (hhome : IsHome u home)
    (he : u.schedEntity = some e) (hin : ∃ i, .entity e ∈ q i) :
    wp (schedulerRemoveVcpu (some c)) (fun r h' => r = .ok ∧ RunqueuesAre n h' (deleteFrom q e)) h := by
  rw [NexusVM.schedulerRemoveVcpu, wp_bind, wp_getVcpu]
  refine ⟨u, hu, ?_⟩
  rw [he, wp_bind]
  refine wp_mono (hq.homeCpu u hhome) ?_
  rintro cpu h' ⟨rfl, -⟩
  rw [wp_bind, wp_getLinks, wp_bind, wp_putLinks, wp_pure]
  exact ⟨rfl, (hq.listDel hin).runqueuesAre⟩

theorem Queues.schedulerYield (hq : Queues n h q) (hu : h.vcpus c = some u) (hhome : IsHome u home)
    (he : u.schedEntity = some e) (hin : ∃ i, .entity e ∈ q i) : wp (schedulerYield (some c))
      (fun _ h' => RunqueuesAre n h' (appendTo (deleteFrom q e) home e)) h := by
  obtain ⟨i, hi⟩ := hin
  rw [NexusVM.schedulerYield, wp_bind, wp_getVcpu]
  refine ⟨u, hu, ?_⟩
  rw [he, wp_bind]
  refine wp_mono (hq.homeCpu u hhome) ?_
  rintro cpu h' ⟨rfl, hcpu⟩
  rw [wp_bind, wp_getLinks, wp_putLinks, hcpu]
  exact ((hq.listDel ⟨i, hi⟩).listAddTail (hq.notMem_deleteFrom e) (hq.exists_entity hi)).runqueuesAre

theorem Queues.schedulerWake (hq : Queues n h q) (hu : h.vcpus c = some u) (hhome : IsHome u home)
    (he : u.schedEntity = some e) (hin : ∃ i, .entity e ∈ q i) : wp (schedulerWake (some c))
      (fun _ h' => RunqueuesAre n h' (pushTo (deleteFrom q e) home e)) h := by
  obtain ⟨i, hi⟩ := hin
  rw [NexusVM.schedulerWake, wp_bind, wp_getVcpu]
  refine ⟨u, hu, ?_⟩
  rw [he, wp_bind]
  refine wp_mono (hq.homeCpu u hhome) ?_
  rintro cpu h' ⟨rfl, hcpu⟩
  rw [wp_bind, wp_getLinks, wp_putLinks, hcpu]
  exact ((hq.listDel ⟨i, hi⟩).listAdd (hq.notMem_deleteFrom e) (hq.exists_entity hi)).runqueuesAre

/-- **The calls refine operations on lists.** Let the runqueues of the CPUs be any lists. A vCPU that is on
none is added at the end of the list of its home CPU. The entity of one that is on a list is on that list
only, and is taken out of it, and then put at the end, or at the front, of the list of its home CPU. -/
theorem runqueue_calls_refine_lists (hq : Queues n h q) (hu : h.vcpus c = some u) (hvm : h.vms u.vm ≠ none)
    (hhome : IsHome u home) (hlive : ∀ i e, .entity e ∈ q i → h.mem.heap.Holds .entity e) :
    ((∀ e, u.schedEntity = some e → h.entities e ≠ none ∧ ∀ i, .entity e ∉ q i) →
      wp (schedulerAddVcpu (some c)) (AddsTo h q home c u) h) ∧
    ∀ e, u.schedEntity = some e → (∃ i, .entity e ∈ q i) →
      (∃! i, .entity e ∈ q i) ∧
      wp (schedulerRemoveVcpu (some c)) (fun r h' => r = .ok ∧ RunqueuesAre n h' (deleteFrom q e)) h ∧
      wp (schedulerYield (some c)) (fun _ h' => RunqueuesAre n h' (appendTo (deleteFrom q e) home e)) h ∧
      wp (schedulerWake (some c)) (fun _ h' => RunqueuesAre n h' (pushTo (deleteFrom q e) home e)) h := by
  refine ⟨fun hun => hq.schedulerAddVcpu hu hvm hhome hlive hun, fun e he hin => ?_⟩
  exact ⟨hq.existsUnique hin, hq.schedulerRemoveVcpu hu hhome he hin, hq.schedulerYield hu hhome he hin,
    hq.schedulerWake hu hhome he hin⟩

theorem runqueue_calls_refine_lists_two_cpus : ∃ h₁ h₂,
    (schedulerAddVcpu (some 8192)).run twoCpus = some (.ok, h₁) ∧
    RunqueuesAre 2 h₁ (appendTo (fun _ => []) 0 65536) ∧
    (schedulerYield (some 8192)).run h₁ = some ((), h₂) ∧
    RunqueuesAre 2 h₂ (appendTo (deleteFrom (appendTo (fun _ => []) 0 65536) 65536) 0 65536) := by
  have hdec : ((schedulerAddVcpu (some 8192)).run twoCpus).any (fun p => p.1 = .ok &&
      (p.2.vcpus 8192).any (fun u => u.schedEntity = some 65536 && u.physicalCpu = 0 &&
        (p.2.vms u.vm).isSome) && p.2.mem.heap.live.any fun b => b.kind = .entity && b.base = 65536) =
      true := by decide +kernel
  obtain ⟨⟨r, h₁⟩, hrun, hp⟩ := (Option.any_eq_true _ _).mp hdec
  simp only [Bool.and_eq_true, decide_eq_true_eq, Option.any_eq_true, List.any_eq_true] at hp
  obtain ⟨⟨rfl, u, hu, ⟨he, hcpu⟩, hvm⟩, b, hb, hkind, hbase⟩ := hp
  have hhome₀ : IsHome { vm := 4096 } (0 : Fin 2) := rfl
  obtain ⟨hadd, -⟩ := runqueue_calls_refine_lists queues_twoCpus (c := 8192) rfl (by simp [twoCpus]) hhome₀
    fun _ _ hmem => by cases hmem
  have hadds := wp_run (hadd fun _ hx => by cases hx) hrun
  cases hadds with
  | appended _ hent _ hqueues =>
    rw [entityOf_some hu, he] at hent
    cases hent
    have hmem : .entity 65536 ∈ appendTo (n := 2) (fun _ => []) 0 65536 0 := by simp [appendTo]
    have hlive : ∀ i e, .entity e ∈ appendTo (n := 2) (fun _ => []) 0 65536 i →
        h₁.mem.heap.Holds .entity e := by
      intro i e hin
      have hone : e = 65536 := by
        revert hin
        revert i
        simp [appendTo, Fin.forall_fin_two]
      exact hone ▸ ⟨b, hb, hkind, hbase⟩
    have hvm' : h₁.vms u.vm ≠ none := Option.isSome_iff_ne_none.mp hvm
    have hhome : IsHome u (0 : Fin 2) := by
      unfold IsHome
      rw [hcpu]
      rfl
    obtain ⟨-, hyield, -⟩ := ((runqueue_calls_refine_lists hqueues.toQueues hu hvm' hhome hlive).2 65536 he
      ⟨0, hmem⟩).2
    obtain ⟨_, h₂, hrun₂, hafter⟩ := hyield
    exact ⟨h₁, h₂, hrun, hqueues, hrun₂, hafter⟩

/-- The two CPUs, where no request for memory is served. -/
def twoCpusFull : Host :=
  { twoCpus with mem := { twoCpus.mem with heap := { twoCpus.mem.heap with answer := fun _ => none } } }

/-- **A vCPU that is not queued need not get on a queue.** If there is no memory for its entity, then
`scheduler_add_vcpu` fails and the lists are as they were. -/
theorem add_without_memory : Queues 2 twoCpusFull (fun _ => []) ∧
    twoCpusFull.vcpus 8192 = some { vm := 4096 } ∧ twoCpusFull.vms 4096 ≠ none ∧
    IsHome { vm := 4096 } (0 : Fin 2) ∧ ∃ h',
    (schedulerAddVcpu (some 8192)).run twoCpusFull = some (.errNoMemory, h') ∧
    RunqueuesAre 2 h' (fun _ => []) ∧ ∀ e, ¬ RunqueuesAre 2 h' (appendTo (fun _ => []) 0 e) := by
  have hq : Queues 2 twoCpusFull (fun _ => []) := queues_twoCpus.congr rfl rfl fun _ => id
  have hvm : twoCpusFull.vms 4096 ≠ none := by simp [twoCpusFull, twoCpus]
  have hhome : IsHome { vm := 4096 } (0 : Fin 2) := rfl
  have hdec : ((schedulerAddVcpu (some 8192)).run twoCpusFull).any (fun p => p.1 = .errNoMemory) = true := by
    decide +kernel
  obtain ⟨⟨r, h'⟩, hrun, hr⟩ := (Option.any_eq_true _ _).mp hdec
  obtain rfl : r = .errNoMemory := of_decide_eq_true hr
  have hadds := wp_run (hq.schedulerAddVcpu (c := 8192) rfl hvm hhome (fun _ _ hmem => by cases hmem)
    fun _ hx => by cases hx) hrun
  cases hadds with
  | noMemory _ _ hqueues =>
    refine ⟨hq, rfl, hvm, hhome, h', hrun, hqueues, fun e he => ?_⟩
    have hnil := (hqueues.rings.ring 0).unique (he.rings.ring 0)
    rw [appendTo, Function.update_self] at hnil
    cases hnil

end NexusVM
