import NexusVM.RunqueueDiscipline

/-!
# The scheduler under any interleaving

Threads call the scheduler at the same time, and every access to a list pointer or to a lock is a step of its
own.

* `Ready`, `threads`: the queues, what each thread may use, and the calls that it makes;
* `Ready.run`: the interleaving as one of critical sections;
* `Call.run`, `replay`: the calls of the sequential scheduler, one after the other;
* **`runqueue_calls_linearizable`**: calls on one's own vCPUs work as if they were made one after the other;
* **`load_balancing_keeps_entities`**: balancing, adding and measuring at the same time loses no entity;
* **`runqueue_threads_return`**: under a fair schedule all calls return;
* **`runqueue_threads_exclusive`**: no two threads access a pointer at the same time.
-/

namespace NexusVM.Threaded

open Threads Prog

variable {T : Type} {n : ℕ} {h : Host} {b : Bool} {q : Fin n → List Node} {use : T → Addr → Use}
  {progs : T → List Call}

/-! ## Threads -/

/-- The queues of the host are `q`, what the threads know of their vCPUs is so, no vCPU is used by two threads,
and their calls are for vCPUs used in that way. -/
structure Ready (n : ℕ) (h : Host) (b : Bool) (q : Fin n → List Node) (use : T → Addr → Use)
    (progs : T → List Call) : Prop where
  layout : Layout (fun _ => True) h
  queues : Queues n h q
  unqueued : ∀ t c e, use t c = .unqueued → h.entityOf c = some e → ∀ i, .entity e ∉ q i
  queued : ∀ t c e, use t c = .queued → h.entityOf c = some e → ∃ i : Fin n, i.val = homeOf h c ∧ .entity e ∈ q i
  excl : ∀ t u c, use t c ≠ .foreign → use u c ≠ .foreign → t = u
  balancing : b = true → ∀ t c, use t c ≠ .queued
  calls : ∀ t, CallsFit h b (use t) (progs t)

/-- The threads with their calls before them. -/
def threads (h : Host) (progs : T → List Call) : Config ℕ Pointer Node T (List Answer) where
  mem := pointers h.links
  taken _ := false
  code t := runCalls h (progs t) []

/-- The same, at rest. -/
def initial (h : Host) (progs : T → List Call) : State T := ⟨h.links, fun t => .enter h (progs t) []⟩

theorem Ready.exists_own (hr : Ready n h b q use progs) : ∃ own : Node → Option (ℕ ⊕ T),
    (∀ i, ∀ x ∈ .head i :: q i, own x = some (.inl i.val)) ∧
    ∀ t c e, use t c = .unqueued → h.entityOf c = some e → own (.entity e) = some (.inr t) := by
  classical
  refine ⟨fun x => if hx : ∃ i : Fin n, x ∈ Node.head i :: q i then some (.inl hx.choose.val)
    else if hx : ∃ t c e, use t c = .unqueued ∧ h.entityOf c = some e ∧ x = .entity e then some (.inr hx.choose)
    else none, fun i x hx => ?_, fun t c e ht he => ?_⟩
  · have hex : ∃ i : Fin n, x ∈ Node.head i :: q i := ⟨i, hx⟩
    have hi : hex.choose = i := by
      by_contra hne
      exact hr.queues.rings.disjoint _ _ hne x hex.choose_spec hx
    dsimp only
    rw [dif_pos hex, hi]
  · have hnot : ¬ ∃ i : Fin n, .entity e ∈ Node.head i :: q i := by
      rintro ⟨i, hi⟩
      exact hr.unqueued t c e ht he i ((List.mem_cons.mp hi).resolve_left (by simp))
    have hex : ∃ t c e', use t c = .unqueued ∧ h.entityOf c = some e' ∧ Node.entity e = .entity e' :=
      ⟨t, c, e, ht, he, rfl⟩
    have ht' : hex.choose = t := by
      obtain ⟨d, e', hd, hde, heq⟩ := hex.choose_spec
      cases heq
      have hcd := hr.layout.entityOf_inj hde he
      subst hcd
      exact hr.excl _ _ _ (by rw [hd]; simp) (by rw [ht]; simp)
    dsimp only
    rw [dif_neg hnot, dif_pos hex, ht']

theorem Ready.fits (hr : Ready n h b q use progs) : ∃ own, Fits n h b (initial h progs) q own use := by
  obtain ⟨own, hqueue, hown⟩ := hr.exists_own
  refine ⟨own, ⟨⟨hr.queues, hqueue, hown, hr.queued, hr.excl, fun t e ht => ?_⟩, fun t => ?_, hr.balancing⟩⟩
  · change (Phase.enter h (progs t) []).hand = some e at ht
    rw [enter_hand] at ht
    cases ht
  · exact enter_fits hr.queues.cpus hr.layout (hr.calls t)

variable [DecidableEq T]

theorem Ready.start (hr : Ready n h b q use progs) :
    (sections T h).traced.start (initial h progs, []) = threads h progs := by
  rw [threads, Serial.start]
  congr 1
  funext t
  exact enter_code (hr.calls t)

/-- **The interleaving as one of critical sections.** -/
theorem Ready.run (hr : Ready n h b q use progs) {K : State T → List T → (Fin n → List Node) → Prop}
    (hK : ∀ s order q own use t, Fits n h b s q own use → (∃ l k, (s.phase t).code h = .lock l k) → K s order q →
      K (s.next h t) (order ++ [t]) (nextQueues h t s q)) (hstart : K (initial h progs) [] q) (sched : List T) :
    ∃ s o held, Sim (sections T h).traced (Invariant n h b K) ((threads h progs).run sched)
      (s, (threads h progs).entries sched) o held := by
  obtain ⟨own, hf⟩ := hr.fits
  have hinv : Invariant n h b K (initial h progs, []) fun x => own x.node := ⟨q, own, use, rfl, hf, hstart⟩
  obtain ⟨o, held, hs⟩ := (sections_disciplined hr.layout hK).refines hinv sched
  rw [hr.start, Serial.traced_runs] at hs
  exact ⟨_, o, held, hs⟩

/-! ## Calls one after the other -/

/-- The same call of the scheduler that is not interrupted. -/
def Call.run : Call → HostM Answer
  | .add c _ => .result <$> NexusVM.schedulerAddVcpu (some c)
  | .remove c => .result <$> NexusVM.schedulerRemoveVcpu (some c)
  | .yield c => do
    NexusVM.schedulerYield (some c)
    return .void
  | .wake c => do
    NexusVM.schedulerWake (some c)
    return .void
  | .getCpuLoad cpu => .load <$> NexusVM.schedulerGetCpuLoad cpu
  | .loadBalance cpu => do
    NexusVM.schedulerLoadBalance cpu
    return .void

/-- The calls of a history, and what they return. -/
def replay : List (T × Call) → HostM (List (T × Answer))
  | [] => return []
  | (t, call) :: hist => do
    let r ← call.run
    return (t, r) :: (← replay hist)

/-- What belongs to one thread. -/
def partOf {α : Type} (t : T) (xs : List (T × α)) : List α := (xs.filter fun p => p.1 = t).map Prod.snd

theorem partOf_concat {α : Type} (t u : T) (xs : List (T × α)) (x : α) :
    partOf t (xs ++ [(u, x)]) = if u = t then partOf t xs ++ [x] else partOf t xs := by
  rw [partOf, List.filter_append]
  split_ifs with hut
  · simp [partOf, hut]
  · simp [partOf, hut]

omit [DecidableEq T] in
theorem replay_concat {hist : List (T × Call)} {rs : List (T × Answer)} {h h' h'' : Host} {t : T} {call : Call}
    {r : Answer} (hhist : (replay hist).run h = some (rs, h')) (hcall : call.run.run h' = some (r, h'')) :
    (replay (hist ++ [(t, call)])).run h = some (rs ++ [(t, r)], h'') := by
  induction hist generalizing h rs with
  | nil =>
    cases hhist
    rw [List.nil_append, replay, run_bind hcall]
    rfl
  | cons p hist ih =>
    obtain ⟨u, call'⟩ := p
    rw [replay, StateT.run_bind, Option.bind_eq_bind, Option.bind_eq_some_iff] at hhist
    obtain ⟨⟨r', h₁⟩, hfirst, hrest⟩ := hhist
    rw [StateT.run_bind, Option.bind_eq_bind, Option.bind_eq_some_iff] at hrest
    obtain ⟨⟨rs', h₂⟩, hrs, hret⟩ := hrest
    cases hret
    rw [List.cons_append, replay, run_bind hfirst, run_bind (ih hrs)]
    rfl

omit [DecidableEq T] in
/-- **A call that is not interrupted** changes the pointers and returns what its critical section does. -/
theorem Call.run_eq (hl : Layout (fun _ => True) h) {q : Fin n → List Node} {l : DList.Links Node} {call : Call}
    {use : Addr → Use} (hq : Queues n (h.setLinks l) q) (hfit : CallsFit h b use [call])
    (hne : ∀ cpu, call ≠ .loadBalance cpu) :
    call.run.run (h.setLinks l) = some (call.answer h l, h.setLinks (call.links h l)) := by
  rw [← wp_eq_iff]
  have hvcpu : ∀ c, h.entityOf c ≠ none → ∃ u e, h.vcpus c = some u ∧ u.schedEntity = some e ∧
      h.entityOf c = some e ∧ homeOf h c = (u.home h.gCpuCount).toNat := by
    intro c hc
    obtain ⟨e, he⟩ := Option.ne_none_iff_exists'.mp hc
    obtain ⟨u, hu, hue⟩ := Option.bind_eq_some_iff.mp he
    exact ⟨u, e, hu, hue, he, by rw [homeOf, hu]; rfl⟩
  have hcpus : (h.setLinks l).gCpuCount ≠ 0 := hl.cpus
  cases call with
  | add c calloc =>
    obtain ⟨u, e, hu, hue, he, hhome⟩ := hvcpu c hfit.1
    simp only [Call.run, wp_map, NexusVM.schedulerAddVcpu, wp_bind, wp_getVcpu]
    refine ⟨u, hu, wp_mono (homeCpu_at hcpus u) ?_⟩
    rintro _ _ ⟨rfl, rfl⟩
    rw [hue]
    simp only [wp_bind, wp_getLinks, wp_putLinks, wp_pure]
    refine ⟨rfl, ?_⟩
    rw [Call.links, onEntity_eq he, hhome]
    rfl
  | remove c =>
    obtain ⟨u, e, hu, hue, he, hhome⟩ := hvcpu c hfit.1
    simp only [Call.run, wp_map, NexusVM.schedulerRemoveVcpu, wp_bind, wp_getVcpu]
    refine ⟨u, hu, ?_⟩
    rw [hue]
    simp only [wp_bind]
    refine wp_mono (homeCpu_at hcpus u) ?_
    rintro _ _ ⟨rfl, rfl⟩
    simp only [wp_getLinks, wp_putLinks, wp_pure]
    refine ⟨rfl, ?_⟩
    rw [Call.links, onEntity_eq he]
    rfl
  | yield c =>
    obtain ⟨u, e, hu, hue, he, hhome⟩ := hvcpu c hfit.1
    simp only [Call.run, NexusVM.schedulerYield, wp_bind, wp_getVcpu]
    refine ⟨u, hu, ?_⟩
    rw [hue]
    simp only [wp_bind]
    refine wp_mono (homeCpu_at hcpus u) ?_
    rintro _ _ ⟨rfl, rfl⟩
    simp only [wp_getLinks, wp_putLinks, wp_pure]
    refine ⟨rfl, ?_⟩
    rw [Call.links, onEntity_eq he, hhome]
    rfl
  | wake c =>
    obtain ⟨u, e, hu, hue, he, hhome⟩ := hvcpu c hfit.1
    simp only [Call.run, NexusVM.schedulerWake, wp_bind, wp_getVcpu]
    refine ⟨u, hu, ?_⟩
    rw [hue]
    simp only [wp_bind]
    refine wp_mono (homeCpu_at hcpus u) ?_
    rintro _ _ ⟨rfl, rfl⟩
    simp only [wp_getLinks, wp_putLinks, wp_pure]
    refine ⟨rfl, ?_⟩
    rw [Call.links, onEntity_eq he, hhome]
    rfl
  | getCpuLoad cpu =>
    have hi : cpu.toNat < n := hq.cpus ▸ UInt32.lt_iff_toNat_lt.mp hfit.1
    have hwalk := hq.runqueue (hl.setLinks l) ⟨cpu.toNat, hi⟩
    have hnot : ¬ cpu ≥ (h.setLinks l).gCpuCount := UInt32.not_le.mpr hfit.1
    simp only [Call.run, wp_map, NexusVM.schedulerGetCpuLoad, wp_bind, wp_get]
    rw [if_neg hnot]
    simp only [NexusVM.queueLoad, NexusVM.runqueue, wp_bind, wp_fetch, wp_pure, wp_require]
    refine ⟨_, hwalk, hfit.2.1, ?_, rfl⟩
    rw [Call.answer, Host.load, hwalk]
    rfl
  | loadBalance cpu => exact absurd rfl (hne cpu)

/-! ## Two threads -/

/-- The host of `twoCpus`, whose two vCPUs have entities that are on no queue. Both use CPU 0. -/
def twoEntities : Host where
  __ := twoCpus
  vcpus a := if a = 8192 then some { vm := 4096, schedEntity := some 65536 }
    else if a = 12288 then some { vcpuId := 1, vm := 4096, schedEntity := some 69632 } else none
  entities a := if a = 65536 ∨ a = 69632 then some (newEntity {} 1) else none
  mem := { twoCpus.mem with heap := { twoCpus.mem.heap with
    live := ⟨.entity, 69632, sizeofSchedEntity⟩ :: ⟨.entity, 65536, sizeofSchedEntity⟩ :: twoCpus.mem.heap.live } }

theorem twoEntities_vcpus {c : Addr} {u : Nexusvcpu} (hu : twoEntities.vcpus c = some u) :
    (c = 8192 ∧ u.schedEntity = some 65536 ∨ c = 12288 ∧ u.schedEntity = some 69632) ∧ u.vm = 4096 := by
  change (if c = 8192 then _ else if c = 12288 then _ else none) = _ at hu
  split_ifs at hu with hc hc
  · cases hu
    exact ⟨.inl ⟨hc, rfl⟩, rfl⟩
  · cases hu
    exact ⟨.inr ⟨hc, rfl⟩, rfl⟩

theorem layout_twoEntities : Layout (fun _ => True) twoEntities where
  initialized := rfl
  cpus := by decide
  online := rfl
  vmHeld a v hv := by
    obtain ⟨rfl, -⟩ := twoCpus_vms hv
    exact ⟨⟨.vm, 4096, sizeofNexusvm⟩, by simp [twoEntities, twoCpus], rfl, rfl⟩
  vcpuHeld c u hu := by
    obtain ⟨⟨rfl, -⟩ | ⟨rfl, -⟩, -⟩ := twoEntities_vcpus hu
    · exact ⟨⟨.vcpu, 8192, sizeofNexusvcpu⟩, by simp [twoEntities, twoCpus], rfl, rfl⟩
    · exact ⟨⟨.vcpu, 12288, sizeofNexusvcpu⟩, by simp [twoEntities, twoCpus], rfl, rfl⟩
  entityHeld e x hx := by
    change (if e = 65536 ∨ e = 69632 then _ else none) = _ at hx
    split_ifs at hx with he
    rcases he with rfl | rfl
    · exact ⟨⟨.entity, 65536, sizeofSchedEntity⟩, by simp [twoEntities], rfl, rfl⟩
    · exact ⟨⟨.entity, 69632, sizeofSchedEntity⟩, by simp [twoEntities], rfl, rfl⟩
  count a v _ hv := by
    obtain ⟨-, rfl⟩ := twoCpus_vms hv
    rfl
  nodup a v _ hv := by
    obtain ⟨-, rfl⟩ := twoCpus_vms hv
    decide
  vcpus a v _ hv c hc := by
    obtain ⟨rfl, rfl⟩ := twoCpus_vms hv
    rcases List.mem_cons.mp hc with rfl | hc
    · exact ⟨_, rfl, rfl⟩
    · obtain rfl := List.mem_singleton.mp hc
      exact ⟨_, rfl, rfl⟩
  root a v r _ hv hr := by
    obtain ⟨-, rfl⟩ := twoCpus_vms hv
    cases hr
  rootInj a b v w r _ _ hv _ hr _ := by
    obtain ⟨-, rfl⟩ := twoCpus_vms hv
    cases hr
  entity c u e hu he := by
    obtain ⟨⟨-, hue⟩ | ⟨-, hue⟩, -⟩ := twoEntities_vcpus hu <;> rw [hue] at he <;> cases he
    · exact ⟨_, rfl⟩
    · exact ⟨_, rfl⟩
  inj c c' u u' e hu hu' he he' := by
    obtain ⟨⟨rfl, hue⟩ | ⟨rfl, hue⟩, -⟩ := twoEntities_vcpus hu <;>
      obtain ⟨⟨rfl, hue'⟩ | ⟨rfl, hue'⟩, -⟩ := twoEntities_vcpus hu' <;>
      rw [hue] at he <;> rw [hue', ← he] at he' <;> first | rfl | exact absurd he' (by decide)

theorem queues_twoEntities : Queues 2 twoEntities fun _ => [] :=
  queues_twoCpus.congr rfl rfl fun _ he => absurd rfl he

/-- Each of two threads uses one of the two vCPUs, which is on no queue. -/
def oneEach (t : Bool) (c : Addr) : Use :=
  if c = (if t then 12288 else 8192) then .unqueued else .foreign

theorem ready_twoEntities {b : Bool} {progs : Bool → List Call}
    (hcalls : ∀ t, CallsFit twoEntities b (oneEach t) (progs t)) :
    Ready 2 twoEntities b (fun _ => []) oneEach progs where
  layout := layout_twoEntities
  queues := queues_twoEntities
  unqueued _ _ _ _ _ _ hmem := by cases hmem
  queued t c e hq _ := by
    unfold oneEach at hq
    split_ifs at hq
  excl t u c ht hu := by
    unfold oneEach at ht hu
    split_ifs at ht hu with h₁ h₂ h₃ h₄ <;> simp_all
  balancing _ t c hq := by
    unfold oneEach at hq
    split_ifs at hq
  calls := hcalls

/-! ## Linearizability -/

/-- The critical sections so far are the calls of a history. -/
def Replayed (h : Host) (progs : T → List Call) (s : State T) (order : List T) (_ : Fin n → List Node) : Prop :=
  ∃ hist rs, hist.map Prod.fst = order ∧ (replay hist).run h = some (rs, h.setLinks s.links) ∧
    ∀ t, partOf t hist ++ (s.phase t).calls = progs t ∧ partOf t rs = (s.phase t).answers

omit [DecidableEq T] in
theorem Fits.calling {s : State T} {own : Node → Option (ℕ ⊕ T)} (hf : Fits n h false s q own use) (t : T) :
    (∃ rs, s.phase t = .returned rs) ∨ ∃ call calls rs, s.phase t = .calling call calls rs ∧
      (∀ cpu, call ≠ .loadBalance cpu) ∧ CallsFit h false (use t) (call :: calls) := by
  have hfits := hf.phases t
  cases hphase : s.phase t with
  | returned rs => exact .inl ⟨rs, rfl⟩
  | calling call calls rs =>
    rw [hphase] at hfits
    exact .inr ⟨call, calls, rs, rfl, hfits⟩
  | scanning | weighing | taking | putting =>
    rw [hphase] at hfits
    exact absurd hfits.1 (by simp)

omit [DecidableEq T] in
theorem callsFit_head {use : Addr → Use} {call : Call} {calls : List Call} (hfit : CallsFit h b use (call :: calls)) :
    CallsFit h b use [call] := by
  cases call with
  | add c | remove c | yield c | wake c => exact ⟨hfit.1, hfit.2.1, trivial⟩
  | getCpuLoad cpu | loadBalance cpu => exact ⟨hfit.1, hfit.2.1, trivial⟩

omit [DecidableEq T] in
theorem enter_calls {calls : List Call} {rs : List Answer} (hne : ∀ cpu, .loadBalance cpu ∉ calls) :
    (Phase.enter h calls rs).calls = calls := by
  cases calls with
  | nil => rfl
  | cons call calls =>
    cases call with
    | loadBalance cpu => exact absurd List.mem_cons_self (hne cpu)
    | _ => rfl

omit [DecidableEq T] in
theorem callsFit_notMem {use : Addr → Use} {calls : List Call} (hfit : CallsFit h false use calls) (cpu : UInt32) :
    .loadBalance cpu ∉ calls := by
  induction calls generalizing use with
  | nil => exact List.not_mem_nil
  | cons call calls ih =>
    rw [List.mem_cons, not_or]
    cases call with
    | add c | remove c | yield c | wake c => exact ⟨by simp, ih hfit.2.2⟩
    | getCpuLoad cpu' => exact ⟨by simp, ih hfit.2.2⟩
    | loadBalance cpu' => exact absurd hfit.2.1 (by simp)

/-- **The history goes on** with the call of every critical section. -/
theorem Replayed.next (hl : Layout (fun _ => True) h) {s : State T} {order : List T} {own : Node → Option (ℕ ⊕ T)}
    {t : T} (hf : Fits n h false s q own use) (hlock : ∃ l k, (s.phase t).code h = .lock l k)
    (hr : Replayed h progs s order q) {q' : Fin n → List Node} :
    Replayed h progs (s.next h t) (order ++ [t]) q' := by
  obtain ⟨hist, rs, horder, hrun, hparts⟩ := hr
  obtain ⟨rs', hphase⟩ | ⟨call, calls, rs', hphase, hne, hfit⟩ := hf.calling t
  · obtain ⟨l, k, hcode⟩ := hlock
    rw [hphase] at hcode
    cases hcode
  have hcall := call.run_eq hl hf.owned.queues (callsFit_head hfit) hne
  have hnext : s.next h t = s.advance t (call.links h s.links) (.enter h calls (rs' ++ [call.answer h s.links])) := by
    rw [State.next, hphase]
  have hnone : ∀ cpu, .loadBalance cpu ∉ calls := fun cpu hmem =>
    callsFit_notMem hfit cpu (List.mem_cons_of_mem _ hmem)
  refine ⟨hist ++ [(t, call)], rs ++ [(t, call.answer h s.links)], ?_, ?_, fun u => ?_⟩
  · rw [List.map_append, horder]
    rfl
  · rw [hnext]
    exact replay_concat hrun hcall
  · rw [partOf_concat, partOf_concat, hnext]
    obtain ⟨hcalls, hanswers⟩ := hparts u
    by_cases hut : u = t
    · subst hut
      rw [hphase] at hcalls hanswers
      rw [if_pos rfl, if_pos rfl, State.advance_phase_self, enter_calls hnone, enter_answers, ← hcalls,
        hanswers, List.append_assoc]
      exact ⟨rfl, rfl⟩
    · rw [if_neg (Ne.symm hut), if_neg (Ne.symm hut), State.advance_phase_of_ne _ _ _ hut]
      exact ⟨hcalls, hanswers⟩

/-- **Calls on one's own vCPUs are linearizable.** Threads call the scheduler, each for vCPUs that no other
thread uses, and all of them may measure any CPU. However their accesses to the pointers and locks are
interleaved, there is a history of calls of the sequential scheduler, each made when its thread took the lock:
the history has the calls of each thread in their order, and all of them if it has returned, with the answers
that it has got; each queue whose lock is free has the pointers that the history leaves. -/
theorem runqueue_calls_linearizable (hr : Ready n h false q use progs) (sched : List T) :
    ∃ hist rs h' q', hist.map Prod.fst = (threads h progs).entries sched ∧
      (replay hist).run h = some (rs, h') ∧ RunqueuesAre n h' q' ∧
      (∀ t, partOf t hist <+: progs t) ∧
      (∀ t answers, ((threads h progs).run sched).code t = .ret answers →
        partOf t hist = progs t ∧ partOf t rs = answers) ∧
      (∀ i : Fin n, ((threads h progs).run sched).taken i = false → ∀ p : Pointer, p.node ∈ .head i :: q' i →
        ((threads h progs).run sched).mem p = pointers h'.links p) ∧
      (((threads h progs).run sched).Done → linksOf ((threads h progs).run sched).mem = h'.links) := by
  have hstart : Replayed h progs (initial h progs) [] q := by
    refine ⟨[], [], rfl, rfl, fun t => ?_⟩
    change [] ++ (Phase.enter h (progs t) []).calls = progs t ∧ [] = (Phase.enter h (progs t) []).answers
    rw [enter_calls fun cpu => callsFit_notMem (hr.calls t) cpu, enter_answers]
    exact ⟨rfl, rfl⟩
  obtain ⟨s, o, held, hs⟩ := hr.run (K := Replayed h progs)
    (fun s order q own use t hf hlock hK => hK.next hr.layout hf hlock) hstart sched
  obtain ⟨q', own, use', rfl, hf, hist, rs, horder, hrun, hparts⟩ := hs.inv
  refine ⟨hist, rs, h.setLinks s.links, q', horder, hrun, hf.owned.queues.runqueuesAre, fun t => ?_,
    fun t answers hret => ?_, fun i hfree p hp => ?_, fun hdone => ?_⟩
  · exact ⟨_, (hparts t).1⟩
  · obtain ⟨hcalls, hanswers⟩ := hparts t
    have hcode : (s.phase t).code h = .ret answers := hs.ret hret
    obtain ⟨rs', hphase⟩ | ⟨l, k, hlock⟩ := (hf.phases t).atRest
    · rw [hphase] at hcalls hanswers hcode
      cases hcode
      exact ⟨(List.append_nil _).symm.trans hcalls, hanswers⟩
    · rw [hlock] at hcode
      cases hcode
  · exact hs.free hfree (hf.owned.onQueue i _ hp)
  · rw [hs.done hdone]
    rfl

/-- Two threads, the second of which measures the CPU of the first. -/
def twoCallers (t : Bool) : List Call := if t then [.add 12288 none, .getCpuLoad 0] else [.add 8192 none, .yield 8192]

/-- They take turns. -/
def turns : List Bool := (List.replicate 40 [true, false]).flatten

theorem runqueue_calls_linearizable_two_callers : ∃ hist rs h' q',
    hist.map Prod.fst = (threads twoEntities twoCallers).entries turns ∧
    (replay hist).run twoEntities = some (rs, h') ∧ RunqueuesAre 2 h' q' ∧
    partOf true hist = [.add 12288 none, .getCpuLoad 0] ∧ partOf true rs = [.result .ok, .load 33] ∧
    partOf false hist = [.add 8192 none, .yield 8192] ∧ partOf false rs = [.result .ok, .void] := by
  have hready : Ready 2 twoEntities false (fun _ => []) oneEach twoCallers := by
    refine ready_twoEntities fun t => ?_
    cases t
    · exact ⟨by simp [Host.entityOf, twoEntities], rfl, by simp [Host.entityOf, twoEntities], rfl, trivial⟩
    · exact ⟨by simp [Host.entityOf, twoEntities], rfl, by decide, by decide, trivial⟩
  have htrue : (((threads twoEntities twoCallers).run turns).code true).result =
      some [.result .ok, .load 33] := by decide +kernel
  have hfalse : (((threads twoEntities twoCallers).run turns).code false).result = some [.result .ok, .void] := by
    decide +kernel
  obtain ⟨hist, rs, h', q', horder, hrun, hq, -, hret, -, -⟩ := runqueue_calls_linearizable hready turns
  obtain ⟨hcalls, hanswers⟩ := hret true _ (Code.result_eq_some.mp htrue)
  obtain ⟨hcalls', hanswers'⟩ := hret false _ (Code.result_eq_some.mp hfalse)
  exact ⟨hist, rs, h', q', horder, hrun, hq, hcalls, hanswers, hcalls', hanswers'⟩

/-! ## Load balancing -/

/-- One of the calls puts the entity on a queue. -/
def Adding (h : Host) (e : Addr) (calls : List Call) : Prop := ∃ c calloc, .add c calloc ∈ calls ∧ h.entityOf c = some e

/-- The thread is to put the entity on a queue. -/
def Phase.Brings (h : Host) (e : Addr) (p : Phase) : Prop := p.hand = some e ∨ Adding h e p.calls

/-- The entities that satisfy `P` are those on the queues and those that a thread is to put on one. -/
def Accounted (h : Host) (P : Addr → Prop) (s : State T) (_ : List T) (q : Fin n → List Node) : Prop :=
  ∀ e, P e ↔ (∃ i, .entity e ∈ q i) ∨ ∃ t, (s.phase t).Brings h e

section Brings

variable {e e₀ : Addr} {c : Addr} {call : Call} {calls : List Call} {rs : List Answer} {i : Fin n}

omit [DecidableEq T] in
theorem brings_enter : (Phase.enter h calls rs).Brings h e ↔ Adding h e calls := by
  rw [Phase.Brings, enter_hand]
  cases calls with
  | nil => simp [Phase.enter, Phase.calls, Adding]
  | cons call calls =>
    cases call with
    | loadBalance cpu => simp [Phase.enter, scan_calls, Adding]
    | _ => simp [Phase.enter, Phase.calls]

omit [DecidableEq T] in
theorem brings_scan {cpu tgtCpu : ℕ} {is : List ℕ} {minLoad : UInt32} :
    (Phase.scan cpu is minLoad tgtCpu calls rs).Brings h e ↔ Adding h e calls := by
  rw [Phase.Brings, scan_hand, scan_calls]
  simp

omit [DecidableEq T] in
theorem brings_add (hc : h.entityOf c = some e₀) (calloc : Option Addr) :
    (Phase.calling (.add c calloc) calls rs).Brings h e ↔ e = e₀ ∨ Adding h e calls := by
  constructor
  · rintro (hnone | ⟨d, o, hd, he⟩)
    · cases hnone
    · rcases List.mem_cons.mp hd with heq | hd
      · cases heq
        exact .inl (Option.some.inj (he.symm.trans hc))
      · exact .inr ⟨d, o, hd, he⟩
  · rintro (rfl | ⟨d, o, hd, he⟩)
    · exact .inr ⟨c, calloc, List.mem_cons_self, hc⟩
    · exact .inr ⟨d, o, List.mem_cons_of_mem _ hd, he⟩

omit [DecidableEq T] in
theorem mem_appendTo : (∃ j, .entity e ∈ appendTo q i e₀ j) ↔ (∃ j, .entity e ∈ q j) ∨ e = e₀ := by
  constructor
  · rintro ⟨j, hj⟩
    by_cases hji : j = i
    · subst hji
      rw [appendTo, Function.update_self, List.mem_append, List.mem_singleton, Node.entity.injEq] at hj
      exact hj.imp_left fun hj => ⟨j, hj⟩
    · rw [appendTo, Function.update_of_ne hji] at hj
      exact .inl ⟨j, hj⟩
  · rintro (⟨j, hj⟩ | rfl)
    · by_cases hji : j = i
      · subst hji
        exact ⟨j, by rw [appendTo, Function.update_self]; exact List.mem_append_left _ hj⟩
      · exact ⟨j, by rwa [appendTo, Function.update_of_ne hji]⟩
    · exact ⟨i, by rw [appendTo, Function.update_self]; exact List.mem_append_right _ (List.mem_singleton_self _)⟩

omit [DecidableEq T] in
theorem mem_deleteFrom (hq : Queues n h q) :
    (∃ j, .entity e ∈ deleteFrom q e₀ j) ↔ (∃ j, .entity e ∈ q j) ∧ e ≠ e₀ := by
  constructor
  · rintro ⟨j, hj⟩
    refine ⟨⟨j, List.mem_of_mem_erase hj⟩, ?_⟩
    rintro rfl
    exact hq.notMem_deleteFrom e j hj
  · rintro ⟨⟨j, hj⟩, hne⟩
    exact ⟨j, (List.mem_erase_of_ne (by simpa using hne)).mpr hj⟩

end Brings

/-- A section of one thread keeps the account if it keeps that of the thread and the queues. -/
theorem Accounted.advance {P : Addr → Prop} {s : State T} {order order' : List T} {q' : Fin n → List Node} {t : T}
    {l : DList.Links Node} {p : Phase} (ha : Accounted h P s order q)
    (hsame : ∀ e, ((∃ i, .entity e ∈ q' i) ∨ p.Brings h e) ↔ (∃ i, .entity e ∈ q i) ∨ (s.phase t).Brings h e) :
    Accounted h P (s.advance t l p) order' q' := by
  intro e
  have hsplit : ∀ r : T → Phase, (∃ u, (r u).Brings h e) ↔ (r t).Brings h e ∨ ∃ u, u ≠ t ∧ (r u).Brings h e := by
    intro r
    constructor
    · rintro ⟨u, hu⟩
      by_cases hut : u = t
      · exact .inl (hut ▸ hu)
      · exact .inr ⟨u, hut, hu⟩
    · rintro (hu | ⟨u, -, hu⟩)
      · exact ⟨t, hu⟩
      · exact ⟨u, hu⟩
  have hothers : (∃ u, u ≠ t ∧ ((s.advance t l p).phase u).Brings h e) ↔ ∃ u, u ≠ t ∧ (s.phase u).Brings h e :=
    exists_congr fun u => and_congr_right fun hu => by rw [s.advance_phase_of_ne l p hu]
  rw [ha e, hsplit, hsplit (s.advance t l p).phase, State.advance_phase_self, hothers, ← or_assoc, ← or_assoc, hsame e]

/-- **No section loses or makes an entity.** -/
theorem Accounted.next (hl : Layout (fun _ => True) h) {P : Addr → Prop} {s : State T} {order : List T}
    {own : Node → Option (ℕ ⊕ T)} {t : T} (hf : Fits n h true s q own use)
    (hlock : ∃ l k, (s.phase t).code h = .lock l k) (ha : Accounted h P s order q) :
    Accounted h P (s.next h t) (order ++ [t]) (nextQueues h t s q) := by
  have hfits := hf.phases t
  have hq := hf.owned.queues
  rw [State.next, nextQueues]
  cases hphase : s.phase t with
  | returned rs =>
    obtain ⟨l, k, hcode⟩ := hlock
    rw [hphase] at hcode
    cases hcode
  | calling call calls rs =>
    rw [hphase] at hfits
    dsimp only
    refine ha.advance fun e => ?_
    rw [hphase, brings_enter]
    cases call with
    | add c calloc =>
      obtain ⟨e₀, he₀⟩ := Option.ne_none_iff_exists'.mp hfits.2.1
      have hi : homeOf h c < n := hf.cpus ▸ homeOf_lt hl.cpus he₀
      rw [Call.queues, onHome_eq he₀ hi, mem_appendTo, brings_add he₀, or_assoc]
    | remove c | yield c | wake c => exact absurd hfits.2.2.1 (hf.balancing rfl t c)
    | getCpuLoad cpu => simp [Call.queues, Phase.Brings, Phase.hand, Phase.calls, Adding]
    | loadBalance cpu => exact absurd rfl (hfits.1 cpu)
  | scanning cpu i is minLoad tgtCpu calls rs =>
    refine ha.advance fun e => ?_
    have hscan : ∀ m k, (Phase.scan cpu is m k calls rs).Brings h e ↔ (s.phase t).Brings h e := fun m k => by
      rw [brings_scan, hphase]
      simp [Phase.Brings, Phase.hand, Phase.calls]
    split_ifs <;> rw [hscan]
  | weighing cpu found calls rs =>
    refine ha.advance fun e => ?_
    rw [hphase]
    split_ifs
    · rfl
    · rw [brings_enter]
      simp [Phase.Brings, Phase.hand, Phase.calls]
  | taking cpu tgtCpu calls rs =>
    rw [hphase] at hfits
    dsimp only
    cases hfirst : s.links.next (.head cpu) with
    | head j =>
      refine ha.advance fun e => ?_
      rw [hphase, brings_enter]
      simp [Phase.Brings, Phase.hand, Phase.calls]
    | entity e₀ =>
      refine ha.advance fun e => ?_
      have hmem : .entity e₀ ∈ q ⟨cpu, hfits.2.1⟩ := by
        have hmem := (hq.rings.ring ⟨cpu, hfits.2.1⟩).next_head_mem
        change s.links.next (.head cpu) ∈ _ at hmem
        rw [hfirst, List.mem_cons] at hmem
        exact hmem.resolve_left (by simp)
      rw [hphase, mem_deleteFrom hq]
      simp only [Phase.Brings, Phase.hand, Phase.calls, Option.some.injEq, reduceCtorEq, false_or]
      by_cases he : e = e₀
      · subst he
        exact iff_of_true (.inr (.inl rfl)) (.inl ⟨_, hmem⟩)
      · simp [he, Ne.symm he]
  | putting e₀ tgtCpu calls rs =>
    rw [hphase] at hfits
    dsimp only
    refine ha.advance fun e => ?_
    rw [hphase, dif_pos hfits.2.1, brings_enter, mem_appendTo]
    simp only [Phase.Brings, Phase.hand, Phase.calls, Option.some.injEq, or_assoc, eq_comm]

/-- **No interleaving loses an entity.** Threads balance the load, put vCPUs of their own on the runqueues and
measure the load. However their accesses are interleaved, each queue whose lock is free is a circular list, and no
entity is on two queues; when all threads have returned the queues have exactly the entities that they had before
and those of the vCPUs that have been added. -/
theorem load_balancing_keeps_entities (hr : Ready n h true q use progs) (sched : List T) :
    ∃ q' : Fin n → List Node, (∀ i j x, x ∈ q' i → x ∈ q' j → i = j) ∧
      (∀ i : Fin n, ((threads h progs).run sched).taken i = false →
        DList.Ring (linksOf ((threads h progs).run sched).mem) (.head i) (q' i)) ∧
      (((threads h progs).run sched).Done →
        Queues n (h.setLinks (linksOf ((threads h progs).run sched).mem)) q' ∧
        ∀ e, (∃ i, .entity e ∈ q' i) ↔
          (∃ i, .entity e ∈ q i) ∨ ∃ t, Adding h e (progs t)) := by
  have hstart : Accounted h (fun e => (∃ i, .entity e ∈ q i) ∨ ∃ t, Adding h e (progs t)) (initial h progs) [] q := by
    intro e
    refine or_congr_right (exists_congr fun t => ?_)
    exact brings_enter.symm
  obtain ⟨s, o, held, hs⟩ := hr.run
    (fun s order q own use t hf hlock hK => hK.next hr.layout hf hlock) hstart sched
  obtain ⟨q', own, use', rfl, hf, ha⟩ := hs.inv
  refine ⟨q', fun i j x hi hj => hf.owned.queues.rings.eq_of_mem hi hj, fun i hfree => ?_, fun hdone => ?_⟩
  · -- the pointers of the queue are those that the sections have left
    have hsame : ∀ p : Pointer, p.node ∈ .head i :: q' i →
        ((threads h progs).run sched).mem p = pointers s.links p := fun p hp =>
      hs.free hfree (hf.owned.onQueue i _ hp)
    exact (hf.owned.queues.rings.ring i).congr (fun x hx => hsame (.next x) hx) fun x hx => hsame (.prev x) hx
  · have hmem : ((threads h progs).run sched).mem = pointers s.links := hs.done hdone
    rw [hmem, linksOf_pointers]
    refine ⟨hf.owned.queues, fun e => ?_⟩
    have hnone : ¬ ∃ t, (s.phase t).Brings h e := by
      rintro ⟨t, ht⟩
      obtain ⟨v, hv⟩ := hdone t
      have hcode : (s.phase t).code h = .ret v := hs.ret hv
      obtain ⟨rs, hphase⟩ | ⟨l, k, hlock⟩ := (hf.phases t).atRest
      · rw [hphase] at ht
        simp [Phase.Brings, Phase.hand, Phase.calls, Adding] at ht
      · rw [hlock] at hcode
        cases hcode
    have hall := ha e
    rw [or_iff_left hnone] at hall
    exact hall.symm

/-- Two threads that add a vCPU each and balance CPU 0. -/
def twoBalancers (t : Bool) : List Call := [.add (if t then 12288 else 8192) none, .loadBalance 0, .getCpuLoad 1]

theorem ready_twoBalancers : Ready 2 twoEntities true (fun _ => []) oneEach twoBalancers := by
  refine ready_twoEntities fun t => ?_
  cases t
  · exact ⟨by simp [Host.entityOf, twoEntities], rfl, by decide, rfl, by decide, by decide, trivial⟩
  · exact ⟨by simp [Host.entityOf, twoEntities], rfl, by decide, rfl, by decide, by decide, trivial⟩

theorem load_balancing_keeps_entities_two_balancers :
    ∃ q' : Fin 2 → List Node, Queues 2
      (twoEntities.setLinks (linksOf ((threads twoEntities twoBalancers).run (turns ++ turns)).mem)) q' ∧
      ∃ i, .entity 65536 ∈ q' i := by
  have hresult : ∀ t, (((threads twoEntities twoBalancers).run (turns ++ turns)).code t).result =
      some [.result .ok, .void, .load 0] := by decide +kernel
  have hdone : ((threads twoEntities twoBalancers).run (turns ++ turns)).Done := fun t =>
    ⟨_, Code.result_eq_some.mp (hresult t)⟩
  obtain ⟨q', -, -, hend⟩ := load_balancing_keeps_entities ready_twoBalancers (turns ++ turns)
  obtain ⟨hq, hmem⟩ := hend hdone
  exact ⟨q', hq, (hmem 65536).mpr (.inr ⟨false, 8192, none, by simp [twoBalancers], rfl⟩)⟩

/-! ## Progress and races -/

/-- **All calls return** if the threads get their turns again and again. -/
theorem runqueue_threads_return [Finite T] (hr : Ready n h b q use progs) {σ : ℕ → T} (hσ : FairSchedule σ) :
    ∃ N, ∀ m, N ≤ m → ((threads h progs).after σ m).Done := by
  obtain ⟨own, hf⟩ := hr.fits
  have hinv : Invariant n h b (fun _ _ _ => True) (initial h progs, []) fun x => own x.node :=
    ⟨q, own, use, rfl, hf, trivial⟩
  have hdone := (sections_disciplined hr.layout fun _ _ _ _ _ _ _ _ => id).fair_done hinv hσ
  rwa [hr.start] at hdone

theorem runqueue_threads_return_two_balancers :
    ∃ N, ∀ m, N ≤ m → ((threads twoEntities twoBalancers).after (fun n => decide (n % 2 = 0)) m).Done := by
  refine runqueue_threads_return ready_twoBalancers fun t n => ?_
  cases t
  · exact ⟨2 * n + 1, by omega, by simp⟩
  · exact ⟨2 * n, by omega, by simp⟩

/-- **No two threads access a pointer at the same time.** -/
theorem runqueue_threads_exclusive (hr : Ready n h b q use progs) (sched : List T) {t u : T} {p : Pointer}
    (ht : ((threads h progs).run sched).Accesses t p) (hu : ((threads h progs).run sched).Accesses u p) : t = u := by
  obtain ⟨s, o, held, hs⟩ := hr.run (K := fun _ _ _ => True) (fun _ _ _ _ _ _ _ _ => id) trivial sched
  exact hs.no_race (sections_disciplined hr.layout fun _ _ _ _ _ _ _ _ => id) ht hu

theorem runqueue_threads_exclusive_two_balancers : ∃ p : Pointer,
    ((threads twoEntities twoBalancers).run [true, false]).Accesses true p ∧
      ¬ ((threads twoEntities twoBalancers).run [true, false]).Accesses false p := by
  have haccess : ((threads twoEntities twoBalancers).run [true, false]).Accesses true (.next (.entity 69632)) :=
    .inr ⟨_, _, rfl⟩
  exact ⟨_, haccess, fun hfalse => by
    cases runqueue_threads_exclusive ready_twoBalancers [true, false] haccess hfalse⟩

end NexusVM.Threaded
