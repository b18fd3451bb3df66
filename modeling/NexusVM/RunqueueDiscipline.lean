import NexusVM.RunqueueSections

/-!
# The locking discipline of the scheduler

* `Call.queues`, `nextQueues`: what the critical sections do to the queues;
* `Fits`, `Fits.advance`: every thread may do what it does next;
* `IsSection`, `Fits.add`, …, `Fits.putting`, **`Fits.next`**: which is a critical section on what belongs to
  its lock and to the thread, and everyone may go on;
* **`sections_disciplined`**: the threads follow the locking discipline.
-/

namespace NexusVM.Threaded

open Threads

variable {T : Type} {n : ℕ} {h : Host} {b : Bool} {q q' : Fin n → List Node}

/-! ## Queues -/

/-- A call on the entity of a vCPU and the queue of its home CPU. -/
def onHome (h : Host) (q : Fin n → List Node) (c : Addr) (f : Fin n → Addr → Fin n → List Node) : Fin n → List Node :=
  match h.entityOf c with
  | none => q
  | some e => if hi : homeOf h c < n then f ⟨homeOf h c, hi⟩ e else q

/-- What a call does to the queues. -/
def Call.queues (h : Host) (q : Fin n → List Node) : Call → Fin n → List Node
  | .add c _ => onHome h q c fun i e => appendTo q i e
  | .remove c => onHome h q c fun _ e => deleteFrom q e
  | .yield c => onHome h q c fun i e => appendTo (deleteFrom q e) i e
  | .wake c => onHome h q c fun i e => pushTo (deleteFrom q e) i e
  | .getCpuLoad _ | .loadBalance _ => q

/-- What the next critical section of a thread does to the queues. -/
def nextQueues (h : Host) (t : T) (s : State T) (q : Fin n → List Node) : Fin n → List Node :=
  match s.phase t with
  | .calling call _ _ => call.queues h q
  | .taking cpu _ _ _ =>
    match s.links.next (.head cpu) with
    | .head _ => q
    | .entity e => deleteFrom q e
  | .putting e tgtCpu _ _ => if htgt : tgtCpu < n then appendTo q ⟨tgtCpu, htgt⟩ e else q
  | _ => q

/-- The queues are `q`, everything on them belongs to their locks, and every thread may do what it does next. -/
structure Fits (n : ℕ) (h : Host) (b : Bool) (s : State T) (q : Fin n → List Node)
    (own : Node → Option (ℕ ⊕ T)) (use : T → Addr → Use) : Prop where
  owned : Owned h s.links q own use fun t => (s.phase t).hand
  phases : ∀ t, PhaseFits n h b (use t) (s.phase t)
  balancing : b = true → ∀ t c, use t c ≠ .queued

section Steps

variable {s : State T} {own own' : Node → Option (ℕ ⊕ T)} {use : T → Addr → Use} {t : T} {e c : Addr}
  {f : Addr → Use} {calls : List Call} {rs : List Answer} {cpu tgtCpu : ℕ} {minLoad : UInt32}

theorem homeOf_lt (hcpus : h.gCpuCount ≠ 0) (hc : h.entityOf c = some e) : homeOf h c < h.gCpuCount.toNat := by
  obtain ⟨u, hu, -⟩ := Option.bind_eq_some_iff.mp hc
  rw [homeOf, hu]
  exact u.home_lt hcpus

theorem onHome_eq {f : Fin n → Addr → Fin n → List Node} (hc : h.entityOf c = some e) (hi : homeOf h c < n) :
    onHome h q c f = f ⟨homeOf h c, hi⟩ e := by
  rw [onHome, hc]
  exact dif_pos hi

theorem onEntity_eq {l : DList.Links Node} {f : Node → DList.Links Node} (hc : h.entityOf c = some e) :
    onEntity h c l f = f (.entity e) := by
  rw [onEntity, hc]
  rfl

/-! ### What comes after a section -/

theorem scan_code (is : List ℕ) : (Phase.scan cpu is minLoad tgtCpu calls rs).code h =
    (leastLoaded h cpu is minLoad tgtCpu >>= balanceAgainst h cpu) >>= fun r => runCalls h calls (rs ++ [r]) := by
  induction is with
  | nil => rfl
  | cons i is ih =>
    rw [Phase.scan]
    split_ifs with hi
    · rw [ih, leastLoaded, if_pos hi]
    · rfl

theorem scan_fits {use : Addr → Use} {is : List ℕ} (hb : b = true) (hcpu : cpu < n) (his : ∀ i ∈ is, i < n)
    (htgt : tgtCpu < n) (hcalls : CallsFit h b use calls) :
    PhaseFits n h b use (.scan cpu is minLoad tgtCpu calls rs) := by
  induction is with
  | nil => exact ⟨hb, hcpu, htgt, hcalls⟩
  | cons i is ih =>
    have hrest : ∀ j ∈ is, j < n := fun j hj => his j (List.mem_cons_of_mem _ hj)
    rw [Phase.scan]
    split_ifs with hi
    · exact ih hrest
    · exact ⟨hb, hcpu, hi, his i List.mem_cons_self, hrest, htgt, hcalls⟩

theorem scan_hand (is : List ℕ) : (Phase.scan cpu is minLoad tgtCpu calls rs).hand = none := by
  induction is with
  | nil => rfl
  | cons i is ih =>
    rw [Phase.scan]
    split_ifs
    · exact ih
    · rfl

theorem enter_hand : (Phase.enter h calls rs).hand = none := by
  cases calls with
  | nil => rfl
  | cons call calls => cases call <;> first | rfl | exact scan_hand _

theorem scan_calls (is : List ℕ) : (Phase.scan cpu is minLoad tgtCpu calls rs).calls = calls := by
  induction is with
  | nil => rfl
  | cons i is ih =>
    rw [Phase.scan]
    split_ifs
    · exact ih
    · rfl

theorem scan_answers (is : List ℕ) : (Phase.scan cpu is minLoad tgtCpu calls rs).answers = rs := by
  induction is with
  | nil => rfl
  | cons i is ih =>
    rw [Phase.scan]
    split_ifs
    · exact ih
    · rfl

theorem enter_answers : (Phase.enter h calls rs).answers = rs := by
  cases calls with
  | nil => rfl
  | cons call calls => cases call <;> first | rfl | exact scan_answers _

theorem enter_code (hcalls : CallsFit h b f calls) : (Phase.enter h calls rs).code h = runCalls h calls rs := by
  cases calls with
  | nil => rfl
  | cons call calls =>
    cases call with
    | loadBalance cpu =>
      rw [Phase.enter, scan_code, runCalls, Call.code, schedulerLoadBalance, if_neg (UInt32.not_le.mpr hcalls.1)]
      rfl
    | add c calloc =>
      obtain ⟨e, he⟩ := Option.ne_none_iff_exists'.mp hcalls.1
      rw [runCalls, Call.known_add he]
      rfl
    | _ => rfl

theorem enter_fits (hn : h.gCpuCount.toNat = n) (hl : Layout (fun _ => True) h) (hcalls : CallsFit h b f calls) :
    PhaseFits n h b f (.enter h calls rs) := by
  subst hn
  cases calls with
  | nil => trivial
  | cons call calls =>
    cases call with
    | loadBalance cpu =>
      exact scan_fits hcalls.2.1 (UInt32.lt_iff_toNat_lt.mp hcalls.1) (fun i hi => List.mem_range.mp hi) hl.cpus_pos
        hcalls.2.2
    | _ => exact ⟨by simp, hcalls⟩

theorem Fits.cpus (hf : Fits n h b s q own use) : h.gCpuCount.toNat = n := hf.owned.queues.cpus

theorem Owned.may_head {l : DList.Links Node} {hand : T → Option Addr} (ho : Owned h l q own use hand) (i : Fin n)
    (t : T) : May (Reaches (fun p : Pointer => own p.node) i.val t) (.head i) ∧
      May (Reaches (fun p : Pointer => own p.node) i.val t) (l.prev (.head i)) ∧
      May (Reaches (fun p : Pointer => own p.node) i.val t) (l.next (.head i)) :=
  ⟨ho.may List.mem_cons_self t, ho.may (ho.queues.rings.ring i).prev_head_mem t,
    ho.may (ho.queues.rings.ring i).next_head_mem t⟩

variable [DecidableEq T]

theorem Fits.advance (hf : Fits n h b s q own use) {l' : DList.Links Node} {p : Phase}
    (ho : Owned h l' q' own' (Function.update use t f) (Function.update (fun u => (s.phase u).hand) t p.hand))
    (hp : PhaseFits n h b f p) (hb : b = true → ∀ c, f c ≠ .queued) :
    Fits n h b (s.advance t l' p) q' own' (Function.update use t f) := by
  refine ⟨?_, fun u => ?_, fun hb' u c => ?_⟩
  · have hhand : (fun u => ((s.advance t l' p).phase u).hand) = Function.update (fun u => (s.phase u).hand) t p.hand :=
      Function.comp_update Phase.hand s.phase t p
    rw [hhand]
    exact ho
  · by_cases hu : u = t
    · subst hu
      rw [State.advance_phase_self, Function.update_self]
      exact hp
    · rw [State.advance_phase_of_ne _ _ _ hu, Function.update_of_ne hu]
      exact hf.phases u
  · by_cases hu : u = t
    · subst hu
      rw [Function.update_self]
      exact hb hb' c
    · rw [Function.update_of_ne hu]
      exact hf.balancing hb' u c

theorem Fits.goOn (hf : Fits n h b s q own use) {l' : DList.Links Node} {p : Phase}
    (ho : Owned h l' q' own' (Function.update use t f) fun u => (s.phase u).hand) (hnone : (s.phase t).hand = none)
    (hhand : p.hand = none) (hp : PhaseFits n h b f p) (hb : b = true → ∀ c, f c ≠ .queued) :
    Fits n h b (s.advance t l' p) q' own' (Function.update use t f) := by
  refine hf.advance ?_ hp hb
  have hsame : Function.update (fun u => (s.phase u).hand) t p.hand = fun u => (s.phase u).hand := by
    rw [hhand, ← hnone]
    exact Function.update_eq_self t _
  rw [hsame]
  exact ho

theorem Fits.keep (hf : Fits n h b s q own use) {l' : DList.Links Node} {p : Phase}
    (ho : Owned h l' q' own use fun u => (s.phase u).hand) (hnone : (s.phase t).hand = none) (hhand : p.hand = none)
    (hp : PhaseFits n h b (use t) p) : Fits n h b (s.advance t l' p) q' own use := by
  have hsame : Function.update use t (use t) = use := Function.update_eq_self t use
  have hgo := hf.goOn (t := t) (hsame.symm ▸ ho) hnone hhand hp (hf.balancing · t)
  rwa [hsame] at hgo

theorem mem_requeue {l : DList.Links Node} (hq : Queues n (h.setLinks l) q) {i : Fin n} (he : .entity e ∈ q i)
    {xs : List Node} (hxs : ∀ {y}, y ∈ xs ↔ y ∈ .entity e :: deleteFrom q e i) (j : Fin n) (y : Node) :
    y ∈ Function.update (deleteFrom q e) i xs j ↔ y ∈ q j := by
  by_cases hj : j = i
  · subst hj
    rw [Function.update_self, hxs]
    exact (List.perm_cons_erase he).mem_iff.symm
  · rw [Function.update_of_ne hj, deleteFrom, List.erase_of_not_mem]
    exact fun hmem => hj (hq.rings.eq_of_mem hmem he)

theorem queues_requeueTail {l : DList.Links Node} {i : Fin n} (hq : Queues n (h.setLinks l) q) (he : .entity e ∈ q i) :
    Queues n (h.setLinks (NexusVM.listAddTail (NexusVM.listDel l (.entity e)) (.entity e) (.head i)))
      (appendTo (deleteFrom q e) i e) :=
  (hq.listDel ⟨i, he⟩).listAddTail (hq.notMem_deleteFrom e) (hq.exists_entity he)

theorem queues_requeueFront {l : DList.Links Node} {i : Fin n} (hq : Queues n (h.setLinks l) q) (he : .entity e ∈ q i) :
    Queues n (h.setLinks (NexusVM.listAdd (NexusVM.listDel l (.entity e)) (.entity e) (.head i)))
      (pushTo (deleteFrom q e) i e) :=
  (hq.listDel ⟨i, he⟩).listAdd (hq.notMem_deleteFrom e) (hq.exists_entity he)

/-! ### The sections -/

/-- The next step of the thread is a critical section that works on what the thread may reach, leads to `s'`
and leaves the queues `q'`. -/
def IsSection (h : Host) (b : Bool) (s : State T) (own : Node → Option (ℕ ⊕ T)) (t : T) (s' : State T)
    (q' : Fin n → List Node) : Prop :=
  ∃ l k own' use', (s.phase t).code h = .lock l k ∧
    Runs (Reaches (fun p : Pointer => own p.node) l t) k (pointers s.links)
      (.unlock l ((s'.phase t).code h)) (pointers s'.links) ∧
    Fits n h b s' q' own' use' ∧
    Passes l t (fun p : Pointer => own p.node) fun p => own' p.node

theorem runs_bind₂ {α β γ : Type} {D : Pointer → Prop} {m m' : Pointer → Node} {x : RqCode α} {v : α}
    (hrun : Runs D x m (.ret v) m') (f : α → RqCode β) (g : β → RqCode γ) :
    Runs D ((x >>= f) >>= g) m (f v >>= g) m' :=
  (hrun.bind f).bind g

theorem Fits.add (hl : Layout (fun _ => True) h) (hf : Fits n h b s q own use)
    {calloc : Option Addr}
    (hphase : s.phase t = .calling (.add c calloc) calls rs) :
    IsSection h b s own t (s.next h t) (nextQueues h t s q) := by
  have hfits := hf.phases t
  rw [hphase] at hfits
  obtain ⟨-, hent, huse, hcalls⟩ := hfits
  obtain ⟨e, he⟩ := Option.ne_none_iff_exists'.mp hent
  have hi : homeOf h c < n := hf.cpus ▸ homeOf_lt hl.cpus he
  have hown : own (.entity e) = some (.inr t) := hf.owned.unqueued t c e huse he
  have hqueues : nextQueues h t s q = appendTo q ⟨homeOf h c, hi⟩ e := by
    rw [nextQueues, hphase]
    exact onHome_eq he hi
  have hnext : s.next h t = s.advance t (NexusVM.listAddTail s.links (.entity e) (.head (homeOf h c)))
      (.enter h calls (rs ++ [.result .ok])) := by
    rw [State.next, hphase]
    dsimp only
    rw [Call.links, onEntity_eq he, Call.answer]
  have hcode : (s.phase t).code h = .lock (homeOf h c)
      ((listAddTail (.entity e) (.head (homeOf h c)) >>= fun _ => .unlock (homeOf h c) (.ret (.result .ok))) >>=
        fun r => runCalls h calls (rs ++ [r])) := by
    rw [hphase, Phase.code, Call.code, schedulerAddVcpu, he, Option.some_or]
    rfl
  -- the vCPU is left to the queue
  have howned := hf.owned.add (i := ⟨homeOf h c, hi⟩) (v := if b then .foreign else .queued) hl he huse rfl (by
    split_ifs <;> simp)
  have hbalancing : b = true →
      ∀ d, Function.update (use t) c (if b then Use.foreign else Use.queued) d ≠ .queued := by
    intro hb d
    by_cases hdc : d = c
    · rw [hdc, Function.update_self, if_pos hb]
      simp
    · rw [Function.update_of_ne hdc]
      exact hf.balancing hb t d
  obtain ⟨hhead, hprev, -⟩ := hf.owned.may_head ⟨homeOf h c, hi⟩ t
  rw [hqueues, hnext]
  refine ⟨_, _, _, _, hcode, ?_, hf.goOn howned (by rw [hphase]; rfl) enter_hand
    (enter_fits hf.cpus hl hcalls) hbalancing, passes_update (.inr hown) (.inl rfl)⟩
  rw [State.advance_phase_self, enter_code hcalls]
  exact runs_bind₂ (listAddTail_runs (may_of_own hown) hhead hprev (by simp)) _ _

theorem Fits.remove (hl : Layout (fun _ => True) h) (hf : Fits n h b s q own use)
    (hphase : s.phase t = .calling (.remove c) calls rs) :
    IsSection h b s own t (s.next h t) (nextQueues h t s q) := by
  have hfits := hf.phases t
  rw [hphase] at hfits
  obtain ⟨-, hent, huse, hcalls⟩ := hfits
  obtain ⟨e, he⟩ := Option.ne_none_iff_exists'.mp hent
  have hi : homeOf h c < n := hf.cpus ▸ homeOf_lt hl.cpus he
  obtain ⟨i, hhome, hmem⟩ := hf.owned.queued t c e huse he
  have hqueues : nextQueues h t s q = deleteFrom q e := by
    rw [nextQueues, hphase]
    dsimp only
    rw [Call.queues, onHome_eq he hi]
  have hnext : s.next h t = s.advance t (NexusVM.listDel s.links (.entity e))
      (.enter h calls (rs ++ [.result .ok])) := by
    rw [State.next, hphase]
    dsimp only
    rw [Call.links, onEntity_eq he, Call.answer]
  have hcode : (s.phase t).code h = .lock i.val
      ((listDel (.entity e) >>= fun _ => .unlock i.val (.ret (.result .ok))) >>=
        fun r => runCalls h calls (rs ++ [r])) := by
    rw [hphase, Phase.code, Call.code, schedulerRemoveVcpu, he, hhome]
    rfl
  have hbalancing : b = true → ∀ d, Function.update (use t) c .unqueued d ≠ .queued :=
    fun hb => absurd huse (hf.balancing hb t c)
  obtain ⟨hnext_mem, hprev_mem⟩ := (hf.owned.queues.rings.ring i).neighbours_mem hmem
  have hown := hf.owned.onQueue i _ (List.mem_cons_of_mem _ hmem)
  rw [hqueues, hnext]
  refine ⟨_, _, _, _, hcode, ?_, hf.goOn (hf.owned.remove hl he huse) (by rw [hphase]; rfl) enter_hand
    (enter_fits hf.cpus hl hcalls) hbalancing, passes_update (.inl hown) (.inr rfl)⟩
  rw [State.advance_phase_self, enter_code hcalls]
  exact runs_bind₂ (listDel_runs (hf.owned.may (List.mem_cons_of_mem _ hmem) t) (hf.owned.may hprev_mem t)
    (hf.owned.may hnext_mem t)) _ _

theorem Fits.requeue (hf : Fits n h b s q own use) {x : Node} {i : Fin n} {link : RqCode Unit}
    {l' : DList.Links Node} {p : Phase} {k : Answer → RqCode (List Answer)} {r : Answer} (hx : x ∈ q i)
    (hcode : (s.phase t).code h = .lock i.val ((listDel x >>= fun _ => link >>= fun _ => .unlock i.val (.ret r)) >>= k))
    (hlink : Runs (Reaches (fun p : Pointer => own p.node) i.val t) link (pointers (NexusVM.listDel s.links x))
      (.ret ()) (pointers l')) (hq : Queues n (h.setLinks l') q') (hmem : ∀ j y, y ∈ q' j ↔ y ∈ q j)
    (hnone : (s.phase t).hand = none) (hhand : p.hand = none) (hp : PhaseFits n h b (use t) p)
    (hpcode : p.code h = k r) : IsSection h b s own t (s.advance t l' p) q' := by
  obtain ⟨hnext_mem, hprev_mem⟩ := (hf.owned.queues.rings.ring i).neighbours_mem hx
  refine ⟨_, _, own, use, hcode, ?_, hf.keep (hf.owned.congr hq hmem) hnone hhand hp, passes_refl⟩
  rw [State.advance_phase_self, hpcode]
  have hdel := listDel_runs (l := s.links) (hf.owned.may (List.mem_cons_of_mem _ hx) t)
    (hf.owned.may hprev_mem t) (hf.owned.may hnext_mem t)
  exact (runs_bind₂ hdel _ _).trans (runs_bind₂ hlink _ _)

theorem Fits.yield (hl : Layout (fun _ => True) h) (hf : Fits n h b s q own use)
    (hphase : s.phase t = .calling (.yield c) calls rs) :
    IsSection h b s own t (s.next h t) (nextQueues h t s q) := by
  have hfits := hf.phases t
  rw [hphase] at hfits
  obtain ⟨-, hent, huse, hcalls⟩ := hfits
  obtain ⟨e, he⟩ := Option.ne_none_iff_exists'.mp hent
  obtain ⟨⟨i, hi⟩, hhome, hmem⟩ := hf.owned.queued t c e huse he
  obtain rfl : i = homeOf h c := hhome
  have hqueues : nextQueues h t s q = appendTo (deleteFrom q e) ⟨homeOf h c, hi⟩ e := by
    rw [nextQueues, hphase]
    dsimp only
    rw [Call.queues, onHome_eq he hi]
  have hnext : s.next h t = s.advance t (NexusVM.listAddTail (NexusVM.listDel s.links (.entity e)) (.entity e)
      (.head (homeOf h c))) (.enter h calls (rs ++ [.void])) := by
    rw [State.next, hphase]
    dsimp only
    rw [Call.links, onEntity_eq he, Call.answer]
  have hdel := hf.owned.queues.listDel ⟨_, hmem⟩
  have hprev := (hdel.rings.ring ⟨homeOf h c, hi⟩).prev_head_mem
  rw [hqueues, hnext]
  refine hf.requeue hmem (by rw [hphase, Phase.code, Call.code, schedulerYield, he]; rfl)
    (listAddTail_runs (hf.owned.may (List.mem_cons_of_mem _ hmem) t) (hf.owned.may List.mem_cons_self t)
      (hf.owned.may (List.mem_cons.mpr ((List.mem_cons.mp hprev).imp_right List.mem_of_mem_erase)) t) (by simp))
    (queues_requeueTail hf.owned.queues hmem) ?_ (by rw [hphase]; rfl) enter_hand
    (enter_fits hf.cpus hl hcalls) (enter_code hcalls)
  exact mem_requeue hf.owned.queues hmem (List.perm_append_singleton _ _).mem_iff

theorem Fits.wake (hl : Layout (fun _ => True) h) (hf : Fits n h b s q own use)
    (hphase : s.phase t = .calling (.wake c) calls rs) :
    IsSection h b s own t (s.next h t) (nextQueues h t s q) := by
  have hfits := hf.phases t
  rw [hphase] at hfits
  obtain ⟨-, hent, huse, hcalls⟩ := hfits
  obtain ⟨e, he⟩ := Option.ne_none_iff_exists'.mp hent
  obtain ⟨⟨i, hi⟩, hhome, hmem⟩ := hf.owned.queued t c e huse he
  obtain rfl : i = homeOf h c := hhome
  have hqueues : nextQueues h t s q = pushTo (deleteFrom q e) ⟨homeOf h c, hi⟩ e := by
    rw [nextQueues, hphase]
    dsimp only
    rw [Call.queues, onHome_eq he hi]
  have hnext : s.next h t = s.advance t (NexusVM.listAdd (NexusVM.listDel s.links (.entity e)) (.entity e)
      (.head (homeOf h c))) (.enter h calls (rs ++ [.void])) := by
    rw [State.next, hphase]
    dsimp only
    rw [Call.links, onEntity_eq he, Call.answer]
  have hdel := hf.owned.queues.listDel ⟨_, hmem⟩
  have hfirst := (hdel.rings.ring ⟨homeOf h c, hi⟩).next_head_mem
  rw [hqueues, hnext]
  refine hf.requeue hmem (by rw [hphase, Phase.code, Call.code, schedulerWake, he]; rfl)
    (listAdd_runs (hf.owned.may (List.mem_cons_of_mem _ hmem) t) (hf.owned.may List.mem_cons_self t)
      (hf.owned.may (List.mem_cons.mpr ((List.mem_cons.mp hfirst).imp_right List.mem_of_mem_erase)) t) (by simp))
    (queues_requeueFront hf.owned.queues hmem) ?_ (by rw [hphase]; rfl) enter_hand
    (enter_fits hf.cpus hl hcalls) (enter_code hcalls)
  exact mem_requeue hf.owned.queues hmem Iff.rfl

theorem Fits.counts (hl : Layout (fun _ => True) h) (hf : Fits n h b s q own use) {i : Fin n} {p : Phase}
    {β : Type} {f : UInt32 → RqCode β} {k : β → RqCode (List Answer)}
    (hcode : (s.phase t).code h = .lock i.val ((countNodes h.fuel (.head i) >>= fun x => .unlock i.val (f x)) >>= k))
    (hnone : (s.phase t).hand = none) (hhand : p.hand = none) (hp : PhaseFits n h b (use t) p)
    (hpcode : p.code h = f ((h.setLinks s.links).load i) >>= k) :
    IsSection h b s own t (s.advance t s.links p) q := by
  have hwalk := hf.owned.queues.runqueue (hl.setLinks s.links) i
  have hload : (h.setLinks s.links).load i = UInt32.ofNat (q i).length := by
    rw [Host.load, hwalk]
    rfl
  have hcount := countNodes_runs (D := Reaches (fun p : Pointer => own p.node) i.val t) (l := s.links) hwalk
    (hf.owned.may List.mem_cons_self t) fun y hy => hf.owned.may (List.mem_cons_of_mem _ hy) t
  refine ⟨_, _, own, use, hcode, ?_, hf.keep hf.owned hnone hhand hp, passes_refl⟩
  rw [State.advance_phase_self, hpcode, hload]
  exact runs_bind₂ hcount _ _

theorem Fits.getCpuLoad (hl : Layout (fun _ => True) h) (hf : Fits n h b s q own use) {cpu : UInt32}
    (hphase : s.phase t = .calling (.getCpuLoad cpu) calls rs) :
    IsSection h b s own t (s.next h t) (nextQueues h t s q) := by
  have hfits := hf.phases t
  rw [hphase] at hfits
  obtain ⟨-, hcpu, hdiv, hcalls⟩ := hfits
  have hi : cpu.toNat < n := hf.cpus ▸ UInt32.lt_iff_toNat_lt.mp hcpu
  have hqueues : nextQueues h t s q = q := by rw [nextQueues, hphase]; rfl
  have hnext : s.next h t = s.advance t s.links (.enter h calls (rs ++ [.load
      ((h.setLinks s.links).load cpu.toNat * 100 / (h.gCpuCount + 1))])) := by
    rw [State.next, hphase]
    rfl
  rw [hqueues, hnext]
  refine hf.counts (i := ⟨cpu.toNat, hi⟩) (f := fun count => .ret (.load (count * 100 / (h.gCpuCount + 1))))
    (k := fun r => runCalls h calls (rs ++ [r])) hl ?_ (by rw [hphase]; rfl) enter_hand (enter_fits hf.cpus hl hcalls)
    (enter_code hcalls)
  rw [hphase, Phase.code, Call.code, schedulerGetCpuLoad, if_neg (UInt32.not_le.mpr hcpu)]
  simp only [if_neg hdiv]
  rfl

theorem Fits.scanning (hl : Layout (fun _ => True) h) (hf : Fits n h b s q own use) {i : ℕ} {is : List ℕ}
    (hphase : s.phase t = .scanning cpu i is minLoad tgtCpu calls rs) :
    IsSection h b s own t (s.next h t) (nextQueues h t s q) := by
  have hfits := hf.phases t
  rw [hphase] at hfits
  obtain ⟨hb, hcpu, hne, hi, his, htgt, hcalls⟩ := hfits
  have hqueues : nextQueues h t s q = q := by rw [nextQueues, hphase]
  rw [hqueues, State.next, hphase]
  dsimp only
  refine hf.counts (i := ⟨i, hi⟩) (f := fun load => if load < minLoad then leastLoaded h cpu is load i
      else leastLoaded h cpu is minLoad tgtCpu)
    (k := fun a => balanceAgainst h cpu a >>= fun r => runCalls h calls (rs ++ [r])) hl ?_ (by rw [hphase]; rfl) ?_ ?_ ?_
  · rw [hphase, Phase.code, leastLoaded, if_neg hne, Code.bind_assoc]
    rfl
  · split_ifs
    · exact scan_hand _
    · exact scan_hand _
  · split_ifs
    · exact scan_fits hb hcpu his hi hcalls
    · exact scan_fits hb hcpu his htgt hcalls
  · split_ifs
    · rw [scan_code, Code.bind_assoc]
    · rw [scan_code, Code.bind_assoc]

theorem Fits.weighing (hl : Layout (fun _ => True) h) (hf : Fits n h b s q own use) {found : UInt32 × ℕ}
    (hphase : s.phase t = .weighing cpu found calls rs) :
    IsSection h b s own t (s.next h t) (nextQueues h t s q) := by
  have hfits := hf.phases t
  rw [hphase] at hfits
  obtain ⟨hb, hcpu, htgt, hcalls⟩ := hfits
  have hqueues : nextQueues h t s q = q := by rw [nextQueues, hphase]
  rw [hqueues, State.next, hphase]
  dsimp only
  refine hf.counts (i := ⟨cpu, hcpu⟩) (f := fun srcLoad => if srcLoad > found.1 + 2 then migrateFirst cpu found.2
      else return .void) hl (by rw [hphase]; rfl) (by rw [hphase]; rfl) ?_ ?_ ?_
  · split_ifs
    · rfl
    · exact enter_hand
  · split_ifs
    · exact ⟨hb, hcpu, htgt, hcalls⟩
    · exact enter_fits hf.cpus hl hcalls
  · split_ifs
    · rfl
    · exact enter_code hcalls

theorem Fits.taking (hl : Layout (fun _ => True) h) (hf : Fits n h b s q own use)
    (hphase : s.phase t = .taking cpu tgtCpu calls rs) :
    IsSection h b s own t (s.next h t) (nextQueues h t s q) := by
  have hfits := hf.phases t
  rw [hphase] at hfits
  obtain ⟨hb, hcpu, htgt, hcalls⟩ := hfits
  obtain ⟨hhead, -, -⟩ := hf.owned.may_head ⟨cpu, hcpu⟩ t
  have hring := hf.owned.queues.rings.ring ⟨cpu, hcpu⟩
  rw [nextQueues, State.next, hphase]
  dsimp only
  cases hfirst : s.links.next (.head cpu) with
  | head j =>
    -- the next node is the head itself
    have hj : j = cpu := by
      have hmem := hring.next_head_mem
      change s.links.next (.head cpu) ∈ _ at hmem
      rw [hfirst, List.mem_cons] at hmem
      rcases hmem with heq | hmem
      · exact Node.head.inj heq
      · obtain ⟨e, he, -⟩ := hf.owned.queues.entities _ _ hmem
        cases he
    subst hj
    refine ⟨j, _, own, use, by rw [hphase]; rfl, ?_, hf.keep hf.owned (by rw [hphase]; rfl) enter_hand
      (enter_fits hf.cpus hl hcalls), passes_refl⟩
    rw [State.advance_phase_self, enter_code hcalls]
    refine .load hhead.1 ?_
    change Runs _ ((if pointers s.links (.next (.head j)) ≠ .head j then _ else _) >>= _) _ _ _
    rw [pointers_next, hfirst, if_neg (not_not.mpr rfl)]
    exact .refl _ _
  | entity e =>
    have hmem : .entity e ∈ q ⟨cpu, hcpu⟩ := by
      have hmem := hring.next_head_mem
      change s.links.next (.head cpu) ∈ _ at hmem
      rw [hfirst, List.mem_cons] at hmem
      exact hmem.resolve_left (by simp)
    obtain ⟨hnext_mem, hprev_mem⟩ := hring.neighbours_mem hmem
    have howned := hf.owned.take (t := t) hmem (hf.balancing hb)
    have hsame : Function.update use t (use t) = use := Function.update_eq_self t use
    have hfits' := hf.advance (t := t) (f := use t) (p := .putting e tgtCpu calls rs) (hsame.symm ▸ howned)
      ⟨hb, htgt, hcalls⟩ (hf.balancing · t)
    refine ⟨cpu, _, _, _, by rw [hphase]; rfl, ?_, hfits',
      passes_update (.inl (hf.owned.onQueue ⟨cpu, hcpu⟩ _ (List.mem_cons_of_mem _ hmem))) (.inr rfl)⟩
    rw [State.advance_phase_self]
    refine .load hhead.1 ?_
    change Runs _ ((if pointers s.links (.next (.head cpu)) ≠ .head cpu then _ else _) >>= _) _ _ _
    rw [pointers_next, hfirst, if_pos (by simp)]
    refine .load hhead.1 ?_
    rw [pointers_next, hfirst]
    exact runs_bind₂ (listDel_runs (hf.owned.may (List.mem_cons_of_mem _ hmem) t) (hf.owned.may hprev_mem t)
      (hf.owned.may hnext_mem t)) _ _

theorem Fits.putting (hl : Layout (fun _ => True) h) (hf : Fits n h b s q own use)
    (hphase : s.phase t = .putting e tgtCpu calls rs) :
    IsSection h b s own t (s.next h t) (nextQueues h t s q) := by
  have hfits := hf.phases t
  rw [hphase] at hfits
  obtain ⟨hb, htgt, hcalls⟩ := hfits
  have hhand : (s.phase t).hand = some e := by rw [hphase]; rfl
  have hown := (hf.owned.hand t e hhand).1
  have howned := hf.owned.put (i := ⟨tgtCpu, htgt⟩) hhand (hf.balancing hb)
  obtain ⟨hhead, hprev, -⟩ := hf.owned.may_head ⟨tgtCpu, htgt⟩ t
  have hqueues : nextQueues h t s q = appendTo q ⟨tgtCpu, htgt⟩ e := by
    rw [nextQueues, hphase]
    exact dif_pos htgt
  rw [hqueues, State.next, hphase]
  dsimp only
  have hsame : Function.update use t (use t) = use := Function.update_eq_self t use
  have hfits' := hf.advance (t := t) (f := use t) (p := .enter h calls (rs ++ [.void]))
    (by rw [hsame, enter_hand]; exact howned) (enter_fits hf.cpus hl hcalls) (hf.balancing · t)
  refine ⟨tgtCpu, _, _, _, by rw [hphase]; rfl, ?_, hfits', passes_update (.inr hown) (.inl rfl)⟩
  rw [State.advance_phase_self, enter_code hcalls]
  exact runs_bind₂ (listAddTail_runs (may_of_own hown) hhead hprev (by simp)) _ _

/-- **The next step of every thread is a critical section on its own ground.** -/
theorem Fits.next (hl : Layout (fun _ => True) h) (hf : Fits n h b s q own use) {l : ℕ} {k : RqCode (List Answer)}
    (hcode : (s.phase t).code h = .lock l k) : IsSection h b s own t (s.next h t) (nextQueues h t s q) := by
  cases hphase : s.phase t with
  | returned rs =>
    rw [hphase] at hcode
    cases hcode
  | calling call calls rs =>
    cases call with
    | add c calloc => exact hf.add hl hphase
    | remove c => exact hf.remove hl hphase
    | yield c => exact hf.yield hl hphase
    | wake c => exact hf.wake hl hphase
    | getCpuLoad cpu => exact hf.getCpuLoad hl hphase
    | loadBalance cpu =>
      have hfits := hf.phases t
      rw [hphase] at hfits
      exact absurd rfl (hfits.1 cpu)
  | scanning cpu i is minLoad tgtCpu calls rs => exact hf.scanning hl hphase
  | weighing cpu found calls rs => exact hf.weighing hl hphase
  | taking cpu tgtCpu calls rs => exact hf.taking hl hphase
  | putting e tgtCpu calls rs => exact hf.putting hl hphase

theorem PhaseFits.atRest {p : Phase} {use : Addr → Use} (hp : PhaseFits n h b use p) :
    (∃ rs, p = .returned rs) ∨ ∃ l k, p.code h = .lock l k := by
  cases p with
  | returned rs => exact .inl ⟨rs, rfl⟩
  | calling call calls rs =>
    right
    obtain ⟨hne, hcalls⟩ := hp
    cases call with
    | add c | remove c | yield c | wake c =>
      obtain ⟨e, he⟩ := Option.ne_none_iff_exists'.mp hcalls.1
      rw [Phase.code, Call.code]
      first | rw [schedulerAddVcpu, he] | rw [schedulerRemoveVcpu, he] | rw [schedulerYield, he] | rw [schedulerWake, he]
      exact ⟨_, _, rfl⟩
    | getCpuLoad cpu =>
      rw [Phase.code, Call.code, schedulerGetCpuLoad, if_neg (UInt32.not_le.mpr hcalls.1)]
      exact ⟨_, _, rfl⟩
    | loadBalance cpu => exact absurd rfl (hne cpu)
  | scanning cpu i is minLoad tgtCpu calls rs =>
    right
    rw [Phase.code, leastLoaded, if_neg hp.2.2.1]
    exact ⟨_, _, rfl⟩
  | weighing | taking | putting => exact .inr ⟨_, _, rfl⟩

/-- What is invariant: the discipline, and something about the state, the sections so far and the queues. -/
def Invariant (n : ℕ) (h : Host) (b : Bool) (K : State T → List T → (Fin n → List Node) → Prop)
    (p : State T × List T) (o : Owners ℕ Pointer T) : Prop :=
  ∃ q own use, o = (fun x => own x.node) ∧ Fits n h b p.1 q own use ∧ K p.1 p.2 q

/-- **The threads follow the locking discipline**, and keep what every critical section keeps. -/
theorem sections_disciplined (hl : Layout (fun _ => True) h) {K : State T → List T → (Fin n → List Node) → Prop}
    (hK : ∀ s order q own use t, Fits n h b s q own use → (∃ l k, (s.phase t).code h = .lock l k) → K s order q →
      K (s.next h t) (order ++ [t]) (nextQueues h t s q)) :
    Disciplined (sections T h).traced (Invariant n h b K) where
  atRest := by
    rintro ⟨s, order⟩ _ ⟨q, own, use, rfl, hf, -⟩ t
    change ((s.phase t).code h).AtRest
    obtain ⟨rs, hrs⟩ | ⟨l, k, hlk⟩ := (hf.phases t).atRest
    · rw [hrs]
      trivial
    · rw [hlk]
      trivial
  sect := by
    rintro ⟨s, order⟩ _ t l k ⟨q, own, use, rfl, hf, hKs⟩ hcode
    obtain ⟨l', k', own', use', hcode', hrun, hf', hpass⟩ := hf.next hl hcode
    change (s.phase t).code h = _ at hcode
    rw [hcode] at hcode'
    cases hcode'
    refine ⟨_, _, hrun, ?_, ⟨_, own', use', rfl, hf', hK s order q own use t hf ⟨l, k, hcode⟩ hKs⟩, hpass⟩
    funext u
    by_cases hu : u = t
    · subst hu
      rw [Function.update_self]
      rfl
    · rw [Function.update_of_ne hu]
      change ((s.next h t).phase u).code h = (s.phase u).code h
      rw [State.next_phase_of_ne h s hu]

end Steps

end NexusVM.Threaded
