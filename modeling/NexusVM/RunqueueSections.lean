import NexusVM.RunqueueThreads

/-!
# The critical sections of the scheduler

What the threads do to the runqueues between taking a lock and giving it back, and who may touch which entity.

* `Phase`, `Phase.code`: how far a thread is, at rest;
* `State`, `State.next`, `sections`: whole critical sections as steps;
* `Use`, `CallsFit`: what a thread may call, by what it knows of its vCPUs;
* `Owned`, **`Owned.append`**, **`Owned.delete`**: each entity belongs to a queue or to a thread, and passes from
  one to the other;
* `Owned.add`, `Owned.remove`, `Owned.take`, `Owned.put`: so it does when the functions do it.
-/

namespace NexusVM.Threaded

open Threads

variable {T : Type} {n : ℕ} {h : Host} {b : Bool} {q q' : Fin n → List Node}

/-! ## Phases -/

/-- How far a thread is when it holds no lock: the lock to be taken next, what is still to be done, and
the answers so far. -/
inductive Phase
  | returned (rs : List Answer)
  | calling (call : Call) (calls : List Call) (rs : List Answer)
  | scanning (cpu i : ℕ) (is : List ℕ) (minLoad : UInt32) (tgtCpu : ℕ) (calls : List Call) (rs : List Answer)
  | weighing (cpu : ℕ) (found : UInt32 × ℕ) (calls : List Call) (rs : List Answer)
  | taking (cpu tgtCpu : ℕ) (calls : List Call) (rs : List Answer)
  | putting (e : Addr) (tgtCpu : ℕ) (calls : List Call) (rs : List Answer)

namespace Phase

/-- The search for the least loaded CPU goes on. -/
def scan (cpu : ℕ) : List ℕ → UInt32 → ℕ → List Call → List Answer → Phase
  | [], minLoad, tgtCpu, calls, rs => weighing cpu (minLoad, tgtCpu) calls rs
  | i :: is, minLoad, tgtCpu, calls, rs =>
    if i = cpu then scan cpu is minLoad tgtCpu calls rs else scanning cpu i is minLoad tgtCpu calls rs

/-- The next call. -/
def enter (h : Host) : List Call → List Answer → Phase
  | [], rs => returned rs
  | .loadBalance cpu :: calls, rs =>
    scan cpu.toNat (List.range h.gCpuCount.toNat) 0xFFFFFFFF 0 calls rs
  | call :: calls, rs => calling call calls rs

/-- What is left to do. -/
def code (h : Host) : Phase → RqCode (List Answer)
  | returned rs => .ret rs
  | calling call calls rs => call.code h >>= fun r => runCalls h calls (rs ++ [r])
  | scanning cpu i is minLoad tgtCpu calls rs =>
    (leastLoaded h cpu (i :: is) minLoad tgtCpu >>= balanceAgainst h cpu) >>= fun r => runCalls h calls (rs ++ [r])
  | weighing cpu found calls rs => balanceAgainst h cpu found >>= fun r => runCalls h calls (rs ++ [r])
  | taking cpu tgtCpu calls rs => migrateFirst cpu tgtCpu >>= fun r => runCalls h calls (rs ++ [r])
  | putting e tgtCpu calls rs => migrateTo (.entity e) tgtCpu >>= fun r => runCalls h calls (rs ++ [r])

/-- The entity that the thread has taken out of one queue and not yet put into another. -/
def hand : Phase → Option Addr
  | putting e _ _ _ => some e
  | _ => none

/-- The calls that are still to come. -/
def calls : Phase → List Call
  | returned _ => []
  | calling call calls _ => call :: calls
  | scanning _ _ _ _ _ calls _ | weighing _ _ calls _ | taking _ _ calls _ | putting _ _ calls _ => calls

/-- The answers so far. -/
def answers : Phase → List Answer
  | returned rs | calling _ _ rs | scanning _ _ _ _ _ _ rs | weighing _ _ _ rs | taking _ _ _ rs
  | putting _ _ _ rs => rs

end Phase

/-! ## Sections -/

/-- What is done with the entity of a vCPU. -/
def onEntity (h : Host) (c : Addr) (l : DList.Links Node) (f : Node → DList.Links Node) : DList.Links Node :=
  (h.entityOf c).elim l fun e => f (.entity e)

/-- What a call does to the pointers. -/
def Call.links (h : Host) (l : DList.Links Node) : Call → DList.Links Node
  | .add c _ => onEntity h c l fun x => NexusVM.listAddTail l x (.head (homeOf h c))
  | .remove c => onEntity h c l fun x => NexusVM.listDel l x
  | .yield c => onEntity h c l fun x => NexusVM.listAddTail (NexusVM.listDel l x) x (.head (homeOf h c))
  | .wake c => onEntity h c l fun x => NexusVM.listAdd (NexusVM.listDel l x) x (.head (homeOf h c))
  | .getCpuLoad _ | .loadBalance _ => l

/-- What it returns. -/
def Call.answer (h : Host) (l : DList.Links Node) : Call → Answer
  | .add _ _ | .remove _ => .result .ok
  | .yield _ | .wake _ | .loadBalance _ => .void
  | .getCpuLoad cpu => .load ((h.setLinks l).load cpu.toNat * 100 / (h.gCpuCount + 1))

/-- The pointers, and how far the threads are. -/
structure State (T : Type) where
  links : DList.Links Node
  phase : T → Phase

namespace State

/-- A thread has got on. -/
def advance [DecidableEq T] (s : State T) (t : T) (l : DList.Links Node) (p : Phase) : State T :=
  ⟨l, Function.update s.phase t p⟩

theorem advance_phase_self [DecidableEq T] (s : State T) (t : T) (l : DList.Links Node) (p : Phase) :
    (s.advance t l p).phase t = p :=
  Function.update_self ..

theorem advance_phase_of_ne [DecidableEq T] (s : State T) {t u : T} (l : DList.Links Node) (p : Phase)
    (hu : u ≠ t) : (s.advance t l p).phase u = s.phase u :=
  Function.update_of_ne hu ..

/-- The next critical section of a thread. -/
def next [DecidableEq T] (h : Host) (t : T) (s : State T) : State T :=
  match s.phase t with
  | .returned _ => s
  | .calling call calls rs =>
    s.advance t (call.links h s.links) (.enter h calls (rs ++ [call.answer h s.links]))
  | .scanning cpu i is minLoad tgtCpu calls rs =>
    s.advance t s.links (if (h.setLinks s.links).load i < minLoad
      then .scan cpu is ((h.setLinks s.links).load i) i calls rs else .scan cpu is minLoad tgtCpu calls rs)
  | .weighing cpu found calls rs =>
    s.advance t s.links (if (h.setLinks s.links).load cpu > found.1 + 2
      then .taking cpu found.2 calls rs else .enter h calls (rs ++ [.void]))
  | .taking cpu tgtCpu calls rs =>
    match s.links.next (.head cpu) with
    | .head _ => s.advance t s.links (.enter h calls (rs ++ [.void]))
    | .entity e => s.advance t (NexusVM.listDel s.links (.entity e)) (.putting e tgtCpu calls rs)
  | .putting e tgtCpu calls rs =>
    s.advance t (NexusVM.listAddTail s.links (.entity e) (.head tgtCpu)) (.enter h calls (rs ++ [.void]))

theorem next_phase_of_ne [DecidableEq T] (h : Host) (s : State T) {t u : T} (hu : u ≠ t) :
    (s.next h t).phase u = s.phase u := by
  rw [next]
  split
  · rfl
  · exact advance_phase_of_ne _ _ _ hu
  · exact advance_phase_of_ne _ _ _ hu
  · exact advance_phase_of_ne _ _ _ hu
  · split
    · exact advance_phase_of_ne _ _ _ hu
    · exact advance_phase_of_ne _ _ _ hu
  · exact advance_phase_of_ne _ _ _ hu

end State

/-- The system of the critical sections. -/
def sections (T : Type) [DecidableEq T] (h : Host) : Serial ℕ Pointer Node T (List Answer) (State T) where
  mem s := pointers s.links
  code s t := (s.phase t).code h
  next := State.next h

/-! ## Use -/

/-- What a thread knows of a vCPU: nothing, that only it may put the vCPU on a queue, or that the vCPU is on
the queue of its home CPU and nobody else takes it off. -/
inductive Use
  | foreign
  | unqueued
  | queued
deriving DecidableEq

/-- The calls are for vCPUs that have an entity, and that the thread may use in this way. After
`scheduler_add_vcpu` a vCPU is left to the load balancer, if there is one. -/
def CallsFit (h : Host) (b : Bool) : (Addr → Use) → List Call → Prop
  | _, [] => True
  | use, .add c _ :: calls => h.entityOf c ≠ none ∧ use c = .unqueued ∧
    CallsFit h b (Function.update use c (if b then .foreign else .queued)) calls
  | use, .remove c :: calls => h.entityOf c ≠ none ∧ use c = .queued ∧
    CallsFit h b (Function.update use c .unqueued) calls
  | use, .yield c :: calls | use, .wake c :: calls => h.entityOf c ≠ none ∧ use c = .queued ∧ CallsFit h b use calls
  | use, .getCpuLoad cpu :: calls => cpu < h.gCpuCount ∧ h.gCpuCount + 1 ≠ 0 ∧ CallsFit h b use calls
  | use, .loadBalance cpu :: calls => cpu < h.gCpuCount ∧ b = true ∧ CallsFit h b use calls

/-- What a thread does next, and what it knows then. -/
def PhaseFits (n : ℕ) (h : Host) (b : Bool) (use : Addr → Use) : Phase → Prop
  | .returned _ => True
  | .calling call calls _ => (∀ cpu, call ≠ .loadBalance cpu) ∧ CallsFit h b use (call :: calls)
  | .scanning cpu i is _ tgtCpu calls _ => b = true ∧ cpu < n ∧ i ≠ cpu ∧ i < n ∧ (∀ j ∈ is, j < n) ∧ tgtCpu < n ∧
    CallsFit h b use calls
  | .weighing cpu found calls _ => b = true ∧ cpu < n ∧ found.2 < n ∧ CallsFit h b use calls
  | .taking cpu tgtCpu calls _ => b = true ∧ cpu < n ∧ tgtCpu < n ∧ CallsFit h b use calls
  | .putting _ tgtCpu calls _ => b = true ∧ tgtCpu < n ∧ CallsFit h b use calls

/-! ## Ownership -/

/-- Each entity of a queue belongs to the lock of the queue, and those that a thread may put on a queue, or is
about to, belong to the thread. -/
structure Owned (h : Host) (l : DList.Links Node) (q : Fin n → List Node) (own : Node → Option (ℕ ⊕ T))
    (use : T → Addr → Use) (hand : T → Option Addr) : Prop where
  queues : Queues n (h.setLinks l) q
  onQueue : ∀ i, ∀ x ∈ .head i :: q i, own x = some (.inl i)
  unqueued : ∀ t c e, use t c = .unqueued → h.entityOf c = some e → own (.entity e) = some (.inr t)
  queued : ∀ t c e, use t c = .queued → h.entityOf c = some e → ∃ i : Fin n, i.val = homeOf h c ∧ .entity e ∈ q i
  excl : ∀ t u c, use t c ≠ .foreign → use u c ≠ .foreign → t = u
  hand : ∀ t e, hand t = some e → own (.entity e) = some (.inr t) ∧ h.entities e ≠ none ∧
    ∀ c, use t c = .unqueued → h.entityOf c ≠ some e

section Owned

variable {l : DList.Links Node} {own : Node → Option (ℕ ⊕ T)} {use use' : T → Addr → Use}
  {hand hand' : T → Option Addr} {e : Addr} {t : T} {i : Fin n}

theorem Owned.notMem (ho : Owned h l q own use hand) (he : own (.entity e) = some (.inr t)) (j : Fin n) :
    .entity e ∉ q j := fun hmem => by
  rw [ho.onQueue j _ (List.mem_cons_of_mem _ hmem)] at he
  cases he

/-- **A thread puts an entity of its own at the end of a queue**, and gives it up. -/
theorem Owned.append (ho : Owned h l q own use hand) (he : own (.entity e) = some (.inr t))
    (hex : h.entities e ≠ none) (hun : ∀ u c, use' u c = .unqueued → use u c = .unqueued ∧ h.entityOf c ≠ some e)
    (hqd : ∀ u c, use' u c = .queued → use u c = .queued ∨ h.entityOf c = some e ∧ i.val = homeOf h c)
    (hexcl : ∀ u c, use' u c ≠ .foreign → use u c ≠ .foreign)
    (hhand : ∀ u x, hand' u = some x → hand u = some x ∧ x ≠ e) :
    Owned h (NexusVM.listAddTail l (.entity e) (.head i)) (appendTo q i e)
      (Function.update own (.entity e) (some (.inl i.val))) use' hand' where
  queues := ho.queues.listAddTail (ho.notMem he) hex
  onQueue j x hx := by
    by_cases hxe : x = .entity e
    · subst hxe
      rw [Function.update_self]
      by_cases hji : j = i
      · rw [hji]
      · rw [appendTo, Function.update_of_ne hji, List.mem_cons] at hx
        exact absurd (hx.resolve_left (by simp)) (ho.notMem he j)
    · rw [Function.update_of_ne hxe]
      refine ho.onQueue j x ?_
      by_cases hji : j = i
      · subst hji
        rw [appendTo, Function.update_self] at hx
        simpa [hxe] using hx
      · rwa [appendTo, Function.update_of_ne hji] at hx
  unqueued u c d hu hd := by
    obtain ⟨hu', hne⟩ := hun u c hu
    rw [Function.update_of_ne]
    · exact ho.unqueued u c d hu' hd
    · rintro heq
      cases heq
      exact hne hd
  queued u c d hu hd := by
    rcases hqd u c hu with hold | ⟨hent, hhome⟩
    · obtain ⟨j, hj, hmem⟩ := ho.queued u c d hold hd
      refine ⟨j, hj, ?_⟩
      by_cases hji : j = i
      · subst hji
        rw [appendTo, Function.update_self]
        exact List.mem_append_left _ hmem
      · rwa [appendTo, Function.update_of_ne hji]
    · rw [hent] at hd
      cases hd
      refine ⟨i, hhome, ?_⟩
      rw [appendTo, Function.update_self]
      exact List.mem_append_right _ (List.mem_singleton_self _)
  excl u v c hu hv := ho.excl u v c (hexcl u c hu) (hexcl v c hv)
  hand u x hx := by
    obtain ⟨hx', hxe⟩ := hhand u x hx
    obtain ⟨hown, hent, hsep⟩ := ho.hand u x hx'
    refine ⟨?_, hent, fun c hc => hsep c (hun u c hc).1⟩
    rw [Function.update_of_ne (by simpa using hxe)]
    exact hown

/-- **A thread takes an entity off a queue**, which belongs to it from then on. -/
theorem Owned.delete (ho : Owned h l q own use hand) (he : .entity e ∈ q i)
    (hun : ∀ u c d, use' u c = .unqueued → h.entityOf c = some d → use u c = .unqueued ∨ u = t ∧ d = e)
    (hqd : ∀ u c d, use' u c = .queued → h.entityOf c = some d → use u c = .queued ∧ d ≠ e)
    (hexcl : ∀ u c, use' u c ≠ .foreign → use u c ≠ .foreign)
    (hhand : ∀ u x, hand' u = some x → hand u = some x ∨ u = t ∧ x = e)
    (hsep : ∀ c, hand' t = some e → use' t c = .unqueued → use t c = .unqueued) :
    Owned h (NexusVM.listDel l (.entity e)) (deleteFrom q e)
      (Function.update own (.entity e) (some (.inr t))) use' hand' := by
  have hqueue : own (.entity e) = some (.inl i.val) := ho.onQueue i _ (List.mem_cons_of_mem _ he)
  -- nothing that belonged to a thread is `e`
  have hne : ∀ {u x}, own (.entity x) = some (.inr u) → x ≠ e := by
    rintro u x hx rfl
    rw [hqueue] at hx
    cases hx
  refine ⟨ho.queues.listDel ⟨i, he⟩, fun j x hx => ?_, fun u c d hu hd => ?_, fun u c d hu hd => ?_,
    fun u v c hu hv => ho.excl u v c (hexcl u c hu) (hexcl v c hv), fun u x hx => ?_⟩
  · have hxe : x ≠ .entity e := by
      rintro rfl
      rw [List.mem_cons] at hx
      exact ho.queues.notMem_deleteFrom e j (hx.resolve_left (by simp))
    rw [Function.update_of_ne hxe]
    refine ho.onQueue j x ?_
    rw [List.mem_cons] at hx ⊢
    exact hx.imp_right List.mem_of_mem_erase
  · rcases hun u c d hu hd with hold | ⟨rfl, rfl⟩
    · have hown := ho.unqueued u c d hold hd
      rw [Function.update_of_ne (by simpa using hne hown)]
      exact hown
    · exact Function.update_self ..
  · obtain ⟨hold, hde⟩ := hqd u c d hu hd
    obtain ⟨j, hj, hmem⟩ := ho.queued u c d hold hd
    exact ⟨j, hj, (List.mem_erase_of_ne (by simpa using hde)).mpr hmem⟩
  · have hents : h.entities e ≠ none := ho.queues.exists_entity he
    rcases hhand u x hx with hold | ⟨rfl, rfl⟩
    · obtain ⟨hown, hent, hold'⟩ := ho.hand u x hold
      refine ⟨?_, hent, fun c hc hcx => ?_⟩
      · rw [Function.update_of_ne (by simpa using hne hown)]
        exact hown
      · rcases hun u c x hc hcx with hc' | ⟨-, rfl⟩
        · exact hold' c hc' hcx
        · exact hne hown rfl
    · refine ⟨Function.update_self .., hents, fun c hc hcx => ?_⟩
      exact hne (ho.unqueued u c x (hsep c hx hc) hcx) rfl

theorem Owned.congr {l' : DList.Links Node} (ho : Owned h l q own use hand) (hq : Queues n (h.setLinks l') q')
    (hmem : ∀ i x, x ∈ q' i ↔ x ∈ q i) : Owned h l' q' own use hand where
  queues := hq
  onQueue j x hx := by
    refine ho.onQueue j x ?_
    rw [List.mem_cons] at hx ⊢
    exact hx.imp_right (hmem j x).mp
  unqueued := ho.unqueued
  queued t c e ht he := by
    obtain ⟨i, hi, hmem'⟩ := ho.queued t c e ht he
    exact ⟨i, hi, (hmem i _).mpr hmem'⟩
  excl := ho.excl
  hand := ho.hand

theorem Owned.may (ho : Owned h l q own use hand) {x : Node} (hx : x ∈ .head i :: q i) (t : T) :
    May (Reaches (fun p : Pointer => own p.node) i.val t) x :=
  ⟨.inl (ho.onQueue i x hx), .inl (ho.onQueue i x hx)⟩

theorem may_of_own {x : Node} {k : ℕ} (hx : own x = some (.inr t)) :
    May (Reaches (fun p : Pointer => own p.node) k t) x := ⟨.inr hx, .inr hx⟩

theorem passes_update {x : Node} {k : ℕ} {v : ℕ ⊕ T} (hx : own x = some (.inl k) ∨ own x = some (.inr t))
    (hv : v = .inl k ∨ v = .inr t) :
    Passes k t (fun p : Pointer => own p.node) fun p => Function.update own x (some v) p.node := by
  intro p
  by_cases hp : p.node = x
  · subst hp
    simp only [Reaches, Function.update_self]
    refine ⟨iff_of_true ?_ hx, fun hn => absurd hx hn⟩
    exact hv.imp (congrArg some) (congrArg some)
  · simp [Reaches, Function.update_of_ne hp]

theorem passes_refl {k : ℕ} : Passes k t (fun p : Pointer => own p.node) fun p => own p.node :=
  fun _ => ⟨Iff.rfl, fun _ => rfl⟩

/-! ### Calls -/

theorem eq_of_own {u : T} (ht : own (.entity e) = some (.inr t)) (hu : own (.entity e) = some (.inr u)) : u = t := by
  rw [ht] at hu
  exact (Sum.inr.inj (Option.some.inj hu)).symm

variable [DecidableEq T] {c : Addr} {v : Use}

/-- The thread queues an entity of its own, which it may still take off if `v` is so. -/
theorem Owned.add (hl : Layout (fun _ => True) h) (ho : Owned h l q own use hand) (hc : h.entityOf c = some e)
    (huse : use t c = .unqueued) (hi : i.val = homeOf h c) (hv : v ≠ .unqueued) :
    Owned h (NexusVM.listAddTail l (.entity e) (.head i)) (appendTo q i e)
      (Function.update own (.entity e) (some (.inl i.val)))
      (Function.update use t (Function.update (use t) c v)) hand := by
  have hown : own (.entity e) = some (.inr t) := ho.unqueued t c e huse hc
  have hex : h.entities e ≠ none := by
    obtain ⟨w, hw, hwe⟩ := Option.bind_eq_some_iff.mp hc
    obtain ⟨x, hx⟩ := hl.entity c w e hw hwe
    rw [hx]
    exact Option.some_ne_none x
  refine ho.append hown hex (fun u d hu => ?_) (fun u d hu => ?_) (fun u d hu => ?_) fun u x hx => ⟨hx, ?_⟩
  · by_cases hut : u = t
    · subst hut
      rw [Function.update_self] at hu
      by_cases hdc : d = c
      · rw [hdc, Function.update_self] at hu
        exact absurd hu hv
      · rw [Function.update_of_ne hdc] at hu
        exact ⟨hu, fun hd => hdc (hl.entityOf_inj hd hc)⟩
    · rw [Function.update_of_ne hut] at hu
      exact ⟨hu, fun hd => hut (eq_of_own hown (ho.unqueued u d e hu hd))⟩
  · by_cases hut : u = t
    · subst hut
      rw [Function.update_self] at hu
      by_cases hdc : d = c
      · exact .inr ⟨hdc ▸ hc, hdc ▸ hi⟩
      · rw [Function.update_of_ne hdc] at hu
        exact .inl hu
    · rw [Function.update_of_ne hut] at hu
      exact .inl hu
  · by_cases hut : u = t
    · subst hut
      rw [Function.update_self] at hu
      by_cases hdc : d = c
      · rw [hdc, huse]
        simp
      · rwa [Function.update_of_ne hdc] at hu
    · rwa [Function.update_of_ne hut] at hu
  · rintro rfl
    have hut := eq_of_own hown (ho.hand u x hx).1
    subst hut
    exact (ho.hand u x hx).2.2 c huse hc

theorem Owned.remove (hl : Layout (fun _ => True) h) (ho : Owned h l q own use hand) (hc : h.entityOf c = some e)
    (huse : use t c = .queued) : Owned h (NexusVM.listDel l (.entity e)) (deleteFrom q e)
      (Function.update own (.entity e) (some (.inr t)))
      (Function.update use t (Function.update (use t) c .unqueued)) hand := by
  obtain ⟨i, hi, hmem⟩ := ho.queued t c e huse hc
  refine ho.delete hmem (fun u d x hu hx => ?_) (fun u d x hu hx => ?_) (fun u d hu => ?_) (fun u x => .inl)
    fun d hd _ => ?_
  · by_cases hut : u = t
    · subst hut
      rw [Function.update_self] at hu
      by_cases hdc : d = c
      · subst hdc
        exact .inr ⟨rfl, Option.some.inj (hx.symm.trans hc)⟩
      · rw [Function.update_of_ne hdc] at hu
        exact .inl hu
    · rw [Function.update_of_ne hut] at hu
      exact .inl hu
  · have hold : use u d = .queued ∧ ¬ (u = t ∧ d = c) := by
      by_cases hut : u = t
      · subst hut
        rw [Function.update_self] at hu
        by_cases hdc : d = c
        · rw [hdc, Function.update_self] at hu
          cases hu
        · rw [Function.update_of_ne hdc] at hu
          exact ⟨hu, fun hc => hdc hc.2⟩
      · rw [Function.update_of_ne hut] at hu
        exact ⟨hu, fun hc => hut hc.1⟩
    refine ⟨hold.1, ?_⟩
    rintro rfl
    have hdc := hl.entityOf_inj hx hc
    subst hdc
    exact hold.2 ⟨ho.excl u t d (by rw [hold.1]; simp) (by rw [huse]; simp), rfl⟩
  · by_cases hut : u = t
    · subst hut
      rw [Function.update_self] at hu
      by_cases hdc : d = c
      · rw [hdc, huse]
        simp
      · rwa [Function.update_of_ne hdc] at hu
    · rwa [Function.update_of_ne hut] at hu
  · exact absurd hmem (ho.notMem (ho.hand t e hd).1 i)

theorem Owned.take (ho : Owned h l q own use hand) (he : .entity e ∈ q i) (huse : ∀ u d, use u d ≠ .queued) :
    Owned h (NexusVM.listDel l (.entity e)) (deleteFrom q e) (Function.update own (.entity e) (some (.inr t))) use
      (Function.update hand t (some e)) := by
  refine ho.delete he (fun u d x hu _ => .inl hu) (fun u d x hu => absurd hu (huse u d)) (fun u d => id)
    (fun u x hx => ?_) fun d _ => id
  by_cases hut : u = t
  · subst hut
    rw [Function.update_self] at hx
    exact .inr ⟨rfl, (Option.some.inj hx).symm⟩
  · rw [Function.update_of_ne hut] at hx
    exact .inl hx

theorem Owned.put (ho : Owned h l q own use hand) (hhand : hand t = some e) (huse : ∀ u d, use u d ≠ .queued) :
    Owned h (NexusVM.listAddTail l (.entity e) (.head i)) (appendTo q i e)
      (Function.update own (.entity e) (some (.inl i.val))) use (Function.update hand t none) := by
  obtain ⟨hown, hex, hsep⟩ := ho.hand t e hhand
  refine ho.append hown hex (fun u d hu => ⟨hu, fun hd => ?_⟩) (fun u d hu => absurd hu (huse u d)) (fun u d => id)
    fun u x hx => ?_
  · have hut := eq_of_own hown (ho.unqueued u d e hu hd)
    subst hut
    exact hsep d hu hd
  · by_cases hut : u = t
    · subst hut
      rw [Function.update_self] at hx
      cases hx
    · rw [Function.update_of_ne hut] at hx
      refine ⟨hx, ?_⟩
      rintro rfl
      exact hut (eq_of_own hown (ho.hand u x hx).1)

end Owned


end NexusVM.Threaded
