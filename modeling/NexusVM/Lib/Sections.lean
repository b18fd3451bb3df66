import NexusVM.Lib.Fair

/-!
# Critical sections as single steps

Every location belongs to a lock, to a thread or to nobody. A critical section works on what belongs to
its lock and its thread, and may pass locations from one of the two to the other.

* `Serial`: a system whose steps are whole critical sections;
* `Reaches`, `Passes`, `Disciplined`: the discipline, stated of these steps only;
* `Sim`, `Sim.enter`, `Sim.leave`, `Sim.step`: the accesses simulate the sections;
* **`Disciplined.refines`**: every interleaving of accesses is one of critical sections, in the order in
  which the locks are taken;
* `Sim.done`, `Sim.free`: what is to be seen of the memory between the sections;
* **`Sim.no_race`**: no two threads get at the same location;
* **`Disciplined.fair_done`**: under a fair schedule every thread returns.
-/

namespace Threads

open Code

variable {Lock Loc Val T α A : Type}

/-! ## Discipline -/

/-- A system over states `A` whose steps are whole critical sections, with the memory and the code that
are left in a state. -/
structure Serial (Lock Loc Val T α A : Type) where
  mem : A → Loc → Val
  code : A → T → Code Lock Loc Val α
  next : T → A → A

/-- Which lock or which thread a location belongs to. -/
abbrev Owners (Lock Loc T : Type) : Type := Loc → Option (Lock ⊕ T)

/-- The location belongs to the lock or to the thread. -/
def Reaches (o : Owners Lock Loc T) (l : Lock) (t : T) (x : Loc) : Prop :=
  o x = some (.inl l) ∨ o x = some (.inr t)

/-- Locations only pass between the lock and the thread. -/
def Passes (l : Lock) (t : T) (o o' : Owners Lock Loc T) : Prop :=
  ∀ x, (Reaches o' l t x ↔ Reaches o l t x) ∧ (¬ Reaches o l t x → o' x = o x)

/-- The next step of every thread is a critical section on what it may reach, and keeps `inv`. -/
structure Disciplined [DecidableEq Loc] [DecidableEq T] (S : Serial Lock Loc Val T α A)
    (inv : A → Owners Lock Loc T → Prop) : Prop where
  atRest : ∀ {a o}, inv a o → ∀ t, (S.code a t).AtRest
  sect : ∀ {a o t l k}, inv a o → S.code a t = .lock l k → ∃ k' o',
    Runs (Reaches o l t) k (S.mem a) (.unlock l k') (S.mem (S.next t a)) ∧
    S.code (S.next t a) = Function.update (S.code a) t k' ∧ inv (S.next t a) o' ∧ Passes l t o o'

/-- Nothing has been done yet. -/
def Serial.start (S : Serial Lock Loc Val T α A) (a : A) : Config Lock Loc Val T α where
  mem := S.mem a
  taken _ := false
  code := S.code a

/-- The sections of some threads, one after the other. -/
def Serial.runs (S : Serial Lock Loc Val T α A) (order : List T) (a : A) : A :=
  order.foldl (fun a t => S.next t a) a

/-- The same system, with the threads whose sections it has made. -/
def Serial.traced (S : Serial Lock Loc Val T α A) : Serial Lock Loc Val T α (A × List T) where
  mem p := S.mem p.1
  code p := S.code p.1
  next t p := (S.next t p.1, p.2 ++ [t])

theorem Serial.runs_concat (S : Serial Lock Loc Val T α A) (order : List T) (t : T) (a : A) :
    S.runs (order ++ [t]) a = S.next t (S.runs order a) := by
  rw [Serial.runs, List.foldl_append]
  rfl

/-- The thread is about to access the location. -/
def Config.Accesses (c : Config Lock Loc Val T α) (t : T) (x : Loc) : Prop :=
  (∃ k, c.code t = .load x k) ∨ ∃ v k, c.code t = .store x v k

theorem Serial.traced_runs (S : Serial Lock Loc Val T α A) (order : List T) (a : A) :
    S.traced.runs order (a, []) = (S.runs order a, order) := by
  induction order using List.reverseRecOn with
  | nil => rfl
  | append_singleton order t ih =>
    rw [runs_concat, ih, runs_concat]
    rfl

/-- The thread takes a lock now. -/
def Config.takes (c : Config Lock Loc Val T α) (t : T) : Bool :=
  match c.code t with
  | .lock l _ => !c.taken l
  | _ => false

/-- The threads that take a lock, one after the other. -/
def Config.entries [DecidableEq T] [DecidableEq Loc] [DecidableEq Lock] (c : Config Lock Loc Val T α) :
    List T → List T
  | [] => []
  | t :: sched => if c.takes t then t :: (c.step t).entries sched else (c.step t).entries sched

theorem Config.entries_concat [DecidableEq T] [DecidableEq Loc] [DecidableEq Lock] (c : Config Lock Loc Val T α)
    (sched : List T) (t : T) :
    c.entries (sched ++ [t]) = if (c.run sched).takes t then c.entries sched ++ [t] else c.entries sched := by
  induction sched generalizing c with
  | nil => rfl
  | cons u sched ih =>
    rw [List.cons_append, entries, entries, ih]
    change _ = if ((c.step u).run sched).takes t then _ else _
    split_ifs <;> rfl

theorem core_of_atRest {k : Code Lock Loc Val α} (h : k.AtRest) : k.core = k := by
  cases k <;> first | rfl | exact h.elim

theorem Reaches.disjoint {o : Owners Lock Loc T} {l l' : Lock} {t u : T} {x : Loc} (hl : l ≠ l')
    (ht : t ≠ u) (h : Reaches o l t x) : ¬ Reaches o l' u x := by
  rintro (h' | h') <;> rcases h with h | h <;> rw [h] at h' <;> cases h'
  · exact hl rfl
  · exact ht rfl

theorem Passes.reaches_iff {o o' : Owners Lock Loc T} {l l' : Lock} {t u : T} (hp : Passes l t o o')
    (hl : l ≠ l') (ht : t ≠ u) (x : Loc) : Reaches o' l' u x ↔ Reaches o l' u x := by
  by_cases hx : Reaches o l t x
  · exact iff_of_false (((hp x).1.mpr hx).disjoint hl ht) (hx.disjoint hl ht)
  · unfold Reaches
    rw [(hp x).2 hx]

/-! ## Simulation -/

section Sim

variable [DecidableEq Loc] {S : Serial Lock Loc Val T α A}
  {inv : A → Owners Lock Loc T → Prop} {c : Config Lock Loc Val T α} {a : A}
  {o : Owners Lock Loc T} {held : T → Option Lock} {t u : T} {l : Lock}

/-- The threads that hold a lock are on the way to the state `a`, the others are there. -/
structure Sim (S : Serial Lock Loc Val T α A) (inv : A → Owners Lock Loc T → Prop)
    (c : Config Lock Loc Val T α) (a : A) (o : Owners Lock Loc T) (held : T → Option Lock) : Prop where
  inv : inv a o
  idle : ∀ t, held t = none → (c.code t).core = S.code a t
  busy : ∀ t l, held t = some l → ∃ m', Runs (Reaches o l t) (c.code t) c.mem (.unlock l (S.code a t)) m' ∧
    ∀ x, Reaches o l t x → m' x = S.mem a x
  excl : ∀ t u l, held t = some l → held u = some l → t = u
  taken : ∀ l, c.taken l = true ↔ ∃ t, held t = some l
  mem : ∀ x, (∀ t l, held t = some l → ¬ Reaches o l t x) → c.mem x = S.mem a x

theorem Sim.disjoint (hs : Sim S inv c a o held) {l' : Lock} (htu : t ≠ u) (ht : held t = some l)
    (hu : held u = some l') {x : Loc} (hx : Reaches o l t x) : ¬ Reaches o l' u x := by
  refine hx.disjoint ?_ htu
  rintro rfl
  exact htu (hs.excl t u l ht hu)

theorem Sim.free (hs : Sim S inv c a o held) (hl : c.taken l = false) {x : Loc} (hx : o x = some (.inl l)) :
    c.mem x = S.mem a x := by
  refine hs.mem x fun t l' ht hc => ?_
  rcases hc with hc | hc <;> rw [hx] at hc <;> cases hc
  have htaken := (hs.taken l).mpr ⟨t, ht⟩
  rw [hl] at htaken
  cases htaken

theorem Sim.idle_of_ret (hs : Sim S inv c a o held) {v : α} (h : c.code t = .ret v) : held t = none := by
  cases hheld : held t with
  | none => rfl
  | some l =>
    obtain ⟨m', hrun, -⟩ := hs.busy t l hheld
    rw [h] at hrun
    cases hrun

theorem Sim.ret (hs : Sim S inv c a o held) {v : α} (h : c.code t = .ret v) : S.code a t = .ret v := by
  rw [← hs.idle t (hs.idle_of_ret h), h]
  rfl

/-- **After all threads have returned** the memory is that of the sections. -/
theorem Sim.done (hs : Sim S inv c a o held) (h : c.Done) : c.mem = S.mem a := by
  funext x
  refine hs.mem x fun t l ht => ?_
  obtain ⟨v, hv⟩ := h t
  rw [hs.idle_of_ret hv] at ht
  cases ht

variable [DecidableEq T]

theorem Sim.start (hd : Disciplined S inv) (hi : inv a o) : Sim S inv (S.start a) a o fun _ => none where
  inv := hi
  idle t _ := core_of_atRest (hd.atRest hi t)
  busy _ _ h := by cases h
  excl _ _ _ h := by cases h
  taken l := by simp [Serial.start]
  mem _ _ := rfl

theorem Sim.rest (hd : Disciplined S inv) (hs : Sim S inv c a o held) (h : held t = none) :
    (c.code t).core.AtRest := by
  rw [hs.idle t h]
  exact hd.atRest hs.inv t

theorem Sim.reaches (hd : Disciplined S inv) (hs : Sim S inv c a o held) {x : Loc}
    (h : c.Accesses t x) : ∃ l, held t = some l ∧ Reaches o l t x := by
  cases hheld : held t with
  | none =>
    have hrest := hs.rest hd hheld
    obtain ⟨k, hk⟩ | ⟨v, k, hk⟩ := h <;> rw [hk] at hrest <;> exact hrest.elim
  | some l =>
    refine ⟨l, rfl, ?_⟩
    obtain ⟨m', hrun, -⟩ := hs.busy t l hheld
    obtain ⟨k, hk⟩ | ⟨v, k, hk⟩ := h
    · rw [hk] at hrun
      cases hrun with
      | load hx => exact hx
    · rw [hk] at hrun
      cases hrun with
      | store hx => exact hx

/-- **No data race**: two threads are never about to access the same location. -/
theorem Sim.no_race (hd : Disciplined S inv) (hs : Sim S inv c a o held) {x : Loc} (ht : c.Accesses t x)
    (hu : c.Accesses u x) : t = u := by
  by_contra htu
  obtain ⟨l, hl, hx⟩ := hs.reaches hd ht
  obtain ⟨l', hl', hx'⟩ := hs.reaches hd hu
  exact hs.disjoint htu hl hl' hx hx'

theorem Sim.inside (hs : Sim S inv c a o held) (ht : held t = some l) {m m' : Loc → Val}
    {k : Code Lock Loc Val α} (hrun : Runs (Reaches o l t) k m (.unlock l (S.code a t)) m')
    (hend : ∀ x, Reaches o l t x → m' x = S.mem a x) (hm : ∀ x, ¬ Reaches o l t x → m x = c.mem x) :
    Sim S inv { c.goto t k with mem := m } a o held where
  inv := hs.inv
  idle u hu := by
    have hut : u ≠ t := by
      rintro rfl
      rw [ht] at hu
      cases hu
    change ((c.goto t k).code u).core = _
    rw [Config.goto_code_of_ne _ hut]
    exact hs.idle u hu
  busy u l' hu := by
    change ∃ m', Runs _ ((c.goto t k).code u) m _ m' ∧ _
    by_cases hut : u = t
    · subst hut
      rw [ht] at hu
      cases hu
      rw [Config.goto_code_self]
      exact ⟨m', hrun, hend⟩
    · rw [Config.goto_code_of_ne _ hut]
      obtain ⟨mu, hru, hmu⟩ := hs.busy u l' hu
      obtain ⟨mu', hru', hsame⟩ := hru.transfer fun x hx => hm x (hs.disjoint hut hu ht hx)
      exact ⟨mu', hru', fun x hx => (hsame x hx).trans (hmu x hx)⟩
  excl := hs.excl
  taken := hs.taken
  mem x hx := (hm x (hx t l ht)).trans (hs.mem x hx)

theorem Sim.wait (hs : Sim S inv c a o held) (hidle : held t = none) {k : Code Lock Loc Val α}
    (hcore : k.core = (c.code t).core) : Sim S inv (c.goto t k) a o held where
  inv := hs.inv
  idle u hu := by
    by_cases hut : u = t
    · subst hut
      rw [Config.goto_code_self, hcore]
      exact hs.idle u hu
    · rw [Config.goto_code_of_ne _ hut]
      exact hs.idle u hu
  busy u l' hu := by
    have hut : u ≠ t := by
      rintro rfl
      rw [hidle] at hu
      cases hu
    rw [Config.goto_code_of_ne _ hut]
    exact hs.busy u l' hu
  excl := hs.excl
  taken := hs.taken
  mem := hs.mem

variable [DecidableEq Lock]

theorem Sim.leave (hs : Sim S inv c a o held) (ht : held t = some l)
    (hend : ∀ x, Reaches o l t x → c.mem x = S.mem a x) (hrest : (S.code a t).core = S.code a t) :
    Sim S inv { c.goto t (S.code a t) with taken := Function.update c.taken l false } a o
      (Function.update held t none) where
  inv := hs.inv
  idle u hu := by
    change ((c.goto t _).code u).core = _
    by_cases hut : u = t
    · subst hut
      rw [Config.goto_code_self, hrest]
    · rw [Function.update_of_ne hut] at hu
      rw [Config.goto_code_of_ne _ hut]
      exact hs.idle u hu
  busy u l' hu := by
    have hut : u ≠ t := by
      rintro rfl
      rw [Function.update_self] at hu
      cases hu
    rw [Function.update_of_ne hut] at hu
    change ∃ m', Runs _ ((c.goto t _).code u) c.mem _ m' ∧ _
    rw [Config.goto_code_of_ne _ hut]
    exact hs.busy u l' hu
  excl u v l' hu hv := by
    have hne : ∀ w, Function.update held t none w = some l' → w ≠ t ∧ held w = some l' := by
      intro w hw
      by_cases hwt : w = t
      · rw [hwt, Function.update_self] at hw
        cases hw
      · rw [Function.update_of_ne hwt] at hw
        exact ⟨hwt, hw⟩
    exact hs.excl u v l' (hne u hu).2 (hne v hv).2
  taken l' := by
    by_cases hl : l' = l
    · subst hl
      change Function.update c.taken l' false l' = true ↔ _
      rw [Function.update_self]
      refine iff_of_false (by simp) ?_
      rintro ⟨u, hu⟩
      by_cases hut : u = t
      · rw [hut, Function.update_self] at hu
        cases hu
      · rw [Function.update_of_ne hut] at hu
        exact hut (hs.excl u t l' hu ht)
    · change Function.update c.taken l false l' = true ↔ _
      rw [Function.update_of_ne hl, hs.taken]
      refine exists_congr fun u => ?_
      by_cases hut : u = t
      · rw [hut, Function.update_self, ht]
        exact iff_of_false (fun h => hl (Option.some.inj h).symm) (by simp)
      · rw [Function.update_of_ne hut]
  mem x hx := by
    by_cases hxt : Reaches o l t x
    · exact hend x hxt
    · refine hs.mem x fun u l' hu => ?_
      by_cases hut : u = t
      · subst hut
        rw [ht] at hu
        cases hu
        exact hxt
      · exact hx u l' (by rw [Function.update_of_ne hut]; exact hu)

/-- **Taking a lock** is where the critical section happens. -/
theorem Sim.enter (hd : Disciplined S inv) (hs : Sim S inv c a o held) {k : Code Lock Loc Val α}
    (hcode : c.code t = .lock l k) (hidle : held t = none) (hfree : c.taken l = false) :
    ∃ o', Sim S inv { c.goto t k with taken := Function.update c.taken l true } (S.next t a) o'
      (Function.update held t (some l)) := by
  have hat : S.code a t = .lock l k := by rw [← hs.idle t hidle, hcode]; rfl
  obtain ⟨k', o', hrun, hcode', hinv, hpass⟩ := hd.sect hs.inv hat
  have hnone : ∀ u, held u ≠ some l := fun u hu => by
    have htaken := (hs.taken l).mpr ⟨u, hu⟩
    rw [hfree] at htaken
    cases htaken
  have hother : ∀ u l', held u = some l' → l ≠ l' ∧ t ≠ u := by
    intro u l' hu
    constructor
    · rintro rfl
      exact hnone u hu
    · rintro rfl
      rw [hidle] at hu
      cases hu
  -- the memory is that of the sections where the new one works
  have hagree : ∀ x, Reaches o l t x → c.mem x = S.mem a x := fun x hx =>
    hs.mem x fun u l' hu => hx.disjoint (hother u l' hu).1 (hother u l' hu).2
  refine ⟨o', ⟨hinv, fun u hu => ?_, fun u l' hu => ?_, fun u v l' hu hv => ?_, fun l' => ?_, fun x hx => ?_⟩⟩
  · have hut : u ≠ t := by
      rintro rfl
      rw [Function.update_self] at hu
      cases hu
    rw [Function.update_of_ne hut] at hu
    change ((c.goto t k).code u).core = _
    rw [Config.goto_code_of_ne _ hut, hcode', Function.update_of_ne hut]
    exact hs.idle u hu
  · change ∃ m', Runs _ ((c.goto t k).code u) c.mem _ m' ∧ _
    by_cases hut : u = t
    · subst hut
      rw [Function.update_self] at hu
      cases hu
      rw [Config.goto_code_self, hcode', Function.update_self]
      obtain ⟨m', hrun', hsame⟩ := hrun.transfer hagree
      exact ⟨m', hrun'.mono fun x hx => (hpass x).1.mpr hx, fun x hx => hsame x ((hpass x).1.mp hx)⟩
    · rw [Function.update_of_ne hut] at hu
      obtain ⟨hl, ht⟩ := hother u l' hu
      rw [Config.goto_code_of_ne _ hut, hcode', Function.update_of_ne hut]
      obtain ⟨m', hru, hend⟩ := hs.busy u l' hu
      have hiff := hpass.reaches_iff hl ht
      refine ⟨m', hru.mono fun x hx => (hiff x).mpr hx, fun x hx => ?_⟩
      have hx' := (hiff x).mp hx
      rw [hend x hx', hrun.frame (hx'.disjoint hl.symm ht.symm)]
  · have hback : ∀ w, Function.update held t (some l) w = some l' → w = t ∧ l' = l ∨ held w = some l' := by
      intro w hw
      by_cases hwt : w = t
      · rw [hwt, Function.update_self] at hw
        exact .inl ⟨hwt, (Option.some.inj hw).symm⟩
      · rw [Function.update_of_ne hwt] at hw
        exact .inr hw
    rcases hback u hu with ⟨hut, hl⟩ | hu' <;> rcases hback v hv with ⟨hvt, hl'⟩ | hv'
    · exact hut.trans hvt.symm
    · exact absurd (hl ▸ hv') (hnone v)
    · exact absurd (hl' ▸ hu') (hnone u)
    · exact hs.excl u v l' hu' hv'
  · by_cases hl : l' = l
    · subst hl
      change Function.update c.taken l' true l' = true ↔ _
      rw [Function.update_self]
      exact iff_of_true rfl ⟨t, Function.update_self ..⟩
    · change Function.update c.taken l true l' = true ↔ _
      rw [Function.update_of_ne hl, hs.taken]
      refine exists_congr fun u => ?_
      by_cases hut : u = t
      · rw [hut, Function.update_self, hidle]
        exact iff_of_false (by simp) fun h => hl (Option.some.inj h).symm
      · rw [Function.update_of_ne hut]
  · have hxt : ¬ Reaches o l t x := fun hc =>
      hx t l (Function.update_self ..) ((hpass x).1.mpr hc)
    rw [hrun.frame hxt]
    refine hs.mem x fun u l' hu hc => ?_
    obtain ⟨hl, ht⟩ := hother u l' hu
    exact hx u l' (by rw [Function.update_of_ne ht.symm]; exact hu) ((hpass.reaches_iff hl ht x).mpr hc)

/-- **One access**: the state of the sections stays, but makes the step of a thread that takes a lock. -/
theorem Sim.step (hd : Disciplined S inv) (hs : Sim S inv c a o held) (t : T) :
    ∃ o' held', Sim S inv (c.step t) (if c.takes t then S.next t a else a) o' held' := by
  have hstay : c.takes t = false → ∀ o' held', Sim S inv (c.step t) a o' held' →
      ∃ o' held', Sim S inv (c.step t) (if c.takes t then S.next t a else a) o' held' := by
    intro htakes o' held' hs'
    rw [if_neg (by simp [htakes])]
    exact ⟨o', held', hs'⟩
  cases hheld : held t with
  | none =>
    have hrest := hs.rest hd hheld
    cases hcode : c.code t with
    | ret v =>
      refine hstay (by rw [Config.takes, hcode]) o held ?_
      rw [Config.step, hcode]
      exact hs
    | lock l k =>
      cases htaken : c.taken l with
      | true =>
        have hsame : Function.update c.taken l true = c.taken := by
          rw [← htaken]
          exact Function.update_eq_self l c.taken
        have hwait : Sim S inv (c.goto t (.spin l k)) a o held := hs.wait hheld (by rw [hcode]; rfl)
        refine hstay (by rw [Config.takes, hcode]; simp [htaken]) o held ?_
        rw [Config.step, hcode]
        dsimp only
        rw [if_pos htaken, hsame]
        exact hwait
      | false =>
        obtain ⟨o', hs'⟩ := hs.enter hd hcode hheld htaken
        refine ⟨o', Function.update held t (some l), ?_⟩
        rw [if_pos (by rw [Config.takes, hcode]; simp [htaken]), Config.step, hcode]
        dsimp only
        rw [if_neg (by simp [htaken])]
        exact hs'
    | spin l k =>
      refine hstay (by rw [Config.takes, hcode]) o held ?_
      rw [Config.step, hcode]
      dsimp only
      split_ifs
      · exact hs
      · exact hs.wait hheld (by rw [hcode]; rfl)
    | halt | unlock | load | store => rw [hcode] at hrest; exact hrest.elim
  | some l =>
    obtain ⟨m', hrun, hend⟩ := hs.busy t l hheld
    cases hcode : c.code t with
    | ret | halt | lock | spin => rw [hcode] at hrun; cases hrun
    | unlock l' k =>
      rw [hcode] at hrun
      cases hrun
      refine hstay (by rw [Config.takes, hcode]) o (Function.update held t none) ?_
      rw [Config.step, hcode]
      exact hs.leave hheld hend (core_of_atRest (hd.atRest hs.inv t))
    | load x k =>
      rw [hcode] at hrun
      cases hrun with
      | load hx hrun =>
        refine hstay (by rw [Config.takes, hcode]) o held ?_
        rw [Config.step, hcode]
        exact hs.inside hheld hrun hend fun _ _ => rfl
    | store x v k =>
      rw [hcode] at hrun
      cases hrun with
      | store hx hrun =>
        refine hstay (by rw [Config.takes, hcode]) o held ?_
        rw [Config.step, hcode]
        refine hs.inside hheld hrun hend fun y hy => Function.update_of_ne ?_ ..
        rintro rfl
        exact hy hx

/-- **Every interleaving of accesses is one of critical sections**, in the order in which the locks are
taken. -/
theorem Disciplined.refines (hd : Disciplined S inv) (hi : inv a o) (sched : List T) : ∃ o' held,
    Sim S inv ((S.start a).run sched) (S.runs ((S.start a).entries sched) a) o' held := by
  induction sched using List.reverseRecOn with
  | nil => exact ⟨o, _, Sim.start hd hi⟩
  | append_singleton sched t ih =>
    obtain ⟨o₁, held₁, hs⟩ := ih
    obtain ⟨o', held', hs'⟩ := hs.step hd t
    rw [Config.run_concat, Config.entries_concat]
    refine ⟨o', held', ?_⟩
    split_ifs at hs' ⊢
    · rwa [S.runs_concat]
    · exact hs'

end Sim

/-! ## Fair schedules -/

section Fair

variable [DecidableEq Loc] [DecidableEq Lock] [DecidableEq T] {S : Serial Lock Loc Val T α A}
  {inv : A → Owners Lock Loc T → Prop} {c : Config Lock Loc Val T α} {a : A} {o : Owners Lock Loc T}
  {held : T → Option Lock}

omit [DecidableEq Lock] in
theorem Sim.tidy (hd : Disciplined S inv) (hs : Sim S inv c a o held) : Tidy c where
  alive t hhalt := by
    cases hheld : held t with
    | none =>
      have hrest := hs.rest hd hheld
      rw [hhalt] at hrest
      exact hrest
    | some l =>
      obtain ⟨m', hrun, -⟩ := hs.busy t l hheld
      rw [hhalt] at hrun
      cases hrun
  taken l hl := by
    obtain ⟨t, ht⟩ := (hs.taken l).mp hl
    obtain ⟨m', hrun, -⟩ := hs.busy t l ht
    refine ⟨t, ?_⟩
    cases hcode : c.code t with
    | ret | halt | lock | spin => rw [hcode] at hrun; cases hrun
    | unlock | load | store => trivial

/-- **Under a fair schedule every thread of a disciplined system returns.** -/
theorem Disciplined.fair_done [Finite T] (hd : Disciplined S inv) (hi : inv a o) {σ : ℕ → T} (hσ : FairSchedule σ) :
    ∃ N, ∀ n, N ≤ n → ((S.start a).after σ n).Done := by
  refine Threads.fair_done hσ fun n => ?_
  obtain ⟨o', held, hs⟩ := hd.refines hi ((List.range n).map σ)
  exact hs.tidy hd

end Fair

end Threads
