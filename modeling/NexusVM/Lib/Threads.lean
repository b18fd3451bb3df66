import Mathlib.Data.List.Sublists
import Mathlib.Logic.Function.Basic
import Mathlib.Order.WellFounded

/-!
# Threads over a shared memory with spin locks

A step is one access of one thread: a load, a store, a test-and-set of a lock or its release. The order
of the threads is arbitrary.

* `Code`, `Code.bind`: what a thread is still to do;
* `Config`, `Config.step`, `Config.run`: the steps, and a schedule of them;
* `Config.andThen`, **`run_andThen`**: a run does not depend on what a thread has to do later;
* `Code.Runs`: accesses to some locations only, of one thread alone;
* `Runs.trans`, `Runs.bind`, `Runs.frame`, **`Runs.transfer`**: such runs compose, change nothing else and
  depend on nothing else;
* `Moves`, **`Runs.moves`**, `Runs.locked`: what a thread alone makes of a configuration;
* `Code.core`, `Code.Child`, **`child_wf`**, `Config.step_core`: every step that does not wait is progress.
-/

namespace Threads

variable {Lock Loc Val T α β : Type}

/-! ## Code -/

/-- What a thread is still to do before it returns. A thread that has found a lock taken `spin`s. -/
inductive Code (Lock Loc Val α : Type)
  | ret (a : α)
  | halt
  | lock (l : Lock) (k : Code Lock Loc Val α)
  | spin (l : Lock) (k : Code Lock Loc Val α)
  | unlock (l : Lock) (k : Code Lock Loc Val α)
  | load (x : Loc) (k : Val → Code Lock Loc Val α)
  | store (x : Loc) (v : Val) (k : Code Lock Loc Val α)

namespace Code

/-- One piece of code after the other. -/
def bind : Code Lock Loc Val α → (α → Code Lock Loc Val β) → Code Lock Loc Val β
  | ret a, f => f a
  | halt, _ => halt
  | lock l k, f => lock l (k.bind f)
  | spin l k, f => spin l (k.bind f)
  | unlock l k, f => unlock l (k.bind f)
  | load x k, f => load x fun v => (k v).bind f
  | store x v k, f => store x v (k.bind f)

instance : Monad (Code Lock Loc Val) where
  pure := ret
  bind := bind

@[simp] theorem pure_eq (a : α) : (pure a : Code Lock Loc Val α) = ret a := rfl

@[simp] theorem ret_bind (a : α) (f : α → Code Lock Loc Val β) : (ret a >>= f) = f a := rfl

@[simp] theorem halt_bind (f : α → Code Lock Loc Val β) : (halt >>= f) = (halt : Code Lock Loc Val β) := rfl

@[simp] theorem spin_bind (l : Lock) (k : Code Lock Loc Val α) (f : α → Code Lock Loc Val β) :
    (spin l k >>= f) = spin l (k >>= f) := rfl

@[simp] theorem lock_bind (l : Lock) (k : Code Lock Loc Val α) (f : α → Code Lock Loc Val β) :
    (lock l k >>= f) = lock l (k >>= f) := rfl

@[simp] theorem unlock_bind (l : Lock) (k : Code Lock Loc Val α) (f : α → Code Lock Loc Val β) :
    (unlock l k >>= f) = unlock l (k >>= f) := rfl

@[simp] theorem load_bind (x : Loc) (k : Val → Code Lock Loc Val α) (f : α → Code Lock Loc Val β) :
    (load x k >>= f) = load x fun v => k v >>= f := rfl

@[simp] theorem store_bind (x : Loc) (v : Val) (k : Code Lock Loc Val α) (f : α → Code Lock Loc Val β) :
    (store x v k >>= f) = store x v (k >>= f) := rfl

theorem bind_assoc {γ : Type} (c : Code Lock Loc Val α) (f : α → Code Lock Loc Val β)
    (g : β → Code Lock Loc Val γ) : (c >>= f) >>= g = c >>= fun a => f a >>= g := by
  induction c with
  | ret | halt => rfl
  | lock l k ih | spin l k ih | unlock l k ih | store l v k ih =>
    first
    | exact congrArg (lock l) ih
    | exact congrArg (spin l) ih
    | exact congrArg (unlock l) ih
    | exact congrArg (store l v) ih
  | load x k ih => exact congrArg (load x) (funext ih)

/-- What a thread has returned. -/
def result : Code Lock Loc Val α → Option α
  | ret a => some a
  | _ => none

theorem result_eq_some {c : Code Lock Loc Val α} {a : α} : c.result = some a ↔ c = ret a := by
  cases c <;> simp [result]

/-- Nothing is left to do, or a lock is to be taken. -/
def AtRest : Code Lock Loc Val α → Prop
  | ret _ | lock _ _ => True
  | _ => False

/-- The lock that a waiting thread is still to take. -/
def core : Code Lock Loc Val α → Code Lock Loc Val α
  | spin l k => lock l k
  | c => c

@[simp] theorem core_core (c : Code Lock Loc Val α) : c.core.core = c.core := by
  cases c <;> rfl

end Code

open Code

/-! ## Runs without interruption -/

section Runs

variable [DecidableEq Loc] {D : Loc → Prop} {c c' c'' : Code Lock Loc Val α} {m m' m'' m₁ : Loc → Val}

/-- The code `c` becomes `c'` by accesses to locations in `D`. -/
inductive Runs (D : Loc → Prop) : Code Lock Loc Val α → (Loc → Val) → Code Lock Loc Val α → (Loc → Val) → Prop
  | refl (c : Code Lock Loc Val α) (m : Loc → Val) : Runs D c m c m
  | load {x : Loc} {k : Val → Code Lock Loc Val α} {c' : Code Lock Loc Val α} {m m' : Loc → Val} :
      D x → Runs D (k (m x)) m c' m' → Runs D (.load x k) m c' m'
  | store {x : Loc} {v : Val} {k c' : Code Lock Loc Val α} {m m' : Loc → Val} :
      D x → Runs D k (Function.update m x v) c' m' → Runs D (.store x v k) m c' m'

theorem Runs.trans (h : Runs D c m c' m') (h' : Runs D c' m' c'' m'') : Runs D c m c'' m'' := by
  induction h with
  | refl => exact h'
  | load hx _ ih => exact .load hx (ih h')
  | store hx _ ih => exact .store hx (ih h')

theorem Runs.bind (h : Runs D c m c' m') (f : α → Code Lock Loc Val β) :
    Runs D (c >>= f) m (c' >>= f) m' := by
  induction h with
  | refl => exact .refl _ _
  | load hx _ ih => exact .load hx ih
  | store hx _ ih => exact .store hx ih

theorem Runs.seq {a : α} {f : α → Code Lock Loc Val β} {d : Code Lock Loc Val β}
    (h : Runs D c m (.ret a) m') (h' : Runs D (f a) m' d m'') : Runs D (c >>= f) m d m'' :=
  (h.bind f).trans h'

theorem Runs.mono {E : Loc → Prop} (h : Runs D c m c' m') (hE : ∀ x, D x → E x) : Runs E c m c' m' := by
  induction h with
  | refl => exact .refl _ _
  | load hx _ ih => exact .load (hE _ hx) ih
  | store hx _ ih => exact .store (hE _ hx) ih

/-- **Frame rule.** The other locations keep their values. -/
theorem Runs.frame (h : Runs D c m c' m') {x : Loc} (hx : ¬ D x) : m' x = m x := by
  induction h with
  | refl => rfl
  | load _ _ ih => exact ih
  | store hy _ ih =>
    rw [ih, Function.update_of_ne]
    rintro rfl
    exact hx hy

/-- **A run depends on its locations only**: it is one of every memory that agrees there. -/
theorem Runs.transfer (h : Runs D c m c' m') (hm : ∀ x, D x → m₁ x = m x) :
    ∃ m₁', Runs D c m₁ c' m₁' ∧ ∀ x, D x → m₁' x = m' x := by
  induction h generalizing m₁ with
  | refl c m => exact ⟨m₁, .refl c m₁, hm⟩
  | @load x k c' m m' hx _ ih =>
    obtain ⟨m₁', hrun, hsame⟩ := ih hm
    refine ⟨m₁', .load hx ?_, hsame⟩
    rwa [hm x hx]
  | @store x v k c' m m' hx _ ih =>
    have hstore : ∀ y, D y → Function.update m₁ x v y = Function.update m x v y := by
      intro y hy
      by_cases hyx : y = x
      · rw [hyx, Function.update_self, Function.update_self]
      · rw [Function.update_of_ne hyx, Function.update_of_ne hyx, hm y hy]
    obtain ⟨m₁', hrun, hsame⟩ := ih hstore
    exact ⟨m₁', .store hx hrun, hsame⟩

end Runs

/-! ## Interleaving -/

/-- The memory, the words of the locks, and what each thread is still to do. -/
structure Config (Lock Loc Val T α : Type) where
  mem : Loc → Val
  taken : Lock → Bool
  code : T → Code Lock Loc Val α

namespace Config

variable [DecidableEq T] {c : Config Lock Loc Val T α} {t u : T}

/-- The thread `t` is left with the code `k`. -/
def goto (c : Config Lock Loc Val T α) (t : T) (k : Code Lock Loc Val α) : Config Lock Loc Val T α :=
  { c with code := Function.update c.code t k }

@[simp] theorem goto_mem (k : Code Lock Loc Val α) : (c.goto t k).mem = c.mem := rfl
@[simp] theorem goto_taken (k : Code Lock Loc Val α) : (c.goto t k).taken = c.taken := rfl

@[simp] theorem goto_code_self (k : Code Lock Loc Val α) : (c.goto t k).code t = k :=
  Function.update_self ..

theorem goto_code_of_ne (k : Code Lock Loc Val α) (h : u ≠ t) : (c.goto t k).code u = c.code u :=
  Function.update_of_ne h ..

variable [DecidableEq Loc] [DecidableEq Lock]

/-- The next access of the thread `t`. A lock is taken by a test-and-set; a thread that fails reads the
lock until it is free, and tries again. -/
def step (t : T) (c : Config Lock Loc Val T α) : Config Lock Loc Val T α :=
  match c.code t with
  | .ret _ | .halt => c
  | .lock l k => { c.goto t (if c.taken l then .spin l k else k) with
      taken := Function.update c.taken l true }
  | .spin l k => if c.taken l then c else c.goto t (.lock l k)
  | .unlock l k => { c.goto t k with taken := Function.update c.taken l false }
  | .load x k => c.goto t (k (c.mem x))
  | .store x v k => { c.goto t k with mem := Function.update c.mem x v }

/-- A schedule: the threads in the order of their steps. -/
def run (sched : List T) (c : Config Lock Loc Val T α) : Config Lock Loc Val T α :=
  sched.foldl (fun c t => c.step t) c

@[simp] theorem run_nil : c.run [] = c := rfl

theorem run_concat (sched : List T) (t : T) : c.run (sched ++ [t]) = (c.run sched).step t := by
  rw [run, List.foldl_append]
  rfl

theorem step_code_of_ne (h : u ≠ t) : (c.step t).code u = c.code u := by
  unfold step
  split
  · rfl
  · rfl
  · exact goto_code_of_ne _ h
  · split_ifs
    · rfl
    · exact goto_code_of_ne _ h
  · exact goto_code_of_ne _ h
  · exact goto_code_of_ne _ h
  · exact goto_code_of_ne _ h

/-- The thread `t` goes on with `f` when it has done what is before it. -/
def andThen (c : Config Lock Loc Val T α) (t : T) (f : α → Code Lock Loc Val α) : Config Lock Loc Val T α :=
  c.goto t (c.code t >>= f)

/-- All threads have returned. -/
def Done (c : Config Lock Loc Val T α) : Prop := ∀ t, ∃ a, c.code t = .ret a

end Config

/-! ## More to do -/

section More

variable [DecidableEq T] [DecidableEq Loc] [DecidableEq Lock] {c : Config Lock Loc Val T α} {t u : T}
  {f : α → Code Lock Loc Val α} {k k' : Code Lock Loc Val α}

/-- **A step of any thread** does not depend on what `t` has to do later. -/
theorem Config.step_andThen (hret : ∀ a, c.code t ≠ .ret a) (u : T) :
    (c.andThen t f).step u = (c.step u).andThen t f := by
  have htaken : (c.andThen t f).taken = c.taken := rfl
  unfold Config.step
  by_cases hut : u = t
  · subst hut
    have hcode : (c.andThen u f).code u = c.code u >>= f := Config.goto_code_self ..
    rw [hcode, htaken]
    cases hk : c.code u with
    | ret a => exact absurd hk (hret a)
    | halt => simp [Config.andThen, Config.goto, hk]
    | lock l k => cases hl : c.taken l <;> simp [Config.andThen, Config.goto, hl]
    | spin l k => cases hl : c.taken l <;> simp [Config.andThen, Config.goto, hk, hl]
    | unlock l k | load x k | store x v k => simp [Config.andThen, Config.goto]
  · have hcode : (c.andThen t f).code u = c.code u := Config.goto_code_of_ne _ hut
    have htu : t ≠ u := fun h => hut h.symm
    rw [hcode, htaken]
    cases hk : c.code u with
    | ret a | halt => rfl
    | lock l k =>
      cases hl : c.taken l <;> simp [Config.andThen, Config.goto, hl, htu, Function.update_comm hut]
    | spin l k =>
      cases hl : c.taken l <;> simp [Config.andThen, Config.goto, hl, htu, Function.update_comm hut]
    | unlock l k | load x k | store x v k =>
      simp [Config.andThen, Config.goto, htu, Function.update_comm hut]

/-- **Until `t` has done what is before it**, a run does not depend on what it has to do later. -/
theorem Config.run_andThen {sched : List T} {a : α} (h : (c.run sched).code t = .ret a) :
    ∃ pre a, pre <+: sched ∧ (c.run pre).code t = .ret a ∧ (c.andThen t f).run pre = (c.run pre).andThen t f := by
  induction sched generalizing c with
  | nil => exact ⟨[], a, List.prefix_refl _, h, rfl⟩
  | cons u sched ih =>
    by_cases hret : ∃ a, c.code t = .ret a
    · obtain ⟨a, ha⟩ := hret
      exact ⟨[], a, List.nil_prefix, ha, rfl⟩
    · obtain ⟨pre, a, hpre, hdone, hrun⟩ := ih (c := c.step u) h
      refine ⟨u :: pre, a, List.cons_prefix_cons.mpr ⟨rfl, hpre⟩, hdone, ?_⟩
      change ((c.andThen t f).step u).run pre = _
      rw [Config.step_andThen (not_exists.mp hret)]
      exact hrun

end More

/-! ## One thread alone -/

section Alone

variable [DecidableEq T] [DecidableEq Loc] [DecidableEq Lock] {c c' c'' : Config Lock Loc Val T α} {t : T}
  {D : Loc → Prop} {k k' : Code Lock Loc Val α} {m' : Loc → Val} {l : Lock}

/-- Some steps of the thread `t` lead from `c` to `c'`, where it holds the same locks. -/
structure Moves (t : T) (c c' : Config Lock Loc Val T α) : Prop where
  leads : ∃ n, c.run (List.replicate n t) = c'
  taken : c'.taken = c.taken
  others : ∀ u, u ≠ t → c'.code u = c.code u

theorem Config.run_append (sched sched' : List T) : c.run (sched ++ sched') = (c.run sched).run sched' :=
  List.foldl_append ..

theorem Moves.trans (h : Moves t c c') (h' : Moves t c' c'') : Moves t c c'' := by
  obtain ⟨n, hn⟩ := h.leads
  obtain ⟨n', hn'⟩ := h'.leads
  refine ⟨⟨n + n', ?_⟩, h'.taken.trans h.taken, fun u hu => (h'.others u hu).trans (h.others u hu)⟩
  rw [List.replicate_add, Config.run_append, hn, hn']

theorem Moves.one (h : (c.step t).taken = c.taken) : Moves t c (c.step t) :=
  ⟨⟨1, rfl⟩, h, fun _ hu => Config.step_code_of_ne hu⟩

/-- **A run without interruption** is one of the thread alone. -/
theorem Runs.moves {m : Loc → Val} (h : Runs D k m k' m') (hcode : c.code t = k) (hm : c.mem = m) :
    ∃ c', Moves t c c' ∧ c'.code t = k' ∧ c'.mem = m' := by
  induction h generalizing c with
  | refl k m => exact ⟨c, ⟨⟨0, rfl⟩, rfl, fun _ _ => rfl⟩, hcode, hm⟩
  | @load x k k' m m' hx _ ih =>
    have hstep : c.step t = c.goto t (k (m x)) := by rw [Config.step, hcode, hm]
    obtain ⟨c', hmoves, hend⟩ := ih (c := c.step t) (by rw [hstep, Config.goto_code_self]) (by rw [hstep]; exact hm)
    exact ⟨c', (Moves.one (by rw [hstep]; rfl)).trans hmoves, hend⟩
  | @store x v k k' m m' hx _ ih =>
    have hstep : c.step t = { c.goto t k with mem := Function.update m x v } := by rw [Config.step, hcode, hm]
    obtain ⟨c', hmoves, hend⟩ := ih (c := c.step t) (by rw [hstep]; exact Config.goto_code_self k) (by rw [hstep])
    exact ⟨c', (Moves.one (by rw [hstep]; rfl)).trans hmoves, hend⟩

theorem Runs.locked (h : Runs D k c.mem (.unlock l k') m') (hcode : c.code t = .lock l k)
    (hfree : c.taken l = false) : ∃ c', Moves t c c' ∧ c'.code t = k' ∧ c'.mem = m' := by
  have hlock : c.step t = { c.goto t k with taken := Function.update c.taken l true } := by
    rw [Config.step, hcode]
    dsimp only
    rw [hfree, if_neg Bool.false_ne_true]
  obtain ⟨d, ⟨⟨n, hn⟩, htaken, hothers⟩, hd, hm⟩ := h.moves (c := c.step t)
    (by rw [hlock]; exact Config.goto_code_self k) (by rw [hlock]; rfl)
  have hunlock : d.step t = { d.goto t k' with taken := Function.update d.taken l false } := by rw [Config.step, hd]
  refine ⟨d.step t, ⟨⟨1 + (n + 1), ?_⟩, ?_, fun u hu => ?_⟩, ?_, ?_⟩
  · rw [List.replicate_add, List.replicate_add, Config.run_append, Config.run_append]
    change ((c.step t).run (List.replicate n t)).step t = _
    rw [hn]
  · rw [hunlock]
    change Function.update d.taken l false = c.taken
    rw [htaken, hlock]
    change Function.update (Function.update c.taken l true) l false = c.taken
    rw [Function.update_idem, ← hfree, Function.update_eq_self]
  · rw [Config.step_code_of_ne hu, hothers u hu, Config.step_code_of_ne hu]
  · rw [hunlock]
    exact Config.goto_code_self k'
  · rw [hunlock]
    exact hm

end Alone

/-! ## Progress -/

/-- What is left of some code after its first access. -/
inductive Code.Child : Code Lock Loc Val α → Code Lock Loc Val α → Prop
  | lock {l : Lock} {k : Code Lock Loc Val α} : Child k.core (.lock l k)
  | unlock {l : Lock} {k : Code Lock Loc Val α} : Child k.core (.unlock l k)
  | load {x : Loc} {k : Val → Code Lock Loc Val α} (v : Val) : Child (k v).core (.load x k)
  | store {x : Loc} {v : Val} {k : Code Lock Loc Val α} : Child k.core (.store x v k)

theorem acc_core (c : Code Lock Loc Val α) : Acc Child c.core := by
  induction c with
  | ret a => exact ⟨_, fun _ h => by cases h⟩
  | halt => exact ⟨_, fun _ h => by cases h⟩
  | lock l k ih => exact ⟨_, fun _ h => by cases h; exact ih⟩
  | spin l k ih => exact ⟨_, fun _ h => by cases h; exact ih⟩
  | unlock l k ih => exact ⟨_, fun _ h => by cases h; exact ih⟩
  | load x k ih => exact ⟨_, fun _ h => by cases h with | load v => exact ih v⟩
  | store x v k ih => exact ⟨_, fun _ h => by cases h; exact ih⟩

/-- **There is no endless progress.** -/
theorem child_wf : WellFounded (@Child Lock Loc Val α) :=
  ⟨fun c => ⟨c, fun d h => by
    cases h with
    | lock | unlock | store => exact acc_core _
    | load v => exact acc_core _⟩⟩

theorem eventually_const {γ : Type} {r : γ → γ → Prop} (hr : WellFounded r) (f : ℕ → γ)
    (hf : ∀ n, f (n + 1) = f n ∨ r (f (n + 1)) (f n)) : ∃ N, ∀ n, N ≤ n → f n = f N := by
  obtain ⟨_, ⟨N, rfl⟩, hmin⟩ := hr.has_min (Set.range f) ⟨f 0, 0, rfl⟩
  refine ⟨N, fun n hn => ?_⟩
  induction n, hn using Nat.le_induction with
  | base => rfl
  | succ n _ ih =>
    rcases hf n with hsame | hless
    · exact hsame.trans ih
    · exact absurd (ih ▸ hless) (hmin _ ⟨n + 1, rfl⟩)

/-- **Every step of a thread waits or is progress.** -/
theorem Config.step_core [DecidableEq T] [DecidableEq Loc] [DecidableEq Lock] (c : Config Lock Loc Val T α)
    (t u : T) : ((c.step u).code t).core = (c.code t).core ∨
      Child ((c.step u).code t).core (c.code t).core := by
  by_cases htu : t = u
  · subst htu
    unfold step
    split
    next a ha => exact .inl rfl
    next ha => exact .inl rfl
    next l k hcode =>
      rw [hcode]
      change ((c.goto t _).code t).core = _ ∨ Child ((c.goto t _).code t).core _
      rw [goto_code_self]
      split_ifs
      · exact .inl rfl
      · exact .inr .lock
    next l k hcode =>
      rw [hcode]
      split_ifs
      · exact .inl (by rw [hcode])
      · exact .inl (by rw [goto_code_self]; rfl)
    next l k hcode =>
      rw [hcode]
      change _ ∨ Child ((c.goto t _).code t).core _
      rw [goto_code_self]
      exact .inr .unlock
    next x k hcode =>
      rw [hcode, goto_code_self]
      exact .inr (.load _)
    next x v k hcode =>
      rw [hcode]
      change _ ∨ Child ((c.goto t _).code t).core _
      rw [goto_code_self]
      exact .inr .store
  · rw [step_code_of_ne htu]
    exact .inl rfl

end Threads
