import Mathlib.Data.Set.Finite.Lattice
import Mathlib.Order.Bounds.Basic
import NexusVM.Lib.Threads

/-!
# Fair schedules

* `FairSchedule`, `Config.after`: every thread gets its turn again and again;
* `Tidy`, **`fair_done`**: whoever holds a lock can go on, so every thread returns;
* `Code.Orderly`, **`orderly_done`**: threads that take one lock at a time and give it back.
-/

namespace Threads

open Code

variable {Lock Loc Val T α β : Type}

theorem not_child_self (k : Code Lock Loc Val α) : ¬ Child k k := child_wf.irrefl.irrefl k

/-- Every thread gets its turn again and again. -/
def FairSchedule (σ : ℕ → T) : Prop := ∀ t n, ∃ m, n ≤ m ∧ σ m = t

/-- The next step is neither a lock nor the end. -/
def Code.Inside : Code Lock Loc Val α → Prop
  | unlock _ _ | load _ _ | store _ _ _ => True
  | _ => False

/-- No thread is dead, and whoever holds a lock can go on. -/
structure Tidy (c : Config Lock Loc Val T α) : Prop where
  alive : ∀ t, c.code t ≠ .halt
  taken : ∀ l, c.taken l = true → ∃ t, (c.code t).Inside

section Fair

variable [DecidableEq Loc] [DecidableEq Lock] [DecidableEq T] {c : Config Lock Loc Val T α} {σ : ℕ → T}

/-- What has become of `c` after the first `n` steps of the schedule. -/
def Config.after (σ : ℕ → T) (c : Config Lock Loc Val T α) (n : ℕ) : Config Lock Loc Val T α :=
  c.run ((List.range n).map σ)

theorem Config.after_succ (σ : ℕ → T) (c : Config Lock Loc Val T α) (n : ℕ) :
    c.after σ (n + 1) = (c.after σ n).step (σ n) := by
  rw [after, List.range_succ, List.map_append, List.map_singleton, run_concat]
  rfl

theorem Config.exists_turn {σ : ℕ → T} (hσ : FairSchedule σ) (c : Config Lock Loc Val T α) (t : T) (n : ℕ) :
    ∃ m, n ≤ m ∧ σ m = t ∧ (c.after σ m).code t = (c.after σ n).code t := by
  classical
  have hex := hσ t n
  obtain ⟨hn, ht⟩ := Nat.find_spec hex
  refine ⟨Nat.find hex, hn, ht, ?_⟩
  have hstay : ∀ m, n ≤ m → m ≤ Nat.find hex → (c.after σ m).code t = (c.after σ n).code t := by
    intro m hm
    induction m, hm using Nat.le_induction with
    | base => exact fun _ => rfl
    | succ m hm ih =>
      intro hle
      have hne : t ≠ σ m := fun hc => Nat.find_min hex hle ⟨hm, hc.symm⟩
      rw [after_succ, step_code_of_ne hne]
      exact ih (by omega)
  exact hstay _ hn le_rfl

theorem Config.exists_const [Finite T] (σ : ℕ → T) (c : Config Lock Loc Val T α) :
    ∃ N, ∀ n, N ≤ n → ∀ t, ((c.after σ n).code t).core = ((c.after σ N).code t).core := by
  have hone : ∀ t, ∃ N, ∀ n, N ≤ n → ((c.after σ n).code t).core = ((c.after σ N).code t).core := by
    intro t
    refine eventually_const child_wf (fun n => ((c.after σ n).code t).core) fun n => ?_
    rw [after_succ]
    exact Config.step_core _ t _
  choose N hN using hone
  obtain ⟨M, hM⟩ := (Set.finite_range N).bddAbove
  refine ⟨M, fun n hn t => ?_⟩
  have ht : N t ≤ M := hM ⟨t, rfl⟩
  rw [hN t n (ht.trans hn), hN t M ht]

theorem Code.Inside.progress {t : T} (h : (c.code t).Inside) : Child ((c.step t).code t).core (c.code t).core := by
  unfold Config.step
  cases hcode : c.code t with
  | ret | halt | lock | spin => rw [hcode] at h; exact h.elim
  | unlock l k =>
    change Child ((c.goto t k).code t).core _
    rw [Config.goto_code_self]
    exact .unlock
  | load x k =>
    dsimp only
    rw [Config.goto_code_self]
    exact .load _
  | store x v k =>
    change Child ((c.goto t k).code t).core _
    rw [Config.goto_code_self]
    exact .store

/-- **Under a fair schedule every thread returns**, if whoever holds a lock can always go on. -/
theorem fair_done [Finite T] (hσ : FairSchedule σ) (htidy : ∀ n, Tidy (c.after σ n)) :
    ∃ N, ∀ n, N ≤ n → (c.after σ n).Done := by
  obtain ⟨N, hN⟩ := c.exists_const σ
  -- a step from here on is no progress
  have hstuck : ∀ n, N ≤ n → ∀ t, ¬ Child ((c.after σ (n + 1)).code t).core ((c.after σ n).code t).core := by
    intro n hn t hchild
    rw [hN (n + 1) (by omega), hN n hn] at hchild
    exact not_child_self _ hchild
  have hnext : ∀ n, c.after σ (n + 1) = (c.after σ n).step (σ n) := Config.after_succ σ _
  -- so nobody can go on, and all locks are free
  have hinside : ∀ n, N ≤ n → ∀ t, ¬ ((c.after σ n).code t).Inside := by
    intro n hn t hin
    obtain ⟨m, hm, hturn, hsame⟩ := c.exists_turn hσ t n
    refine hstuck m (hn.trans hm) t ?_
    rw [hnext, hturn]
    exact Code.Inside.progress (by rw [hsame]; exact hin)
  have hfree : ∀ n, N ≤ n → ∀ l, (c.after σ n).taken l = false := by
    intro n hn l
    rw [Bool.eq_false_iff]
    intro htaken
    obtain ⟨t, ht⟩ := (htidy n).taken l htaken
    exact hinside n hn t ht
  -- and whoever tries to take a lock gets it
  have hnolock : ∀ n, N ≤ n → ∀ t l k, (c.after σ n).code t ≠ .lock l k := by
    intro n hn t l k hcode
    obtain ⟨m, hm, hturn, hsame⟩ := c.exists_turn hσ t n
    rw [hcode] at hsame
    refine hstuck m (hn.trans hm) t ?_
    rw [hnext, hturn, Config.step, hsame]
    change Child (((c.after σ m).goto t _).code t).core _
    rw [Config.goto_code_self, if_neg (by simp [hfree m (hn.trans hm)])]
    exact .lock
  refine ⟨N, fun n hn t => ?_⟩
  have hin := hinside n hn t
  cases hcode : (c.after σ n).code t with
  | ret v => exact ⟨v, rfl⟩
  | halt => exact absurd hcode ((htidy n).alive t)
  | lock l k => exact absurd hcode (hnolock n hn t l k)
  | spin l k =>
    obtain ⟨m, hm, hturn, hsame⟩ := c.exists_turn hσ t n
    rw [hcode] at hsame
    refine absurd ?_ (hnolock (m + 1) (by omega) t l k)
    rw [hnext, hturn, Config.step, hsame]
    dsimp only
    rw [if_neg (by simp [hfree m (hn.trans hm)]), Config.goto_code_self]
  | unlock | load | store => rw [hcode] at hin; exact absurd trivial hin

end Fair

/-! ## One lock at a time -/

/-- A thread that holds at most the lock `o` takes one lock at a time, and gives it back before it returns. -/
def Code.Orderly : Option Lock → Code Lock Loc Val α → Prop
  | o, ret _ => o = none
  | _, halt => False
  | o, lock l k => o = none ∧ k.Orderly (some l)
  | o, spin l k => o = none ∧ k.Orderly (some l)
  | o, unlock l k => o = some l ∧ k.Orderly none
  | o, load _ k => ∀ v, (k v).Orderly o
  | o, store _ _ k => k.Orderly o

section Orderly

variable {k : Code Lock Loc Val α} {o : Option Lock} {l : Lock} {c : Config Lock Loc Val T α}

theorem Code.Orderly.bind {f : α → Code Lock Loc Val β} (h : k.Orderly o) (hf : ∀ a, (f a).Orderly none) :
    (k >>= f).Orderly o := by
  induction k generalizing o with
  | ret a =>
    cases (h : o = none)
    exact hf a
  | halt => exact h.elim
  | lock l k ih | spin l k ih | unlock l k ih => exact ⟨h.1, ih h.2⟩
  | load x k ih => exact fun v => ih v (h v)
  | store x v k ih => exact ih h

theorem Code.Orderly.inside (h : k.Orderly (some l)) : k.Inside := by
  cases k with
  | ret => cases h
  | halt => exact h
  | lock | spin => cases h.1
  | unlock | load | store => trivial

/-- The threads are orderly, and every lock that is taken has a holder. -/
structure AllOrderly (c : Config Lock Loc Val T α) (held : T → Option Lock) : Prop where
  orderly : ∀ t, (c.code t).Orderly (held t)
  taken : ∀ l, c.taken l = true → ∃ t, held t = some l

theorem AllOrderly.tidy {held : T → Option Lock} (h : AllOrderly c held) : Tidy c where
  alive t hhalt := by
    have horderly := h.orderly t
    rw [hhalt] at horderly
    exact horderly
  taken l hl := by
    obtain ⟨t, ht⟩ := h.taken l hl
    have horderly := h.orderly t
    rw [ht] at horderly
    exact ⟨t, horderly.inside⟩

variable [DecidableEq T] {held : T → Option Lock} {t : T}

theorem AllOrderly.goto (h : AllOrderly c held) {m : Loc → Val} {taken : Lock → Bool} (hk : k.Orderly o)
    (htaken : ∀ l, taken l = true → o = some l ∨ ∃ u, u ≠ t ∧ held u = some l) :
    AllOrderly { c.goto t k with mem := m, taken := taken } (Function.update held t o) where
  orderly u := by
    change ((c.goto t k).code u).Orderly _
    by_cases hut : u = t
    · subst hut
      rwa [Config.goto_code_self, Function.update_self]
    · rw [Config.goto_code_of_ne _ hut, Function.update_of_ne hut]
      exact h.orderly u
  taken l hl := by
    obtain ho | ⟨u, hut, hu⟩ := htaken l hl
    · exact ⟨t, by rw [Function.update_self, ho]⟩
    · exact ⟨u, by rw [Function.update_of_ne hut, hu]⟩

variable [DecidableEq Lock] [DecidableEq Loc]

theorem AllOrderly.step (h : AllOrderly c held) (t : T) : ∃ held', AllOrderly (c.step t) held' := by
  have hmine := h.orderly t
  -- the other locks stay with their holders
  have hsame : ∀ l, c.taken l = true → held t = some l ∨ ∃ u, u ≠ t ∧ held u = some l := by
    intro l hl
    obtain ⟨u, hu⟩ := h.taken l hl
    by_cases hut : u = t
    · exact .inl (hut ▸ hu)
    · exact .inr ⟨u, hut, hu⟩
  unfold Config.step
  cases hcode : c.code t with
  | ret | halt => exact ⟨held, h⟩
  | lock l k =>
    rw [hcode] at hmine
    obtain ⟨hnone, hk⟩ := hmine
    rw [hnone] at hsame
    dsimp only
    split_ifs with htaken
    · refine ⟨_, h.goto (o := none) (k := .spin l k) ⟨rfl, hk⟩ fun l' hl' => ?_⟩
      rw [Function.update_apply] at hl'
      split_ifs at hl' with hll
      · exact hll ▸ hsame l htaken
      · exact hsame l' hl'
    · refine ⟨_, h.goto hk fun l' hl' => ?_⟩
      rw [Function.update_apply] at hl'
      split_ifs at hl' with hll
      · exact .inl (by rw [hll])
      · exact .inr ((hsame l' hl').resolve_left (by simp))
  | spin l k =>
    rw [hcode] at hmine
    dsimp only
    split_ifs
    · exact ⟨held, h⟩
    · exact ⟨_, h.goto (k := .lock l k) hmine hsame⟩
  | unlock l k =>
    rw [hcode] at hmine
    obtain ⟨hheld, hk⟩ := hmine
    rw [hheld] at hsame
    refine ⟨_, h.goto hk fun l' hl' => ?_⟩
    rw [Function.update_apply] at hl'
    split_ifs at hl' with hll
    exact .inr ((hsame l' hl').resolve_left fun hc => hll (Option.some.inj hc).symm)
  | load x k =>
    rw [hcode] at hmine
    exact ⟨_, h.goto (hmine _) hsame⟩
  | store x v k =>
    rw [hcode] at hmine
    exact ⟨_, h.goto (show k.Orderly (held t) from hmine) hsame⟩

/-- **Orderly threads return under every fair schedule**, whatever they do to the memory. -/
theorem orderly_done [Finite T] {σ : ℕ → T} (hσ : FairSchedule σ) (h : ∀ t, (c.code t).Orderly none)
    (hfree : ∀ l, c.taken l = false) : ∃ N, ∀ n, N ≤ n → (c.after σ n).Done := by
  have hall : ∀ n, ∃ held, AllOrderly (c.after σ n) held := by
    intro n
    induction n with
    | zero =>
      refine ⟨fun _ => none, h, fun l hl => ?_⟩
      rw [show (c.after σ 0).taken l = false from hfree l] at hl
      cases hl
    | succ n ih =>
      obtain ⟨held, hn⟩ := ih
      rw [Config.after_succ]
      exact hn.step _
  refine fair_done hσ fun n => ?_
  obtain ⟨held, hn⟩ := hall n
  exact hn.tidy

end Orderly

end Threads
