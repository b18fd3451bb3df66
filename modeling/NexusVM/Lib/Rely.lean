import Mathlib.Data.Set.Insert
import Mathlib.Logic.Relation
import NexusVM.Lib.Threads

/-!
# Threads that interfere

Not every access has to be protected by a lock: it is enough that what a thread knows of the memory survives
what the other threads may do.

* `Guarantee`, `Rely`: what a thread may do while it holds some locks, and what the others may do meanwhile;
* `Code.Safe`: the code keeps its guarantee, and ends as it is to end, whatever the others do;
* `Safe.mono`, `Safe.bind`, `Safe.seq`, `Stable`, `Safe.ret`, …, `Safe.store`: its rules;
* **`Together.step`**, `Together.run`, **`together_run`**: safe threads are safe together, whatever the schedule.
-/

namespace Threads

open Code Relation

variable {Lock Loc Val T α β : Type}

/-- What a thread that holds some locks may do to the memory in one step. -/
abbrev Guarantee (Lock Loc Val T : Type) : Type := T → Set Lock → (Loc → Val) → (Loc → Val) → Prop

variable {G : Guarantee Lock Loc Val T} {t : T} {H : Set Lock} {l : Lock} {x : Loc} {v : Val}
  {m m' : Loc → Val} {P : (Loc → Val) → Prop}

/-- What the other threads may do to the memory while `t` holds the locks `H`. -/
inductive Rely (G : Guarantee Lock Loc Val T) (t : T) (H : Set Lock) (m m' : Loc → Val) : Prop
  | other {u : T} {H' : Set Lock} : u ≠ t → (∀ l ∈ H, l ∉ H') → G u H' m m' → Rely G t H m m'

/-- What is known of the memory stays true. -/
def Stable (G : Guarantee Lock Loc Val T) (t : T) (H : Set Lock) (P : (Loc → Val) → Prop) : Prop :=
  ∀ m m', P m → Rely G t H m m' → P m'

theorem Stable.many (hP : Stable G t H P) (hm : P m) (h : ReflTransGen (Rely G t H) m m') : P m' := by
  induction h with
  | refl => exact hm
  | tail _ hstep ih => exact hP _ _ ih hstep

theorem Stable.and {P' : (Loc → Val) → Prop} (hP : Stable G t H P) (hP' : Stable G t H P') :
    Stable G t H fun m => P m ∧ P' m :=
  fun m m' hm hr => ⟨hP m m' hm.1 hr, hP' m m' hm.2 hr⟩

variable [DecidableEq Loc]

/-- The code of `t`, which holds the locks `H`, keeps its guarantee under whatever the others do, and ends
with `Q`. -/
def Code.Safe (G : Guarantee Lock Loc Val T) (t : T) (Q : α → Set Lock → (Loc → Val) → Prop) :
    Code Lock Loc Val α → Set Lock → (Loc → Val) → Prop
  | ret a, H, m => ∀ m', ReflTransGen (Rely G t H) m m' → Q a H m'
  | halt, _, _ => True
  | lock l k, H, m => ∀ m', ReflTransGen (Rely G t H) m m' → k.Safe G t Q (insert l H) m'
  | spin l k, H, m => ∀ m', ReflTransGen (Rely G t H) m m' → k.Safe G t Q (insert l H) m'
  | unlock l k, H, m => l ∈ H ∧ ∀ m', ReflTransGen (Rely G t H) m m' → k.Safe G t Q (H \ {l}) m'
  | load x k, H, m => ∀ m', ReflTransGen (Rely G t H) m m' → (k (m' x)).Safe G t Q H m'
  | store x v k, H, m => ∀ m', ReflTransGen (Rely G t H) m m' →
      G t H m' (Function.update m' x v) ∧ k.Safe G t Q H (Function.update m' x v)

section Rules

variable {Q : α → Set Lock → (Loc → Val) → Prop} {c k : Code Lock Loc Val α}

theorem Code.Safe.many (h : c.Safe G t Q H m) (hm : ReflTransGen (Rely G t H) m m') : c.Safe G t Q H m' := by
  cases c with
  | ret a => exact fun m'' h' => h m'' (hm.trans h')
  | halt => trivial
  | unlock l k => exact ⟨h.1, fun m'' h' => h.2 m'' (hm.trans h')⟩
  | lock l k | spin l k | load x k | store x v k => exact fun m'' h' => h m'' (hm.trans h')

theorem Code.Safe.mono {Q' : α → Set Lock → (Loc → Val) → Prop} (h : c.Safe G t Q H m)
    (hQ : ∀ a H m, Q a H m → Q' a H m) : c.Safe G t Q' H m := by
  induction c generalizing H m with
  | ret a => exact fun m' h' => hQ _ _ _ (h m' h')
  | halt => trivial
  | lock l k ih | spin l k ih => exact fun m' h' => ih (h m' h')
  | unlock l k ih => exact ⟨h.1, fun m' h' => ih (h.2 m' h')⟩
  | load x k ih => exact fun m' h' => ih _ (h m' h')
  | store x v k ih => exact fun m' h' => ⟨(h m' h').1, ih (h m' h').2⟩

theorem Code.Safe.bind {Q : β → Set Lock → (Loc → Val) → Prop} {f : α → Code Lock Loc Val β}
    (h : c.Safe G t (fun a H m => (f a).Safe G t Q H m) H m) : (c >>= f).Safe G t Q H m := by
  induction c generalizing H m with
  | ret a => exact h m .refl
  | halt => trivial
  | lock l k ih | spin l k ih => exact fun m' h' => ih (h m' h')
  | unlock l k ih => exact ⟨h.1, fun m' h' => ih (h.2 m' h')⟩
  | load x k ih => exact fun m' h' => ih _ (h m' h')
  | store x v k ih => exact fun m' h' => ⟨(h m' h').1, ih (h m' h').2⟩

theorem Code.Safe.seq {Q : β → Set Lock → (Loc → Val) → Prop} {f : α → Code Lock Loc Val β}
    (h : c.Safe G t (fun _ H' m => H' = H ∧ P m) H m) (hf : ∀ a m, P m → (f a).Safe G t Q H m) :
    (c >>= f).Safe G t Q H m := by
  refine (h.mono fun a H' m' hm' => ?_).bind
  rw [hm'.1]
  exact hf a m' hm'.2

theorem Code.Safe.ret {a : α} (hP : Stable G t H P) (hm : P m) (h : ∀ m, P m → Q a H m) :
    (Code.ret a).Safe G t Q H m :=
  fun m' h' => h m' (hP.many hm h')

theorem Code.Safe.lock (hP : Stable G t H P) (hm : P m) (h : ∀ m, P m → k.Safe G t Q (insert l H) m) :
    (Code.lock l k).Safe G t Q H m :=
  fun m' h' => h m' (hP.many hm h')

theorem Code.Safe.unlock (hP : Stable G t H P) (hm : P m) (hl : l ∈ H)
    (h : ∀ m, P m → k.Safe G t Q (H \ {l}) m) : (Code.unlock l k).Safe G t Q H m :=
  ⟨hl, fun m' h' => h m' (hP.many hm h')⟩

theorem Code.Safe.load {k : Val → Code Lock Loc Val α} (hP : Stable G t H P) (hm : P m)
    (h : ∀ m, P m → (k (m x)).Safe G t Q H m) : (Code.load x k).Safe G t Q H m :=
  fun m' h' => h m' (hP.many hm h')

theorem Code.Safe.store (hP : Stable G t H P) (hm : P m)
    (h : ∀ m, P m → G t H m (Function.update m x v) ∧ k.Safe G t Q H (Function.update m x v)) :
    (Code.store x v k).Safe G t Q H m :=
  fun m' h' => h m' (hP.many hm h')

end Rules

/-! ## Together -/

variable {Q : T → α → Set Lock → (Loc → Val) → Prop} {c : Config Lock Loc Val T α} {held : T → Set Lock}

/-- Every thread is safe with the locks that it holds, and no lock has two holders. -/
structure Together (G : Guarantee Lock Loc Val T) (Q : T → α → Set Lock → (Loc → Val) → Prop)
    (c : Config Lock Loc Val T α) (held : T → Set Lock) : Prop where
  safe : ∀ t, (c.code t).Safe G t (Q t) (held t) c.mem
  excl : ∀ t u l, l ∈ held t → l ∈ held u → t = u
  taken : ∀ t, ∀ l ∈ held t, c.taken l = true

theorem Together.ret (h : Together G Q c held) {a : α} (ht : c.code t = .ret a) : Q t a (held t) c.mem := by
  have hsafe := h.safe t
  rw [ht] at hsafe
  exact hsafe _ .refl

theorem Together.others (h : Together G Q c held) {u : T} (hu : u ≠ t)
    (hm : m = c.mem ∨ G t (held t) c.mem m) : (c.code u).Safe G u (Q u) (held u) m := by
  rcases hm with rfl | hm
  · exact h.safe u
  · exact (h.safe u).many (.single (.other hu.symm (fun l hl hl' => hu (h.excl u t l hl hl')) hm))

variable [DecidableEq T]

theorem Together.goto (h : Together G Q c held) {k : Code Lock Loc Val α} {H : Set Lock} {b : Lock → Bool}
    (hm : m = c.mem ∨ G t (held t) c.mem m) (hk : k.Safe G t (Q t) H m)
    (hexcl : ∀ u l, u ≠ t → l ∈ H → l ∉ held u) (htaken : ∀ l ∈ H, b l = true)
    (hothers : ∀ u, u ≠ t → ∀ l ∈ held u, b l = true) :
    Together G Q { c.goto t k with mem := m, taken := b } (Function.update held t H) where
  safe u := by
    change ((c.goto t k).code u).Safe G u (Q u) _ m
    by_cases hut : u = t
    · subst hut
      rwa [Config.goto_code_self, Function.update_self]
    · rw [Config.goto_code_of_ne _ hut, Function.update_of_ne hut]
      exact h.others hut hm
  excl u w l hu hw := by
    by_cases hut : u = t <;> by_cases hwt : w = t
    · rw [hut, hwt]
    · rw [hut, Function.update_self] at hu
      rw [Function.update_of_ne hwt] at hw
      exact absurd hw (hexcl w l hwt hu)
    · rw [hwt, Function.update_self] at hw
      rw [Function.update_of_ne hut] at hu
      exact absurd hu (hexcl u l hut hw)
    · rw [Function.update_of_ne hut] at hu
      rw [Function.update_of_ne hwt] at hw
      exact h.excl u w l hu hw
  taken u l hu := by
    by_cases hut : u = t
    · rw [hut, Function.update_self] at hu
      exact htaken l hu
    · rw [Function.update_of_ne hut] at hu
      exact hothers u hut l hu

theorem Together.goOn (h : Together G Q c held) {k : Code Lock Loc Val α}
    (hm : m = c.mem ∨ G t (held t) c.mem m) (hk : k.Safe G t (Q t) (held t) m) :
    Together G Q { c.goto t k with mem := m } held := by
  have hgo := h.goto (b := c.taken) hm hk (fun u l hu hl hl' => hu (h.excl u t l hl' hl)) (h.taken t)
    fun u _ => h.taken u
  rwa [Function.update_eq_self] at hgo

variable [DecidableEq Lock]

/-- **A step of any thread leaves all of them safe.** -/
theorem Together.step (h : Together G Q c held) (t : T) : ∃ held', Together G Q (c.step t) held' := by
  have hsafe := h.safe t
  have hmine : ∀ u l, u ≠ t → l ∈ held t → l ∉ held u := fun u l hu hl hl' => hu (h.excl u t l hl' hl)
  unfold Config.step
  cases hcode : c.code t with
  | ret a | halt => exact ⟨held, h⟩
  | lock l k =>
    rw [hcode] at hsafe
    dsimp only
    cases htaken : c.taken l with
    | true =>
      have hsame : Function.update c.taken l true = c.taken := by
        rw [← htaken]
        exact Function.update_eq_self l c.taken
      have hspin : Together G Q (c.goto t (.spin l k)) held := h.goOn (.inl rfl) hsafe
      rw [if_pos rfl, hsame]
      exact ⟨held, hspin⟩
    | false =>
      rw [if_neg Bool.false_ne_true]
      refine ⟨_, h.goto (.inl rfl) (hsafe _ .refl) (fun u l' hu hl' hl'' => ?_) (fun l' hl' => ?_)
        fun u hu l' hl' => ?_⟩
      · rcases hl' with rfl | hl'
        · rw [h.taken u _ hl''] at htaken
          cases htaken
        · exact hmine u l' hu hl' hl''
      · rcases hl' with rfl | hl'
        · exact Function.update_self ..
        · rw [Function.update_apply, h.taken t l' hl', ite_self]
      · rw [Function.update_apply, h.taken u l' hl', ite_self]
  | spin l k =>
    rw [hcode] at hsafe
    dsimp only
    split_ifs
    · exact ⟨held, h⟩
    · exact ⟨held, h.goOn (k := .lock l k) (.inl rfl) hsafe⟩
  | unlock l k =>
    rw [hcode] at hsafe
    refine ⟨_, h.goto (.inl rfl) (hsafe.2 _ .refl) (fun u l' hu hl' => hmine u l' hu hl'.1) (fun l' hl' => ?_)
      fun u hu l' hl' => ?_⟩
    · rw [Function.update_of_ne hl'.2]
      exact h.taken t l' hl'.1
    · rw [Function.update_of_ne]
      · exact h.taken u l' hl'
      · rintro rfl
        exact hmine u l' hu hsafe.1 hl'
  | load x k =>
    rw [hcode] at hsafe
    exact ⟨held, h.goOn (.inl rfl) (hsafe _ .refl)⟩
  | store x v k =>
    rw [hcode] at hsafe
    exact ⟨held, h.goOn (.inr (hsafe _ .refl).1) (hsafe _ .refl).2⟩

theorem Together.mem (h : Together G Q c held) (t : T) :
    (c.step t).mem = c.mem ∨ G t (held t) c.mem (c.step t).mem := by
  have hsafe := h.safe t
  unfold Config.step
  cases hcode : c.code t with
  | ret a | halt | lock l k | unlock l k | load x k => exact .inl rfl
  | spin l k =>
    dsimp only
    split_ifs <;> exact .inl rfl
  | store x v k =>
    rw [hcode] at hsafe
    exact .inr (hsafe _ .refl).1

/-- **Safe threads stay safe**, and keep what no step changes. -/
theorem Together.run {I : (Loc → Val) → Prop} (hI : ∀ u H m m', I m → G u H m m' → I m')
    (h : Together G Q c held) (hm : I c.mem) (sched : List T) :
    ∃ held', Together G Q (c.run sched) held' ∧ I (c.run sched).mem := by
  induction sched generalizing c held with
  | nil => exact ⟨held, h, hm⟩
  | cons t sched ih =>
    obtain ⟨held', h'⟩ := h.step t
    refine ih h' ?_
    rcases h.mem t with hsame | hg
    · rwa [hsame]
    · exact hI _ _ _ _ hm hg

/-- **Safe threads are safe together**, under every schedule, and keep what no step changes. -/
theorem together_run {I : (Loc → Val) → Prop} (hI : ∀ u H m m', I m → G u H m m' → I m') (hstart : I c.mem)
    (h : ∀ t, (c.code t).Safe G t (Q t) ∅ c.mem) (sched : List T) :
    ∃ held, Together G Q (c.run sched) held ∧ I (c.run sched).mem := by
  have hnone : ∀ l : Lock, l ∉ (∅ : Set Lock) := fun l => Set.notMem_empty l
  have hfree : Together G Q c fun _ => ∅ :=
    ⟨h, fun _ _ l hl => absurd hl (hnone l), fun _ l hl => absurd hl (hnone l)⟩
  exact hfree.run hI hstart sched

end Threads
