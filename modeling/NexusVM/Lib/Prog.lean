import Mathlib.Data.List.Basic
import Mathlib.Data.List.Induction
import Mathlib.Logic.Unique

/-!
# Programs over a state, and their weakest preconditions

A program over the state `σ` is a state transformer that may have no result at all: `none` stands
for undefined behaviour and for a loop that never ends.

* `Prog`, `Prog.wp`, `Prog.wlp`: programs, and the predicate transformers of total and of partial
  correctness;
* `wp_bind`, `wp_pure`, `wp_get`, `wp_modify`, `wp_zoom` and the same for `wlp`: one rule a
  construct;
* `wp_mono`, `wp_run`, `wp.wlp`, `run_eq_none_iff`, `decidableWlp`: consequence, and what a run of a verified
  program satisfies;
* **`wp_forEach`**, **`wlp_forEach`**: a `for` loop over a list keeps an invariant indexed by the
  part already done;
* `forEach_indices`: a loop over a table by index is one over its first entries;
* `ReadsOnly`: programs that change nothing, and the part of the state they depend on;
* `Keeps`, `Preserves`: programs that return and keep a condition, and those that keep it if they return;
* `forall_prefix_iff`, `runOps`, `Along`, `Along.imp`, `decidableAlong`, `wp_runOps`, **`wlp_runOps`**: runs of
  operations, and the induction over them.
-/

/-- A program over the state `σ`; `none` is undefined behaviour or divergence. -/
abbrev Prog (σ α : Type) : Type := StateT σ Option α

namespace Prog

variable {σ τ α β ι : Type}

/-- `x` started in `s` has a result, and it satisfies `Q`. -/
def wp (x : Prog σ α) (Q : α → σ → Prop) (s : σ) : Prop :=
  ∃ a s', x.run s = some (a, s') ∧ Q a s'

/-! ## The rules -/

section Rules

variable {Q : α → σ → Prop} {s : σ}

@[simp] theorem wp_pure (a : α) : wp (pure a) Q s ↔ Q a s := by
  simp [wp]

@[simp] theorem wp_bind (x : Prog σ β) (f : β → Prog σ α) :
    wp (x >>= f) Q s ↔ wp x (fun b s' => wp (f b) Q s') s := by
  constructor
  · rintro ⟨a, s', h, hq⟩
    rw [StateT.run_bind, Option.bind_eq_bind, Option.bind_eq_some_iff] at h
    obtain ⟨⟨b, s₁⟩, hx, hf⟩ := h
    exact ⟨b, s₁, hx, a, s', hf, hq⟩
  · rintro ⟨b, s₁, hx, a, s', hf, hq⟩
    refine ⟨a, s', ?_, hq⟩
    rw [StateT.run_bind, hx]
    exact hf

@[simp] theorem wp_map (x : Prog σ β) (f : β → α) :
    wp (f <$> x) Q s ↔ wp x (fun b s' => Q (f b) s') s := by
  rw [map_eq_pure_bind, wp_bind]
  simp only [wp_pure]

@[simp] theorem wp_discard (x : Prog σ β) {Q : PUnit → σ → Prop} :
    wp (discard x) Q s ↔ wp x (fun _ s' => Q ⟨⟩ s') s := by
  rw [discard, map_const, Function.comp_apply, wp_map]

@[simp] theorem wp_get {Q : σ → σ → Prop} : wp (get : Prog σ σ) Q s ↔ Q s s := by
  simp [wp]

@[simp] theorem wp_set {Q : PUnit → σ → Prop} (s' : σ) :
    wp (set s' : Prog σ PUnit) Q s ↔ Q ⟨⟩ s' := by
  simp [wp, Unique.exists_iff]

@[simp] theorem wp_modify {Q : PUnit → σ → Prop} (f : σ → σ) :
    wp (modify f : Prog σ PUnit) Q s ↔ Q ⟨⟩ (f s) := by
  simp [wp, Unique.exists_iff]

@[simp] theorem wp_failure : wp (failure : Prog σ α) Q s ↔ False := by
  simp only [wp, iff_false]
  rintro ⟨a, s', h, -⟩
  change none = _ at h
  cases h

theorem wp_ite {p : Prop} [Decidable p] {x y : Prog σ α} (hx : p → wp x Q s)
    (hy : ¬ p → wp y Q s) : wp (if p then x else y) Q s := by
  split_ifs with h
  · exact hx h
  · exact hy h

end Rules

/-- **Consequence.** -/
theorem wp_mono {x : Prog σ α} {Q R : α → σ → Prop} {s : σ} (h : wp x Q s)
    (hQR : ∀ a s', Q a s' → R a s') : wp x R s := by
  obtain ⟨a, s', hx, hq⟩ := h
  exact ⟨a, s', hx, hQR a s' hq⟩

theorem wp_and {x : Prog σ α} {Q R : α → σ → Prop} {s : σ} (hQ : wp x Q s) (hR : wp x R s) :
    wp x (fun a s' => Q a s' ∧ R a s') s := by
  obtain ⟨a, s', hx, hq⟩ := hQ
  obtain ⟨b, s'', hx', hr⟩ := hR
  rw [hx] at hx'
  cases hx'
  exact ⟨a, s', hx, hq, hr⟩

theorem wp_run {x : Prog σ α} {Q : α → σ → Prop} {s s' : σ} {a : α} (h : wp x Q s)
    (hx : x.run s = some (a, s')) : Q a s' := by
  obtain ⟨b, s'', hx', hq⟩ := h
  rw [hx] at hx'
  cases hx'
  exact hq

theorem wp_of_run {x : Prog σ α} {Q : α → σ → Prop} {s s' : σ} {a : α}
    (hx : x.run s = some (a, s')) (hq : Q a s') : wp x Q s := ⟨a, s', hx, hq⟩

theorem wp_eq_iff {x : Prog σ α} {s s' : σ} {a : α} :
    wp x (fun b t => b = a ∧ t = s') s ↔ x.run s = some (a, s') := by
  constructor
  · rintro ⟨b, t, hx, rfl, rfl⟩
    exact hx
  · intro hx
    exact ⟨a, s', hx, rfl, rfl⟩

theorem run_bind {x : Prog σ β} {f : β → Prog σ α} {s s₁ : σ} {b : β}
    (h : x.run s = some (b, s₁)) : (x >>= f).run s = (f b).run s₁ := by
  rw [StateT.run_bind, h]
  rfl

theorem run_bind_none {x : Prog σ β} {f : β → Prog σ α} {s : σ} (h : x.run s = none) :
    (x >>= f).run s = none := by
  rw [StateT.run_bind, h]
  rfl

/-! ## Partial correctness -/

/-- Every result that `x` started in `s` has satisfies `Q`. -/
def wlp (x : Prog σ α) (Q : α → σ → Prop) (s : σ) : Prop :=
  ∀ a s', x.run s = some (a, s') → Q a s'

theorem wp.wlp {x : Prog σ α} {Q : α → σ → Prop} {s : σ} (h : wp x Q s) : wlp x Q s :=
  fun _ _ => wp_run h

theorem wp.run_ne_none {x : Prog σ α} {Q : α → σ → Prop} {s : σ} (h : wp x Q s) :
    x.run s ≠ none := by
  obtain ⟨a, s', hx, -⟩ := h
  rw [hx]
  exact Option.some_ne_none _

theorem run_eq_none_iff {x : Prog σ α} {s : σ} : x.run s = none ↔ wlp x (fun _ _ => False) s := by
  constructor
  · intro h a s' hx
    rw [h] at hx
    cases hx
  · intro h
    by_contra hne
    obtain ⟨⟨a, s'⟩, hx⟩ := Option.ne_none_iff_exists'.mp hne
    exact h a s' hx

/-- Partial correctness can be checked by performing the program. -/
instance decidableWlp {x : Prog σ α} {Q : α → σ → Prop} [∀ a s, Decidable (Q a s)] (s : σ) :
    Decidable (wlp x Q s) :=
  match hrun : x.run s with
  | none => .isTrue fun a s' hr => by rw [hrun] at hr; cases hr
  | some (a, s') =>
    decidable_of_iff (Q a s')
      ⟨fun h b t hr => by rw [hrun] at hr; cases hr; exact h, fun h => h a s' hrun⟩

section PartialRules

variable {Q : α → σ → Prop} {s : σ}

@[simp] theorem wlp_pure (a : α) : wlp (pure a) Q s ↔ Q a s := by
  simp [wlp]

@[simp] theorem wlp_bind (x : Prog σ β) (f : β → Prog σ α) :
    wlp (x >>= f) Q s ↔ wlp x (fun b s' => wlp (f b) Q s') s := by
  constructor
  · intro h b s₁ hx a s' hf
    refine h a s' ?_
    rw [StateT.run_bind, hx]
    exact hf
  · intro h a s' hr
    rw [StateT.run_bind, Option.bind_eq_bind, Option.bind_eq_some_iff] at hr
    obtain ⟨⟨b, s₁⟩, hx, hf⟩ := hr
    exact h b s₁ hx a s' hf

theorem wlp_bind_of_forall {x : Prog σ β} {f : β → Prog σ α} (hf : ∀ b s', wlp (f b) Q s') :
    wlp (x >>= f) Q s :=
  (wlp_bind x f).mpr fun b s' _ => hf b s'

@[simp] theorem wlp_map (x : Prog σ β) (f : β → α) :
    wlp (f <$> x) Q s ↔ wlp x (fun b s' => Q (f b) s') s := by
  rw [map_eq_pure_bind, wlp_bind]
  simp only [wlp_pure]

@[simp] theorem wlp_discard (x : Prog σ β) {Q : PUnit → σ → Prop} :
    wlp (discard x) Q s ↔ wlp x (fun _ s' => Q ⟨⟩ s') s := by
  rw [discard, map_const, Function.comp_apply, wlp_map]

@[simp] theorem wlp_get {Q : σ → σ → Prop} : wlp (get : Prog σ σ) Q s ↔ Q s s := by
  simp [wlp]

@[simp] theorem wlp_set {Q : PUnit → σ → Prop} (s' : σ) :
    wlp (set s' : Prog σ PUnit) Q s ↔ Q ⟨⟩ s' := by
  simp [wlp, Unique.forall_iff]

@[simp] theorem wlp_modify {Q : PUnit → σ → Prop} (f : σ → σ) :
    wlp (modify f : Prog σ PUnit) Q s ↔ Q ⟨⟩ (f s) := by
  simp [wlp, Unique.forall_iff]

@[simp] theorem wlp_failure : wlp (failure : Prog σ α) Q s := by
  intro a s' h
  change none = _ at h
  cases h

theorem wlp_ite {p : Prop} [Decidable p] {x y : Prog σ α} (hx : p → wlp x Q s)
    (hy : ¬ p → wlp y Q s) : wlp (if p then x else y) Q s := by
  split_ifs with h
  · exact hx h
  · exact hy h

end PartialRules

theorem wlp_mono {x : Prog σ α} {Q R : α → σ → Prop} {s : σ} (h : wlp x Q s)
    (hQR : ∀ a s', Q a s' → R a s') : wlp x R s :=
  fun a s' hx => hQR a s' (h a s' hx)

theorem wlp_and {x : Prog σ α} {Q R : α → σ → Prop} {s : σ} (hQ : wlp x Q s) (hR : wlp x R s) :
    wlp x (fun a s' => Q a s' ∧ R a s') s :=
  fun a s' hx => ⟨hQ a s' hx, hR a s' hx⟩

theorem wp_and_wlp {x : Prog σ α} {Q R : α → σ → Prop} {s : σ} (hQ : wp x Q s) (hR : wlp x R s) :
    wp x (fun a s' => Q a s' ∧ R a s') s := by
  obtain ⟨a, s', hx, hq⟩ := hQ
  exact ⟨a, s', hx, hq, hR a s' hx⟩

/-! ## Primitive programs -/

/-- Continue only where `p` holds. -/
def require (p : Prop) [Decidable p] : Prog σ Unit := if p then pure () else failure

@[simp] theorem wp_require {p : Prop} [Decidable p] {Q : Unit → σ → Prop} {s : σ} :
    wp (require p) Q s ↔ p ∧ Q () s := by
  unfold require
  split_ifs with h <;> simp [h]

@[simp] theorem wlp_require {p : Prop} [Decidable p] {Q : Unit → σ → Prop} {s : σ} :
    wlp (require p) Q s ↔ (p → Q () s) := by
  unfold require
  split_ifs with h <;> simp [h]

/-- Perform `x` where `p` holds. -/
def when (p : Prop) [Decidable p] (x : Prog σ Unit) : Prog σ Unit := if p then x else pure ()

@[simp] theorem wp_when {p : Prop} [Decidable p] {x : Prog σ Unit} {Q : Unit → σ → Prop} {s : σ} :
    wp (when p x) Q s ↔ (p → wp x Q s) ∧ (¬ p → Q () s) := by
  unfold when
  split_ifs with h <;> simp [h]

@[simp] theorem wlp_when {p : Prop} [Decidable p] {x : Prog σ Unit} {Q : Unit → σ → Prop} {s : σ} :
    wlp (when p x) Q s ↔ (p → wlp x Q s) ∧ (¬ p → Q () s) := by
  unfold when
  split_ifs with h <;> simp [h]

/-- Read an optional value out of the state; its absence is undefined behaviour. -/
def fetch (f : σ → Option α) : Prog σ α := fun s => (f s).map fun a => (a, s)

theorem run_fetch (f : σ → Option α) (s : σ) : (fetch f).run s = (f s).map fun a => (a, s) := rfl

@[simp] theorem wp_fetch {f : σ → Option α} {Q : α → σ → Prop} {s : σ} :
    wp (fetch f) Q s ↔ ∃ a, f s = some a ∧ Q a s := by
  constructor
  · rintro ⟨a, s', h, hq⟩
    change (f s).map (fun a => (a, s)) = some (a, s') at h
    rw [Option.map_eq_some_iff] at h
    obtain ⟨b, hb, he⟩ := h
    cases he
    exact ⟨a, hb, hq⟩
  · rintro ⟨a, h, hq⟩
    refine ⟨a, s, ?_, hq⟩
    change (f s).map (fun a => (a, s)) = _
    rw [h]
    rfl

@[simp] theorem wlp_fetch {f : σ → Option α} {Q : α → σ → Prop} {s : σ} :
    wlp (fetch f) Q s ↔ ∀ a, f s = some a → Q a s := by
  constructor
  · intro h a ha
    refine h a s ?_
    change (f s).map (fun a => (a, s)) = _
    rw [ha]
    rfl
  · intro h a s' hr
    change (f s).map (fun a => (a, s)) = some (a, s') at hr
    rw [Option.map_eq_some_iff] at hr
    obtain ⟨b, hb, he⟩ := hr
    cases he
    exact h a hb

/-- Run a program on a component of a larger state. -/
def zoom (get : τ → σ) (put : τ → σ → τ) (x : Prog σ α) : Prog τ α := fun t =>
  (x.run (get t)).map fun p => (p.1, put t p.2)

@[simp] theorem wp_zoom {get : τ → σ} {put : τ → σ → τ} {x : Prog σ α} {Q : α → τ → Prop} {t : τ} :
    wp (zoom get put x) Q t ↔ wp x (fun a s => Q a (put t s)) (get t) := by
  constructor
  · rintro ⟨a, t', h, hq⟩
    change (x.run (get t)).map _ = some (a, t') at h
    rw [Option.map_eq_some_iff] at h
    obtain ⟨⟨b, s⟩, hb, he⟩ := h
    cases he
    exact ⟨b, s, hb, hq⟩
  · rintro ⟨a, s, h, hq⟩
    refine ⟨a, put t s, ?_, hq⟩
    change (x.run (get t)).map _ = _
    rw [h]
    rfl

@[simp] theorem wlp_zoom {get : τ → σ} {put : τ → σ → τ} {x : Prog σ α} {Q : α → τ → Prop}
    {t : τ} : wlp (zoom get put x) Q t ↔ wlp x (fun a s => Q a (put t s)) (get t) := by
  constructor
  · intro h a s hx
    refine h a (put t s) ?_
    change (x.run (get t)).map _ = _
    rw [hx]
    rfl
  · intro h a t' hr
    change (x.run (get t)).map _ = some (a, t') at hr
    rw [Option.map_eq_some_iff] at hr
    obtain ⟨⟨b, s⟩, hb, he⟩ := hr
    cases he
    exact h b s hb

theorem fetch_fetch (f : σ → Option α) (g : α → α → Prog σ β) :
    (fetch f >>= fun a => fetch f >>= g a) = fetch f >>= fun a => g a a := by
  funext s
  change (fetch f >>= fun a => fetch f >>= g a).run s = (fetch f >>= fun a => g a a).run s
  cases ha : f s with
  | none =>
    have hrun : (fetch f).run s = none := by rw [run_fetch, ha, Option.map_none]
    rw [run_bind_none hrun, run_bind_none hrun]
  | some a =>
    have hrun : (fetch f).run s = some (a, s) := by rw [run_fetch, ha, Option.map_some]
    rw [run_bind hrun, run_bind hrun, run_bind hrun]

/-! ## Loops -/

/-- Perform `f` on the elements of a list, first to last. -/
def forEach (f : ι → Prog σ Unit) : List ι → Prog σ Unit
  | [] => pure ()
  | x :: xs => f x >>= fun _ => forEach f xs

theorem forEach_map {κ : Type} (f : ι → Prog σ Unit) (g : κ → ι) (ks : List κ) :
    forEach f (ks.map g) = forEach (fun k => f (g k)) ks := by
  induction ks with
  | nil => rfl
  | cons k ks ih => exact congrArg (f (g k) >>= ·) (funext fun _ => ih)

/-- **A loop over a table by index** reads its first entries, of which there have to be enough. -/
theorem forEach_indices (f : ι → Prog σ Unit) (xs : List ι) (n : ℕ) :
    forEach (fun k => fetch (fun _ => xs[k]?) >>= f) (List.range n) =
      require (n ≤ xs.length) >>= fun _ => forEach f (xs.take n) := by
  induction xs generalizing n with
  | nil =>
    cases n with
    | zero => rfl
    | succ n =>
      rw [List.range_succ_eq_map, require, if_neg (by simp)]
      rfl
  | cons x xs ih =>
    cases n with
    | zero => rfl
    | succ n =>
      have hrest : forEach (fun k => fetch (fun _ => (x :: xs)[k]?) >>= f) (List.range (n + 1)) =
          f x >>= fun _ => require (n ≤ xs.length) >>= fun _ => forEach f (xs.take n) := by
        rw [List.range_succ_eq_map, forEach, forEach_map, ← ih]
        rfl
      rw [hrest]
      by_cases hn : n ≤ xs.length
      · rw [require, if_pos hn, require, if_pos (by simpa using hn)]
        rfl
      · rw [require, if_neg hn, require, if_neg (by simpa using hn)]
        funext s
        change (f x >>= fun _ => failure).run s = none
        cases hx : (f x).run s with
        | none => exact run_bind_none hx
        | some p => exact run_bind hx

/-- **The loop rule.** An invariant indexed by the elements already visited. -/
theorem wp_forEach (f : ι → Prog σ Unit) (I : List ι → σ → Prop) (xs : List ι)
    (step : ∀ pre x post s, xs = pre ++ x :: post → I pre s →
      wp (f x) (fun _ s' => I (pre ++ [x]) s') s) {s : σ} (h : I [] s) :
    wp (forEach f xs) (fun _ s' => I xs s') s := by
  suffices key : ∀ (post pre : List ι) s, xs = pre ++ post → I pre s →
      wp (forEach f post) (fun _ s' => I xs s') s from key xs [] s rfl h
  intro post
  induction post with
  | nil =>
    intro pre s hx hI
    rw [List.append_nil] at hx
    subst hx
    rw [forEach, wp_pure]
    exact hI
  | cons x post ih =>
    intro pre s hx hI
    rw [forEach, wp_bind]
    refine wp_mono (step pre x post s hx hI) fun _ s' hI' => ?_
    exact ih (pre ++ [x]) s' (by rw [hx, List.append_assoc]; rfl) hI'

theorem wlp_forEach (f : ι → Prog σ Unit) (I : List ι → σ → Prop) (xs : List ι)
    (step : ∀ pre x post s, xs = pre ++ x :: post → I pre s →
      wlp (f x) (fun _ s' => I (pre ++ [x]) s') s) {s : σ} (h : I [] s) :
    wlp (forEach f xs) (fun _ s' => I xs s') s := by
  suffices key : ∀ (post pre : List ι) s, xs = pre ++ post → I pre s →
      wlp (forEach f post) (fun _ s' => I xs s') s from key xs [] s rfl h
  intro post
  induction post with
  | nil =>
    intro pre s hx hI
    rw [List.append_nil] at hx
    subst hx
    rw [forEach, wlp_pure]
    exact hI
  | cons x post ih =>
    intro pre s hx hI
    rw [forEach, wlp_bind]
    refine wlp_mono (step pre x post s hx hI) fun _ s' hI' => ?_
    exact ih (pre ++ [x]) s' (by rw [hx, List.append_assoc]; rfl) hI'

/-! ## Programs that only read -/

/-- The program changes nothing, and all it depends on is the same in related states. -/
def ReadsOnly (R : σ → σ → Prop) (x : Prog σ α) : Prop :=
  ∀ s s', R s s' → ∀ a t, x.run s = some (a, t) → t = s ∧ x.run s' = some (a, s')

section ReadsOnly

variable {R : σ → σ → Prop}

theorem ReadsOnly.pure (a : α) : ReadsOnly R (Pure.pure a : Prog σ α) := by
  intro s s' _ b t h
  cases h
  exact ⟨rfl, rfl⟩

theorem ReadsOnly.bind {x : Prog σ β} {f : β → Prog σ α} (hx : ReadsOnly R x)
    (hf : ∀ b, ReadsOnly R (f b)) : ReadsOnly R (x >>= f) := by
  intro s s' hR a t h
  rw [StateT.run_bind, Option.bind_eq_bind, Option.bind_eq_some_iff] at h
  obtain ⟨⟨b, s₁⟩, hrun, hrest⟩ := h
  obtain ⟨rfl, hrun'⟩ := hx s s' hR b s₁ hrun
  rw [run_bind hrun']
  exact hf b _ s' hR a t hrest

theorem ReadsOnly.ite {p : Prop} [Decidable p] {x y : Prog σ α} (hx : ReadsOnly R x)
    (hy : ReadsOnly R y) : ReadsOnly R (if p then x else y) := by
  split_ifs
  · exact hx
  · exact hy

theorem ReadsOnly.fetch_bind {f : σ → Option β} {k : β → Prog σ α}
    (hf : ∀ s s' b, R s s' → f s = some b → ∃ b', f s' = some b' ∧ k b' = k b)
    (hk : ∀ b, ReadsOnly R (k b)) : ReadsOnly R (Prog.fetch f >>= k) := by
  intro s s' hR a t h
  cases hb : f s with
  | none =>
    rw [StateT.run_bind, run_fetch, hb] at h
    cases h
  | some b =>
    obtain ⟨b', hb', hkb⟩ := hf s s' b hR hb
    have hfetch : (Prog.fetch f).run s = some (b, s) := by rw [run_fetch, hb, Option.map_some]
    have hfetch' : (Prog.fetch f).run s' = some (b', s') := by rw [run_fetch, hb', Option.map_some]
    rw [run_bind hfetch] at h
    rw [run_bind hfetch', hkb]
    exact hk b s s' hR a t h

theorem ReadsOnly.zoom {get : τ → σ} {put : τ → σ → τ} {x : Prog σ α} {S : τ → τ → Prop}
    (hx : ReadsOnly R x) (hR : ∀ t t', S t t' → R (get t) (get t')) (hput : ∀ t, put t (get t) = t) :
    ReadsOnly S (Prog.zoom get put x) := by
  intro t t' hS a u h
  change (x.run (get t)).map _ = some (a, u) at h
  rw [Option.map_eq_some_iff] at h
  obtain ⟨⟨b, s⟩, hb, he⟩ := h
  cases he
  obtain ⟨rfl, hrun⟩ := hx _ _ (hR t t' hS) b s hb
  refine ⟨hput t, ?_⟩
  change (x.run (get t')).map _ = _
  rw [hrun, Option.map_some, hput]

end ReadsOnly

/-! ## What a program keeps -/

/-- From a state that satisfies `I` the program returns, in a state that satisfies `I`. -/
def Keeps (I : σ → Prop) (x : Prog σ α) : Prop := ∀ s, I s → wp x (fun _ s' => I s') s

section Keeps

variable {I : σ → Prop}

theorem Keeps.pure (a : α) : Keeps I (Pure.pure a : Prog σ α) := by
  intro s hs
  rw [wp_pure]
  exact hs

theorem Keeps.bind {x : Prog σ β} {f : β → Prog σ α} (hx : Keeps I x) (hf : ∀ b, Keeps I (f b)) :
    Keeps I (x >>= f) := by
  intro s hs
  rw [wp_bind]
  exact wp_mono (hx s hs) fun b s' hs' => hf b s' hs'

theorem Keeps.discard {x : Prog σ β} (hx : Keeps I x) : Keeps I (discard x) := by
  intro s hs
  rw [wp_discard]
  exact hx s hs

theorem Keeps.ite {p : Prop} [Decidable p] {x y : Prog σ α} (hx : Keeps I x) (hy : Keeps I y) :
    Keeps I (if p then x else y) := by
  split_ifs
  · exact hx
  · exact hy

theorem Keeps.when {p : Prop} [Decidable p] {x : Prog σ Unit} (hx : Keeps I x) :
    Keeps I (Prog.when p x) := .ite hx (.pure ())

theorem Keeps.modify {f : σ → σ} (hf : ∀ s, I s → I (f s)) :
    Keeps I (modify f : Prog σ PUnit) := by
  intro s hs
  rw [wp_modify]
  exact hf s hs

theorem Keeps.get : Keeps I (get : Prog σ σ) := by
  intro s hs
  rw [wp_get]
  exact hs

theorem Keeps.forEach {f : ι → Prog σ Unit} {xs : List ι} (hf : ∀ x ∈ xs, Keeps I (f x)) :
    Keeps I (forEach f xs) := by
  induction xs with
  | nil => exact Keeps.pure ()
  | cons x xs ih =>
    exact (hf x List.mem_cons_self).bind fun _ => ih fun y hy => hf y (List.mem_cons_of_mem x hy)

end Keeps

/-- `x` keeps `I` whenever it returns. -/
def Preserves (I : σ → Prop) (x : Prog σ α) : Prop := ∀ s, I s → wlp x (fun _ s' => I s') s

section Preserves

variable {I : σ → Prop}

theorem Keeps.preserves {x : Prog σ α} (hx : Keeps I x) : Preserves I x := fun s hs => (hx s hs).wlp

theorem Preserves.pure (a : α) : Preserves I (Pure.pure a : Prog σ α) := (Keeps.pure a).preserves

theorem Preserves.bind {x : Prog σ β} {f : β → Prog σ α} (hx : Preserves I x)
    (hf : ∀ b, Preserves I (f b)) : Preserves I (x >>= f) := by
  intro s hs
  rw [wlp_bind]
  exact wlp_mono (hx s hs) fun b s' hs' => hf b s' hs'

theorem Preserves.discard {x : Prog σ β} (hx : Preserves I x) : Preserves I (discard x) := by
  intro s hs
  rw [wlp_discard]
  exact hx s hs

theorem Preserves.ite {p : Prop} [Decidable p] {x y : Prog σ α} (hx : Preserves I x)
    (hy : Preserves I y) : Preserves I (if p then x else y) := by
  split_ifs
  · exact hx
  · exact hy

theorem Preserves.fetch (f : σ → Option α) : Preserves I (fetch f) := by
  intro s hs
  rw [wlp_fetch]
  exact fun _ _ => hs

theorem Preserves.require (p : Prop) [Decidable p] : Preserves I (require p) := by
  intro s hs
  rw [wlp_require]
  exact fun _ => hs

theorem Preserves.get : Preserves I (get : Prog σ σ) := Keeps.get.preserves

theorem Preserves.modify {f : σ → σ} (hf : ∀ s, I s → I (f s)) :
    Preserves I (modify f : Prog σ PUnit) := (Keeps.modify hf).preserves

theorem Preserves.forEach {f : ι → Prog σ Unit} {xs : List ι} (hf : ∀ x ∈ xs, Preserves I (f x)) :
    Preserves I (forEach f xs) := by
  induction xs with
  | nil => exact Preserves.pure ()
  | cons x xs ih =>
    exact (hf x List.mem_cons_self).bind fun _ => ih fun y hy => hf y (List.mem_cons_of_mem x hy)

end Preserves

/-! ## Runs of operations -/

/-- **What holds after every part of a run**, where one more operation keeps it just if it meets a
condition. -/
theorem forall_prefix_iff {P : List ι → Prop} {C : List ι → ι → Prop} {xs : List ι} (hnil : P [])
    (hstep : ∀ pre x, pre ++ [x] <+: xs → P pre → (P (pre ++ [x]) ↔ C pre x)) :
    (∀ pre, pre <+: xs → P pre) ↔ ∀ pre x, pre ++ [x] <+: xs → C pre x := by
  have hinit : ∀ {pre x}, pre ++ [x] <+: xs → pre <+: xs := fun h => (List.prefix_append _ _).trans h
  constructor
  · intro h pre x hx
    exact (hstep pre x hx (h pre (hinit hx))).mp (h _ hx)
  · intro h pre
    induction pre using List.reverseRecOn with
    | nil => exact fun _ => hnil
    | append_singleton pre x ih =>
      intro hx
      exact (hstep pre x hx (ih (hinit hx))).mpr (h pre x hx)

/-- Perform the operations of a list one after the other, whatever they return. -/
def runOps (f : ι → Prog σ α) : List ι → Prog σ Unit
  | [] => pure ()
  | x :: xs => f x >>= fun _ => runOps f xs

theorem runOps_nil (f : ι → Prog σ α) (s : σ) : (runOps f []).run s = some ((), s) := rfl

theorem runOps_cons (f : ι → Prog σ α) (x : ι) (xs : List ι) (s : σ) {s' : σ} :
    (runOps f (x :: xs)).run s = some ((), s') ↔
      ∃ a s₁, (f x).run s = some (a, s₁) ∧ (runOps f xs).run s₁ = some ((), s') := by
  rw [runOps, StateT.run_bind, Option.bind_eq_bind, Option.bind_eq_some_iff]
  constructor
  · rintro ⟨⟨a, s₁⟩, h₁, h₂⟩
    exact ⟨a, s₁, h₁, h₂⟩
  · rintro ⟨a, s₁, h₁, h₂⟩
    exact ⟨(a, s₁), h₁, h₂⟩

theorem wp_runOps_append {f : ι → Prog σ α} {xs : List ι} {x : ι} {Q : Unit → σ → Prop} {s : σ} :
    wp (runOps f (xs ++ [x])) Q s ↔
      wp (runOps f xs) (fun _ s' => wp (f x) (fun _ s'' => Q () s'') s') s := by
  induction xs generalizing s with
  | nil => simp only [List.nil_append, runOps, wp_bind, wp_pure]
  | cons y xs ih => simp only [List.cons_append, runOps, wp_bind, ih]

/-- Every operation of the run meets a condition in the state it starts from. -/
def Along (f : ι → Prog σ α) (C : ι → σ → Prop) : List ι → σ → Prop
  | [], _ => True
  | x :: xs, s => C x s ∧ ∀ a s', (f x).run s = some (a, s') → Along f C xs s'

theorem along_of_forall {f : ι → Prog σ α} {C : ι → σ → Prop} {xs : List ι}
    (h : ∀ x ∈ xs, ∀ s, C x s) (s : σ) : Along f C xs s := by
  induction xs generalizing s with
  | nil => trivial
  | cons x xs ih =>
    exact ⟨h x List.mem_cons_self s, fun _ s' _ => ih (fun y hy => h y (List.mem_cons_of_mem _ hy)) s'⟩

theorem Along.imp {f : ι → Prog σ α} {C D : ι → σ → Prop} {I : σ → Prop}
    (step : ∀ x s, C x s → I s → wlp (f x) (fun _ s' => I s') s) (himp : ∀ x s, C x s → I s → D x s)
    {xs : List ι} {s : σ} (hC : Along f C xs s) (hI : I s) : Along f D xs s := by
  induction xs generalizing s with
  | nil => trivial
  | cons x xs ih => exact ⟨himp x s hC.1 hI, fun a s' hx => ih (hC.2 a s' hx) (step x s hC.1 hI a s' hx)⟩

/-- **What holds in every state of a run** of operations that meet `D`, where an operation keeps it just if it
meets a condition. -/
theorem forall_state_iff_along_of {f : ι → Prog σ α} {C D : ι → σ → Prop} {K P : σ → Prop}
    (step : ∀ x s, D x s → K s → P s → wlp (f x) (fun _ s' => K s' ∧ (P s' ↔ C x s)) s) {xs : List ι}
    {s s' : σ} (hrun : (runOps f xs).run s = some ((), s')) (hD : Along f D xs s) (hK : K s) (hP : P s) :
    (∀ pre t, pre <+: xs → (runOps f pre).run s = some ((), t) → P t) ↔ Along f C xs s := by
  induction xs generalizing s with
  | nil =>
    refine iff_of_true (fun pre t hpre ht => ?_) trivial
    rw [List.prefix_nil.mp hpre, runOps_nil] at ht
    cases ht
    exact hP
  | cons x xs ih =>
    obtain ⟨a, s₁, hx, hrest⟩ := (runOps_cons f x xs s).mp hrun
    obtain ⟨hK₁, hiff⟩ := step x s hD.1 hK hP a s₁ hx
    constructor
    · intro h
      have hP₁ : P s₁ := h [x] s₁ (List.prefix_append [x] xs)
        ((runOps_cons f x [] s).mpr ⟨a, s₁, hx, runOps_nil f s₁⟩)
      refine ⟨hiff.mp hP₁, fun b t ht => ?_⟩
      rw [hx] at ht
      cases ht
      refine (ih hrest (hD.2 a s₁ hx) hK₁ hP₁).mp fun pre t hpre ht => ?_
      exact h (x :: pre) t (List.cons_prefix_cons.mpr ⟨rfl, hpre⟩) ((runOps_cons f x pre s).mpr ⟨a, s₁, hx, ht⟩)
    · rintro ⟨hC, htail⟩ pre t hpre ht
      cases pre with
      | nil =>
        rw [runOps_nil] at ht
        cases ht
        exact hP
      | cons y pre =>
        obtain ⟨rfl, hpre'⟩ := List.cons_prefix_cons.mp hpre
        obtain ⟨b, s₂, hy, ht⟩ := (runOps_cons f y pre s).mp ht
        rw [hx] at hy
        cases hy
        exact (ih hrest (hD.2 a s₁ hx) hK₁ (hiff.mpr hC)).mpr (htail a s₁ hx) pre t hpre' ht

theorem forall_state_iff_along {f : ι → Prog σ α} {C : ι → σ → Prop} {K P : σ → Prop}
    (step : ∀ x s, K s → P s → wlp (f x) (fun _ s' => K s' ∧ (P s' ↔ C x s)) s) {xs : List ι} {s s' : σ}
    (hrun : (runOps f xs).run s = some ((), s')) (hK : K s) (hP : P s) :
    (∀ pre t, pre <+: xs → (runOps f pre).run s = some ((), t) → P t) ↔ Along f C xs s :=
  forall_state_iff_along_of (D := fun _ _ => True) (fun x s _ => step x s) hrun
    (along_of_forall (fun _ _ _ => trivial) s) hK hP

/-- A condition along a run can be checked by performing the run. -/
instance decidableAlong {f : ι → Prog σ α} {C : ι → σ → Prop} [∀ x s, Decidable (C x s)] :
    ∀ (xs : List ι) (s : σ), Decidable (Along f C xs s)
  | [], _ => .isTrue trivial
  | x :: xs, s =>
    match hrun : (f x).run s with
    | none => decidable_of_iff (C x s) ⟨fun h => ⟨h, fun a s' hr => by rw [hrun] at hr; cases hr⟩, And.left⟩
    | some (a, s') =>
      have := decidableAlong (f := f) (C := C) xs s'
      decidable_of_iff (C x s ∧ Along f C xs s')
        ⟨fun h => ⟨h.1, fun b t hr => by rw [hrun] at hr; cases hr; exact h.2⟩,
          fun h => ⟨h.1, h.2 a s' hrun⟩⟩

/-- **Runs of total operations.** An invariant indexed by the operations already performed. -/
theorem wp_runOps {f : ι → Prog σ α} {C : ι → σ → Prop} {I : List ι → σ → Prop} {xs : List ι}
    (step : ∀ pre x s, x ∈ xs → C x s → I pre s → wp (f x) (fun _ s' => I (pre ++ [x]) s') s)
    {s : σ} (hC : Along f C xs s) (hI : I [] s) : wp (runOps f xs) (fun _ s' => I xs s') s := by
  suffices key : ∀ (post pre : List ι) s, xs = pre ++ post → Along f C post s → I pre s →
      wp (runOps f post) (fun _ s' => I xs s') s from key xs [] s rfl hC hI
  intro post
  induction post with
  | nil =>
    intro pre s hx _ hI
    rw [List.append_nil] at hx
    subst hx
    rw [runOps, wp_pure]
    exact hI
  | cons x post ih =>
    intro pre s hx hC hI
    have hmem : x ∈ xs := by rw [hx]; exact List.mem_append_right _ List.mem_cons_self
    obtain ⟨a, s₁, hrun, hI'⟩ := step pre x s hmem hC.1 hI
    rw [runOps, wp_bind]
    exact ⟨a, s₁, hrun, ih (pre ++ [x]) s₁ (by rw [hx, List.append_assoc]; rfl) (hC.2 a s₁ hrun) hI'⟩

/-- **Runs keep invariants.** What each operation preserves where it meets the condition holds at
the end of every run all of whose operations meet it. -/
theorem wlp_runOps {f : ι → Prog σ α} {C : ι → σ → Prop} {I : σ → Prop}
    (step : ∀ x s, C x s → I s → wlp (f x) (fun _ s' => I s') s) {xs : List ι} {s : σ}
    (hC : Along f C xs s) (hI : I s) : wlp (runOps f xs) (fun _ s' => I s') s := by
  induction xs generalizing s with
  | nil =>
    rw [runOps, wlp_pure]
    exact hI
  | cons x xs ih =>
    rw [runOps, wlp_bind]
    intro a s' h
    exact ih (hC.2 a s' h) (step x s hC.1 hI a s' h)

end Prog
