import NexusVM.Lib.Prog

/-!
# What one party sees

Several parties perform operations on one state. What a party sees is the list of results of its own
operations; purging a run takes the operations of the others out.

* `Prog.traceOps`: runs that keep what each operation returns;
* `outcomes`: the results of a run, where a result depends on the operations before it;
* `seenBy`: the results of the operations of one party;
* **`wp_traceOps`**: a run whose operations return what their histories determine;
* **`seenBy_outcomes_iff`**: purging changes nothing a party sees just if no operation of it can tell
  its history from the purged one.
-/

variable {σ ι α : Type}

/-! ## Results -/

/-- The results of the operations `xs` after those in `pre`, where `out` tells the result of an
operation after a history. -/
def outcomes (out : List ι → ι → α) : List ι → List ι → List α
  | _, [] => []
  | pre, x :: xs => out pre x :: outcomes out (pre ++ [x]) xs

/-- What the party `p` sees of a run. -/
def seenBy (p : ι → Bool) : List ι → List α → List α
  | [], _ => []
  | _ :: _, [] => []
  | x :: xs, a :: as => if p x then a :: seenBy p xs as else seenBy p xs as

/-- **What a purged run shows.** -/
theorem seenBy_outcomes_iff {out : List ι → ι → α} {p : ι → Bool} {xs : List ι} :
    seenBy p xs (outcomes out [] xs) = outcomes out [] (xs.filter p) ↔
      ∀ pre x post, xs = pre ++ x :: post → p x = true → out pre x = out (pre.filter p) x := by
  suffices key : ∀ (xs pre₀ : List ι), seenBy p xs (outcomes out pre₀ xs) =
        outcomes out (pre₀.filter p) (xs.filter p) ↔
      ∀ pre x post, xs = pre ++ x :: post → p x = true →
        out (pre₀ ++ pre) x = out ((pre₀ ++ pre).filter p) x from key xs []
  intro xs
  induction xs with
  | nil =>
    intro pre₀
    exact ⟨fun _ pre x post hx => absurd hx (by simp), fun _ => rfl⟩
  | cons y xs ih =>
    intro pre₀
    -- an occurrence of an operation is the first one, or one in the rest
    have hsplit : (∀ pre x post, y :: xs = pre ++ x :: post → p x = true →
          out (pre₀ ++ pre) x = out ((pre₀ ++ pre).filter p) x) ↔
        (p y = true → out pre₀ y = out (pre₀.filter p) y) ∧
          ∀ pre x post, xs = pre ++ x :: post → p x = true →
            out (pre₀ ++ [y] ++ pre) x = out ((pre₀ ++ [y] ++ pre).filter p) x := by
      constructor
      · intro h
        refine ⟨fun hy => by simpa using h [] y xs rfl hy, fun pre x post hx hp => ?_⟩
        rw [List.append_assoc, List.singleton_append]
        exact h (y :: pre) x post (by rw [hx, List.cons_append]) hp
      · rintro ⟨hhead, htail⟩ pre x post hx hp
        cases pre with
        | nil =>
          rw [List.nil_append, List.cons.injEq] at hx
          obtain ⟨rfl, rfl⟩ := hx
          simpa using hhead hp
        | cons z pre =>
          rw [List.cons_append, List.cons.injEq] at hx
          obtain ⟨rfl, hx⟩ := hx
          have := htail pre x post hx hp
          rwa [List.append_assoc, List.singleton_append] at this
    rw [hsplit, ← ih (pre₀ ++ [y]), outcomes, seenBy, List.filter_append]
    by_cases hy : p y = true
    · rw [if_pos hy, List.filter_cons_of_pos hy, List.filter_cons_of_pos hy, List.filter_nil,
        outcomes, List.cons.injEq]
      simp only [hy, true_imp_iff]
    · rw [if_neg hy, List.filter_cons_of_neg hy, List.filter_cons_of_neg hy, List.filter_nil,
        List.append_nil]
      simp only [hy, Bool.false_eq_true, false_imp_iff, true_and]

/-! ## Runs -/

namespace Prog

/-- Perform the operations of a list one after the other, and keep what they return. -/
def traceOps (f : ι → Prog σ α) : List ι → Prog σ (List α)
  | [] => pure []
  | x :: xs => do
    let a ← f x
    let as ← traceOps f xs
    return a :: as

/-- **Runs whose operations return what their histories determine.** -/
theorem wp_traceOps {f : ι → Prog σ α} {out : List ι → ι → α} {I : List ι → σ → Prop} {xs : List ι}
    (step : ∀ pre x s, x ∈ xs → I pre s → wp (f x) (fun a s' => a = out pre x ∧ I (pre ++ [x]) s') s)
    {s : σ} (hI : I [] s) :
    wp (traceOps f xs) (fun as s' => as = outcomes out [] xs ∧ I xs s') s := by
  suffices key : ∀ (post pre : List ι) s, xs = pre ++ post → I pre s →
      wp (traceOps f post) (fun as s' => as = outcomes out pre post ∧ I xs s') s from
    key xs [] s rfl hI
  intro post
  induction post with
  | nil =>
    intro pre s hx hI
    rw [List.append_nil] at hx
    subst hx
    rw [traceOps, wp_pure]
    exact ⟨rfl, hI⟩
  | cons x post ih =>
    intro pre s hx hI
    rw [traceOps, wp_bind]
    refine wp_mono (step pre x s (by rw [hx]; simp) hI) ?_
    rintro a s₁ ⟨rfl, hI₁⟩
    rw [wp_bind]
    refine wp_mono (ih (pre ++ [x]) s₁ (by rw [hx, List.append_assoc]; rfl) hI₁) ?_
    rintro as s₂ ⟨rfl, hI₂⟩
    rw [wp_pure]
    exact ⟨rfl, hI₂⟩

/-- **Runs whose operations keep an invariant.** What each operation and its result satisfy where the
invariant holds is satisfied all along a run that returns. -/
theorem wlp_traceOps_forall₂ {f : ι → Prog σ α} {I : σ → Prop} {P : ι → α → Prop} {xs : List ι}
    (step : ∀ x s, I s → wlp (f x) (fun a s' => P x a ∧ I s') s) {s : σ} (hI : I s) :
    wlp (traceOps f xs) (fun as _ => List.Forall₂ P xs as) s := by
  induction xs generalizing s with
  | nil =>
    rw [traceOps, wlp_pure]
    exact List.Forall₂.nil
  | cons x xs ih =>
    rw [traceOps, wlp_bind]
    refine wlp_mono (step x s hI) ?_
    rintro a s₁ ⟨hP, hI₁⟩
    rw [wlp_bind]
    refine wlp_mono (ih hI₁) ?_
    intro as s₂ hrest
    rw [wlp_pure]
    exact List.Forall₂.cons hP hrest

end Prog
