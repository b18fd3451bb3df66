import NexusVM.Lib.Prog

/-!
# Programs that keep a log

A program over a state and a log, to say in which order and with which results the steps of another
program happen.

* `lift`, `note`, `notes`: a step of the program, and entries of the log;
* `Erases`: a program with a log is another one when the log is forgotten; one rule a construct;
* `Erases.exists_log`, `Erases.run_of_log`: each run of the program is one with a log, and the other way
  round.
-/

namespace Prog

variable {σ ε α β ι : Type}

/-- A program that does not look at the log. -/
def lift (x : Prog σ α) : Prog (σ × List ε) α := zoom Prod.fst (fun t s => (s, t.2)) x

/-- A new last entry of the log. -/
def note (e : ε) : Prog (σ × List ε) Unit := modify fun t => (t.1, t.2 ++ [e])

/-- New last entries of the log. -/
def notes (es : List ε) : Prog (σ × List ε) Unit := modify fun t => (t.1, t.2 ++ es)

@[simp] theorem wlp_lift {x : Prog σ α} {Q : α → σ × List ε → Prop} {s : σ} {l : List ε} :
    wlp (lift x) Q (s, l) ↔ wlp x (fun a s' => Q a (s', l)) s := wlp_zoom

@[simp] theorem wlp_note {e : ε} {Q : Unit → σ × List ε → Prop} {s : σ} {l : List ε} :
    wlp (note e) Q (s, l) ↔ Q () (s, l ++ [e]) := wlp_modify _

@[simp] theorem wlp_notes {es : List ε} {Q : Unit → σ × List ε → Prop} {s : σ} {l : List ε} :
    wlp (notes es) Q (s, l) ↔ Q () (s, l ++ es) := wlp_modify _

/-- But for the log, `y` is `x`. -/
def Erases (y : Prog (σ × List ε) α) (x : Prog σ α) : Prop :=
  ∀ s l, (y.run (s, l)).map (fun p => (p.1, p.2.1)) = x.run s

namespace Erases

variable {x : Prog σ α} {y : Prog (σ × List ε) α}

theorem lift (x : Prog σ α) : Erases (lift x : Prog (σ × List ε) α) x := by
  intro s l
  change Option.map _ ((x.run s).map _) = _
  rw [Option.map_map]
  exact congrFun Option.map_id _

theorem pure (a : α) : Erases (Pure.pure a : Prog (σ × List ε) α) (Pure.pure a) :=
  fun _ _ => rfl

theorem bind {x' : Prog σ β} {y' : Prog (σ × List ε) β} {f : β → Prog σ α}
    {g : β → Prog (σ × List ε) α} (hx : Erases y' x') (hf : ∀ b, Erases (g b) (f b)) :
    Erases (y' >>= g) (x' >>= f) := by
  intro s l
  have hrun := hx s l
  cases hy : y'.run (s, l) with
  | none =>
    rw [hy, Option.map_none] at hrun
    rw [run_bind_none hy, run_bind_none hrun.symm, Option.map_none]
  | some p =>
    obtain ⟨b, s', l'⟩ := p
    rw [hy, Option.map_some] at hrun
    rw [run_bind hy, run_bind hrun.symm]
    exact hf b s' l'

theorem note_pure (e : ε) (a : α) :
    Erases (note e >>= fun _ => (Pure.pure a : Prog (σ × List ε) α)) (Pure.pure a) := fun _ _ => rfl

theorem after_notes (es : List ε) (hx : Erases y x) : Erases (notes es >>= fun _ => y) x :=
  fun s l => hx s (l ++ es)

theorem after_note (e : ε) (hx : Erases y x) : Erases (note e >>= fun _ => y) x :=
  fun s l => hx s (l ++ [e])

theorem ite {p : Prop} [Decidable p] {x' : Prog σ α} {y' : Prog (σ × List ε) α} (hx : Erases y x)
    (hx' : Erases y' x') : Erases (if p then y else y') (if p then x else x') := by
  split_ifs
  · exact hx
  · exact hx'

theorem when {p : Prop} [Decidable p] {x : Prog σ Unit} {y : Prog (σ × List ε) Unit}
    (hx : Erases y x) : Erases (Prog.when p y) (Prog.when p x) := hx.ite (.pure ())

theorem discard (hx : Erases y x) : Erases (discard y) (discard x) := by
  simp only [Functor.discard, map_const, Function.comp_apply, map_eq_pure_bind]
  exact hx.bind fun _ => .pure PUnit.unit

theorem forEach {f : ι → Prog σ Unit} {g : ι → Prog (σ × List ε) Unit} (hf : ∀ i, Erases (g i) (f i))
    (is : List ι) : Erases (forEach g is) (forEach f is) := by
  induction is with
  | nil => exact .pure ()
  | cons i is ih => exact (hf i).bind fun _ => ih

/-- **Each run of the program is one with a log.** -/
theorem exists_log (hx : Erases y x) {s s' : σ} {a : α} (hrun : x.run s = some (a, s')) (l : List ε) :
    ∃ l', y.run (s, l) = some (a, (s', l')) := by
  have h := hx s l
  rw [hrun, Option.map_eq_some_iff] at h
  obtain ⟨⟨b, s₁, l'⟩, hy, he⟩ := h
  cases he
  exact ⟨l', hy⟩

theorem run_of_log (hx : Erases y x) {s s' : σ} {a : α} {l l' : List ε}
    (hrun : y.run (s, l) = some (a, (s', l'))) : x.run s = some (a, s') := by
  rw [← hx s l, hrun]
  rfl

end Erases

end Prog
