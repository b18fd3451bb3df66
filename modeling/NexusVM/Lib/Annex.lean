import NexusVM.Lib.Ring
import Mathlib.Data.Set.Basic

/-!
# Closed sets of nodes

* `Links.Closed`: no pointer leads out of a set, and what keeps it so;
* `Ring.mem_of_closed`: a ring through a node of the set stays in it;
* `Links.Annexed`: nodes from outside that were linked in one after the other, whatever the pointers of
  the set are;
* **`Links.Annexed.removeAll`**: unlinking them in the same order makes the set closed again.
-/

namespace DList

variable {ν : Type} [DecidableEq ν] {l : Links ν} {D : Set ν} {e h x : ν} {es xs : List ν}

namespace Links

/-- No pointer leads out of the set. -/
def Closed (l : Links ν) (D : Set ν) : Prop := ∀ x ∈ D, l.next x ∈ D ∧ l.prev x ∈ D

theorem insertBefore_next (l : Links ν) (e h x : ν) :
    (l.insertBefore e h).next x = if x = l.prev h then e else if x = e then h else l.next x := by
  simp only [insertBefore, setNext_next, setPrev_next, setPrev_prev, setNext_prev, ite_self]

theorem insertBefore_prev (l : Links ν) (e h x : ν) :
    (l.insertBefore e h).prev x = if x = h then e else if x = e then l.prev h else l.prev x := by
  simp only [insertBefore, setPrev_prev, setNext_prev]

theorem insertAfter_next (l : Links ν) (e h x : ν) :
    (l.insertAfter e h).next x = if x = h then e else if x = e then l.next h else l.next x := by
  simp only [insertAfter, setNext_next, setPrev_next]

theorem insertAfter_prev (l : Links ν) (e h x : ν) :
    (l.insertAfter e h).prev x = if x = l.next h then e else if x = e then h else l.prev x := by
  simp only [insertAfter, setNext_next, setPrev_next, setPrev_prev, setNext_prev, ite_self]

theorem Closed.insertBefore (hc : l.Closed D) (hh : h ∈ D) : (l.insertBefore e h).Closed (insert e D) := by
  intro x hx
  have hprev : l.prev h ∈ insert e D := .inr (hc h hh).2
  have hold : x ≠ e → l.next x ∈ insert e D ∧ l.prev x ∈ insert e D := fun hne =>
    ⟨.inr (hc x (hx.resolve_left hne)).1, .inr (hc x (hx.resolve_left hne)).2⟩
  rw [insertBefore_next, insertBefore_prev]
  constructor
  · split_ifs with hp he
    · exact .inl rfl
    · exact .inr hh
    · exact (hold he).1
  · split_ifs with hxh he
    · exact .inl rfl
    · exact hprev
    · exact (hold he).2

theorem Closed.insertAfter (hc : l.Closed D) (hh : h ∈ D) : (l.insertAfter e h).Closed (insert e D) := by
  intro x hx
  have hnext : l.next h ∈ insert e D := .inr (hc h hh).1
  have hold : x ≠ e → l.next x ∈ insert e D ∧ l.prev x ∈ insert e D := fun hne =>
    ⟨.inr (hc x (hx.resolve_left hne)).1, .inr (hc x (hx.resolve_left hne)).2⟩
  rw [insertAfter_next, insertAfter_prev]
  constructor
  · split_ifs with hxh he
    · exact .inl rfl
    · exact hnext
    · exact (hold he).1
  · split_ifs with hn he
    · exact .inl rfl
    · exact .inr hh
    · exact (hold he).2

theorem Closed.remove (hc : l.Closed D) (he : e ∈ D) : (l.remove e).Closed D := by
  intro x hx
  rw [remove_next, remove_prev]
  obtain ⟨hn, hp⟩ := hc x hx
  obtain ⟨hne, hpe⟩ := hc e he
  split_ifs <;> exact ⟨by assumption, by assumption⟩

theorem Closed.removeAll (hc : l.Closed D) (hes : ∀ e ∈ es, e ∈ D) :
    (es.foldl Links.remove l).Closed D := by
  induction es generalizing l with
  | nil => exact hc
  | cons e es ih =>
    obtain ⟨he, hes⟩ := List.forall_mem_cons.mp hes
    exact ih (hc.remove he) hes

/-- The nodes `es` do not belong to `D`, were linked in before nodes of `D`, each after those before it
in the list, and nothing was unlinked since. -/
structure Annexed (l : Links ν) (D : Set ν) (es : List ν) : Prop where
  closed : ∀ x, x ∈ D ∨ x ∈ es → (l.next x ∈ D ∨ l.next x ∈ es) ∧ (l.prev x ∈ D ∨ l.prev x ∈ es)
  outside : ∀ e ∈ es, e ∉ D
  nodup : es.Nodup
  next_eq : ∀ e ∈ es, ∀ x, x ∈ D ∨ x ∈ es → l.next x = e → l.prev e = x
  prev_eq : ∀ e ∈ es, ∀ x, x ∈ D ∨ x ∈ es → l.prev x = e → l.next e = x
  irrefl : ∀ e ∈ es, l.next e ≠ e ∧ l.prev e ≠ e
  order : es.Pairwise fun a b => l.next b ≠ a ∧ l.prev a ≠ b

omit [DecidableEq ν] in
theorem annexed_nil : l.Annexed D [] ↔ l.Closed D := by
  refine ⟨fun ha x hx => ?_, fun hc => ⟨fun x hx => ?_, by simp, by simp, by simp, by simp, by simp, by simp⟩⟩
  · simpa using ha.closed x (.inl hx)
  · simpa using hc x (by simpa using hx)

theorem Annexed.insertBefore (ha : l.Annexed D es) (hh : h ∈ D) (heD : e ∉ D) (hes : e ∉ es) :
    (l.insertBefore e h).Annexed D (es ++ [e]) := by
  have hmem : ∀ x, x ∈ es ++ [e] ↔ x ∈ es ∨ x = e := fun x => by
    rw [List.mem_append, List.mem_singleton]
  obtain ⟨-, hprev⟩ := ha.closed h (.inl hh)
  have hpe : l.prev h ≠ e := by
    intro hc
    rw [hc] at hprev
    exact hprev.elim heD hes
  -- nobody points to the new node yet
  have hnew : ∀ x, x ∈ D ∨ x ∈ es → l.next x ≠ e ∧ l.prev x ≠ e := fun x hx => by
    obtain ⟨hn, hp⟩ := ha.closed x hx
    grind
  refine ⟨fun x hx => ?_, fun x hx => ?_, ?_, fun f hf x hx => ?_, fun f hf x hx => ?_, fun f hf => ?_, ?_⟩
  · rw [insertBefore_next, insertBefore_prev]
    have := ha.closed x
    grind
  · have := ha.outside x
    grind
  · exact List.nodup_append.mpr ⟨ha.nodup, List.nodup_singleton e, by grind⟩
  · rw [insertBefore_next, insertBefore_prev]
    have := ha.next_eq f
    have := ha.outside f
    grind
  · rw [insertBefore_next, insertBefore_prev]
    have := ha.prev_eq f
    have := ha.outside f
    grind
  · rw [insertBefore_next, insertBefore_prev]
    have := ha.irrefl f
    have := ha.outside f
    grind
  · refine List.pairwise_append.mpr ⟨ha.order.imp_of_mem ?_, List.pairwise_singleton _ e, ?_⟩
    · intro f g hf hg hfg
      rw [insertBefore_next, insertBefore_prev]
      have := ha.outside f
      grind
    · intro f hf g hg
      rw [insertBefore_next, insertBefore_prev]
      have := hnew f (.inr hf)
      have := ha.outside f
      grind

theorem Annexed.remove (ha : l.Annexed D (e :: es)) : (l.remove e).Annexed D es := by
  obtain ⟨hes, hnodup⟩ := List.nodup_cons.mp ha.nodup
  obtain ⟨horder, hrest⟩ := List.pairwise_cons.mp ha.order
  have heD : e ∉ D := ha.outside e List.mem_cons_self
  obtain ⟨hne, hpe⟩ := ha.irrefl e List.mem_cons_self
  obtain ⟨hnext, hprev⟩ := ha.closed e (.inr List.mem_cons_self)
  -- what it was linked in behind is no node that came later
  have hp : l.prev e ∈ D := by
    rcases hprev with hp | hp
    · exact hp
    · rcases List.mem_cons.mp hp with hp | hp
      · exact absurd hp hpe
      · exact absurd rfl (horder _ hp).2
  have hnextE := ha.next_eq e List.mem_cons_self
  have hprevE := ha.prev_eq e List.mem_cons_self
  refine ⟨fun x hx => ?_, fun x hx => ha.outside x (List.mem_cons_of_mem _ hx), hnodup,
    fun f hf x hx => ?_, fun f hf x hx => ?_, fun f hf => ?_, hrest.imp_of_mem ?_⟩
  · rw [remove_next, remove_prev]
    have := ha.closed x
    grind
  · rw [remove_next, remove_prev]
    have := ha.next_eq f (List.mem_cons_of_mem _ hf)
    grind
  · rw [remove_next, remove_prev]
    have := ha.prev_eq f (List.mem_cons_of_mem _ hf)
    have := ha.outside f (List.mem_cons_of_mem _ hf)
    grind
  · rw [remove_next, remove_prev]
    have := ha.irrefl f (List.mem_cons_of_mem _ hf)
    have := ha.outside f (List.mem_cons_of_mem _ hf)
    grind
  · intro f g hf hg hfg
    rw [remove_next, remove_prev]
    have := ha.outside f (List.mem_cons_of_mem _ hf)
    have := ha.outside g (List.mem_cons_of_mem _ hg)
    grind

/-- **If they are unlinked in the order in which they were linked in, no pointer leads out of the set any
more.** -/
theorem Annexed.removeAll (ha : l.Annexed D es) : (es.foldl Links.remove l).Closed D := by
  induction es generalizing l with
  | nil => exact annexed_nil.mp ha
  | cons e es ih => exact ih ha.remove

end Links

omit [DecidableEq ν] in
theorem Linked.mem_of_closed (hl : Linked l (h :: xs)) (hc : l.Closed D) (hh : h ∈ D) : ∀ x ∈ xs, x ∈ D := by
  induction xs generalizing h with
  | nil => simp
  | cons x xs ih =>
    rw [Linked, List.isChain_cons_cons] at hl
    have hx : x ∈ D := hl.1.1 ▸ (hc h hh).1
    exact List.forall_mem_cons.mpr ⟨hx, ih hl.2 hx⟩

omit [DecidableEq ν] in
theorem Ring.mem_of_closed (hr : Ring l h xs) (hc : l.Closed D) (hh : h ∈ D) : ∀ x ∈ xs, x ∈ D :=
  Linked.mem_of_closed (List.isChain_append.mp hr.linked).1 hc hh

end DList
