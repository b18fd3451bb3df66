import NexusVM.Lib.Annex

/-!
# Unlinking a node that is not linked in

A node that was unlinked keeps its pointers. Unlinking it once more stores them in what were its neighbours.

* `Ring.agree`, **`Ring.congr_iff`**: a ring determines the pointers of its nodes;
* `Links.Stays`: the stores to some nodes change nothing;
* **`Ring.remove_stale_iff`**, `Ring.append_stale_iff`, `Ring.push_stale_iff`: when a ring survives that such
  a node is unlinked, and linked in after that.
-/

namespace DList

variable {ν : Type} {l l' : Links ν} {e h : ν} {xs : List ν}

theorem Linked.agree {a b : ν} (hl : Linked l (a :: xs ++ [b])) (hl' : Linked l' (a :: xs ++ [b])) :
    (∀ x ∈ a :: xs, l'.next x = l.next x) ∧ ∀ x ∈ xs ++ [b], l'.prev x = l.prev x := by
  induction xs generalizing a with
  | nil =>
    rw [List.cons_append, List.nil_append, Linked, List.isChain_cons_cons] at hl hl'
    constructor
    · intro x hx
      rw [List.mem_singleton.mp hx, hl.1.1, hl'.1.1]
    · intro x hx
      rw [List.nil_append, List.mem_singleton] at hx
      rw [hx, hl.1.2, hl'.1.2]
  | cons y ys ih =>
    rw [List.cons_append, List.cons_append, Linked, List.isChain_cons_cons] at hl hl'
    obtain ⟨hn, hp⟩ := ih hl.2 hl'.2
    constructor
    · intro x hx
      rcases List.mem_cons.mp hx with rfl | hx
      · rw [hl.1.1, hl'.1.1]
      · exact hn x hx
    · intro x hx
      rw [List.cons_append] at hx
      rcases List.mem_cons.mp hx with rfl | hx
      · rw [hl.1.2, hl'.1.2]
      · exact hp x hx

theorem Ring.agree (hr : Ring l h xs) (hr' : Ring l' h xs) :
    ∀ a ∈ h :: xs, l'.next a = l.next a ∧ l'.prev a = l.prev a := by
  obtain ⟨hn, hp⟩ := hr.linked.agree hr'.linked
  exact fun a ha => ⟨hn a ha, hp a (by simpa [or_comm] using ha)⟩

/-- **A ring is one with other pointers** just if those of its nodes are the same. -/
theorem Ring.congr_iff (hr : Ring l h xs) :
    Ring l' h xs ↔ ∀ a ∈ h :: xs, l'.next a = l.next a ∧ l'.prev a = l.prev a :=
  ⟨hr.agree, fun hall => hr.congr (fun a ha => (hall a ha).1) fun a ha => (hall a ha).2⟩

/-- Unlinking `e` changes neither a `next` pointer of a node of `ns` nor a `prev` pointer of one of `ps`. -/
def Links.Stays (l : Links ν) (e : ν) (ns ps : List ν) : Prop :=
  (l.prev e ∈ ns → l.next (l.prev e) = l.next e) ∧ (l.next e ∈ ps → l.prev (l.next e) = l.prev e)

variable [DecidableEq ν]

instance (l : Links ν) (e : ν) (ns ps : List ν) : Decidable (l.Stays e ns ps) := by
  unfold Links.Stays
  infer_instance

/-- **A node that is not in the ring is unlinked.** -/
theorem Ring.remove_stale_iff (hr : Ring l h xs) :
    Ring (l.remove e) h xs ↔ l.Stays e (h :: xs) (h :: xs) := by
  rw [hr.congr_iff]
  simp only [Links.remove_next, Links.remove_prev]
  constructor
  · intro hall
    refine ⟨fun hp => ?_, fun hn => ?_⟩
    · have := (hall _ hp).1
      rw [if_pos rfl] at this
      exact this.symm
    · have := (hall _ hn).2
      rw [if_pos rfl] at this
      exact this.symm
  · rintro ⟨hp, hn⟩ a ha
    constructor
    · split_ifs with hap
      · subst hap
        exact (hp ha).symm
      · rfl
    · split_ifs with han
      · subst han
        exact (hn ha).symm
      · rfl

/-- **It is unlinked and then linked in at the end**, which overwrites the pointer of the last node. -/
theorem Ring.append_stale_iff (hr : Ring l h xs) (he : e ∉ h :: xs) :
    Ring ((l.remove e).insertBefore e h) h (xs ++ [e]) ↔
      l.Stays e ((h :: xs).erase (l.prev h)) (h :: xs) := by
  have hlast := hr.prev_head_mem
  have hmem : ∀ a, a ∈ (h :: xs).erase (l.prev h) ↔ a ≠ l.prev h ∧ a ∈ h :: xs := fun a =>
    hr.nodup.mem_erase_iff
  have hnew : ∀ a, a ∈ h :: (xs ++ [e]) ↔ a ∈ h :: xs ∨ a = e := fun a => by simp [or_assoc]
  have hhead : h ∈ h :: xs := List.mem_cons_self
  rw [(hr.insertBefore he).congr_iff, Links.Stays]
  simp only [Links.insertBefore_next, Links.insertBefore_prev, Links.remove_next, Links.remove_prev, hmem, hnew]
  generalize h :: xs = ring at he hlast hhead
  constructor
  · intro hall
    have hself := hall e (.inr rfl)
    refine ⟨fun ⟨hne, hp⟩ => ?_, fun hn => ?_⟩
    · have := hall _ (.inl hp)
      grind
    · have := hall _ (.inl hn)
      grind
  · rintro ⟨hp, hn⟩ a ha
    grind

/-- **It is unlinked and then linked in at the front**, which overwrites the pointer of the first node. -/
theorem Ring.push_stale_iff (hr : Ring l h xs) (he : e ∉ h :: xs) :
    Ring ((l.remove e).insertAfter e h) h (e :: xs) ↔
      l.Stays e (h :: xs) ((h :: xs).erase (l.next h)) := by
  have hfirst := hr.next_head_mem
  have hmem : ∀ a, a ∈ (h :: xs).erase (l.next h) ↔ a ≠ l.next h ∧ a ∈ h :: xs := fun a =>
    hr.nodup.mem_erase_iff
  have hnew : ∀ a, a ∈ h :: e :: xs ↔ a ∈ h :: xs ∨ a = e := fun a => by
    simp only [List.mem_cons]
    tauto
  have hhead : h ∈ h :: xs := List.mem_cons_self
  rw [(hr.insertAfter he).congr_iff, Links.Stays]
  simp only [Links.insertAfter_next, Links.insertAfter_prev, Links.remove_next, Links.remove_prev, hmem, hnew]
  generalize h :: xs = ring at he hfirst hhead
  constructor
  · intro hall
    have hself := hall e (.inr rfl)
    refine ⟨fun hp => ?_, fun ⟨hne, hn⟩ => ?_⟩
    · have := hall _ (.inl hp)
      grind
    · have := hall _ (.inl hn)
      grind
  · rintro ⟨hp, hn⟩ a ha
    grind

end DList
