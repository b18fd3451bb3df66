import Mathlib.Data.List.Chain
import Mathlib.Data.List.Nodup
import Mathlib.Logic.Function.Basic

/-!
# Circular doubly linked lists

Nodes carry a `next` and a `prev` pointer; a *ring* through a head `h` is the circular list
`h, x₁, …, xₙ, h` in which both pointers agree.

* `Links`, `insertBefore`, `insertAfter`, `remove`: the pointer operations, one store at a time;
* `Ring`, `Ring.insertBefore`, `Ring.insertAfter`, `Ring.remove`: what they do to a ring, and
  `Ring.congr`: a ring only depends on the pointers of its own nodes;
* **`Ring.inverse`**: the two pointers are inverse to each other;
* `Links.walk`, **`Ring.walk`**: following `next` from the head visits the elements and ends;
* `Rings`, `Rings.insertBefore`, **`Rings.remove`**, `Rings.removeAll`: families of rings without a
  common node.
-/

namespace DList

variable {ν : Type} [DecidableEq ν]

/-- The pointers of all nodes. -/
structure Links (ν : Type) where
  next : ν → ν
  prev : ν → ν

namespace Links

/-- Store `b` in the `next` pointer of `a`. -/
def setNext (l : Links ν) (a b : ν) : Links ν := { l with next := Function.update l.next a b }

/-- Store `b` in the `prev` pointer of `a`. -/
def setPrev (l : Links ν) (a b : ν) : Links ν := { l with prev := Function.update l.prev a b }

@[simp] theorem setNext_prev (l : Links ν) (a b : ν) : (l.setNext a b).prev = l.prev := rfl
@[simp] theorem setPrev_next (l : Links ν) (a b : ν) : (l.setPrev a b).next = l.next := rfl

@[simp] theorem setNext_next (l : Links ν) (a b c : ν) :
    (l.setNext a b).next c = if c = a then b else l.next c := by
  simp [setNext, Function.update_apply]

@[simp] theorem setPrev_prev (l : Links ν) (a b c : ν) :
    (l.setPrev a b).prev c = if c = a then b else l.prev c := by
  simp [setPrev, Function.update_apply]

/-- Link `e` in before `h`. -/
def insertBefore (l : Links ν) (e h : ν) : Links ν :=
  let l := l.setNext e h
  let l := l.setPrev e (l.prev h)
  let l := l.setNext (l.prev h) e
  l.setPrev h e

/-- Link `e` in after `h`. -/
def insertAfter (l : Links ν) (e h : ν) : Links ν :=
  let l := l.setNext e (l.next h)
  let l := l.setPrev e h
  let l := l.setPrev (l.next h) e
  l.setNext h e

/-- Unlink `e` from its two neighbours; the pointers of `e` itself stay. -/
def remove (l : Links ν) (e : ν) : Links ν :=
  let l := l.setNext (l.prev e) (l.next e)
  l.setPrev (l.next e) (l.prev e)

/-- The nodes met on the way from `pos` to `h`, within `fuel` steps. -/
def walk (l : Links ν) (h : ν) : ℕ → ν → Option (List ν)
  | 0, _ => none
  | fuel + 1, pos =>
    if pos = h then some [] else (walk l h fuel (l.next pos)).map fun xs => pos :: xs

theorem insertBefore_next_of_ne (l : Links ν) {e h a : ν} (hh : e ≠ h) (he : a ≠ e)
    (hp : a ≠ l.prev h) : (l.insertBefore e h).next a = l.next a := by
  simp [insertBefore, he, hp, hh.symm]

theorem insertBefore_prev_of_ne (l : Links ν) {e h a : ν} (he : a ≠ e) (hh : a ≠ h) :
    (l.insertBefore e h).prev a = l.prev a := by
  simp [insertBefore, he, hh]

theorem insertAfter_next_of_ne (l : Links ν) {e h a : ν} (he : a ≠ e) (hh : a ≠ h) :
    (l.insertAfter e h).next a = l.next a := by
  simp [insertAfter, he, hh]

theorem insertAfter_prev_of_ne (l : Links ν) {e h a : ν} (hh : e ≠ h) (he : a ≠ e)
    (hn : a ≠ l.next h) : (l.insertAfter e h).prev a = l.prev a := by
  simp [insertAfter, he, hn, hh.symm]

theorem remove_next (l : Links ν) (e a : ν) :
    (l.remove e).next a = if a = l.prev e then l.next e else l.next a := by
  simp [remove]

theorem remove_prev (l : Links ν) (e a : ν) :
    (l.remove e).prev a = if a = l.next e then l.prev e else l.prev a := by
  simp [remove]

end Links

/-! ## Chains of pointers -/

/-- Consecutive nodes of the list point at each other. -/
def Linked (l : Links ν) (xs : List ν) : Prop :=
  xs.IsChain fun a b => l.next a = b ∧ l.prev b = a

omit [DecidableEq ν] in
/-- **Frame rule.** A chain only depends on the `next` pointers of all its nodes but the last and
the `prev` pointers of all its nodes but the first. -/
theorem Linked.congr {l l' : Links ν} {xs : List ν} (h : Linked l xs)
    (hn : ∀ a ∈ xs.dropLast, l'.next a = l.next a) (hp : ∀ b ∈ xs.tail, l'.prev b = l.prev b) :
    Linked l' xs := by
  unfold Linked at h ⊢
  induction xs with
  | nil => exact List.isChain_nil
  | cons a xs ih =>
    cases xs with
    | nil => exact List.isChain_singleton a
    | cons b xs =>
      rw [List.isChain_cons_cons] at h ⊢
      refine ⟨⟨?_, ?_⟩, ih h.2 (fun c hc => hn c ?_) fun c hc => hp c ?_⟩
      · rw [hn a (by simp), h.1.1]
      · rw [hp b (by simp), h.1.2]
      · rw [List.dropLast_cons_of_ne_nil (by simp)]
        exact List.mem_cons_of_mem _ hc
      · exact List.mem_cons_of_mem _ hc

omit [DecidableEq ν] in
theorem linked_split (l : Links ν) (as : List ν) (p q : ν) (bs : List ν) :
    Linked l (as ++ p :: q :: bs) ↔
      Linked l (as ++ [p]) ∧ (l.next p = q ∧ l.prev q = p) ∧ Linked l (q :: bs) :=
  List.isChain_append_cons_cons

/-! ## Rings -/

/-- The circular list through the head `h` with the elements `xs`. -/
structure Ring (l : Links ν) (h : ν) (xs : List ν) : Prop where
  linked : Linked l (h :: xs ++ [h])
  nodup : (h :: xs).Nodup

variable {l l' : Links ν} {h : ν} {xs ys : List ν}

omit [DecidableEq ν] in
theorem ring_nil : Ring l h [] ↔ l.next h = h ∧ l.prev h = h := by
  constructor
  · rintro ⟨hl, -⟩
    simpa [Linked] using hl
  · intro hl
    exact ⟨by simpa [Linked] using hl, List.nodup_singleton h⟩

omit [DecidableEq ν] in
theorem Ring.congr (hr : Ring l h xs) (hn : ∀ a ∈ h :: xs, l'.next a = l.next a)
    (hp : ∀ a ∈ h :: xs, l'.prev a = l.prev a) : Ring l' h xs := by
  refine ⟨hr.linked.congr (fun a ha => hn a ?_) (fun b hb => hp b ?_), hr.nodup⟩
  · rwa [List.dropLast_concat] at ha
  · simpa [or_comm] using hb

omit [DecidableEq ν] in
theorem Ring.exists_last (hr : Ring l h xs) : ∃ as p, h :: xs = as ++ [p] ∧ l.prev h = p := by
  obtain ⟨as, p, hp⟩ := List.eq_nil_or_concat'  (h :: xs) |>.resolve_left (by simp)
  refine ⟨as, p, hp, ?_⟩
  have hl := hr.linked
  rw [hp, List.append_assoc, List.singleton_append, linked_split] at hl
  exact hl.2.1.2

omit [DecidableEq ν] in
theorem Ring.prev_head_mem (hr : Ring l h xs) : l.prev h ∈ h :: xs := by
  obtain ⟨as, p, hp, rfl⟩ := hr.exists_last
  rw [hp]
  exact List.mem_append_right _ (List.mem_singleton_self _)

omit [DecidableEq ν] in
theorem Ring.next_head (hr : Ring l h xs) : l.next h = xs.headD h := by
  have hl := hr.linked
  cases xs with
  | nil => exact (ring_nil.mp hr).1
  | cons x xs => exact ((linked_split l [] h x (xs ++ [h])).mp hl).2.1.1

omit [DecidableEq ν] in
theorem Ring.next_head_mem (hr : Ring l h xs) : l.next h ∈ h :: xs := by
  rw [hr.next_head]
  cases xs <;> simp

/-- **Inserting before the head appends.** -/
theorem Ring.insertBefore {e : ν} (hr : Ring l h xs) (he : e ∉ h :: xs) :
    Ring (l.insertBefore e h) h (xs ++ [e]) := by
  obtain ⟨as, p, hap, hph⟩ := hr.exists_last
  have hnd := hr.nodup
  have heh : e ≠ h := fun hc => he (hc ▸ List.mem_cons_self)
  have hep : e ≠ p := fun hc => he (by rw [hap, hc]; simp)
  have hpas : p ∉ as := by
    rw [hap] at hnd
    exact fun hc => (List.nodup_append.mp hnd).2.2 p hc p (List.mem_singleton_self p) rfl
  have hold : Linked l (as ++ [p]) := by
    have hl := hr.linked
    rw [hap, List.append_assoc, List.singleton_append, linked_split] at hl
    exact hl.1
  refine ⟨?_, ?_⟩
  · rw [show h :: (xs ++ [e]) ++ [h] = as ++ p :: e :: [h] by
      rw [← List.cons_append, hap]; simp, linked_split]
    refine ⟨hold.congr (fun a ha => ?_) (fun b hb => ?_), ⟨?_, ?_⟩, ?_⟩
    · -- the sources are the nodes before `p`
      rw [List.dropLast_concat] at ha
      refine l.insertBefore_next_of_ne heh (fun hc => he ?_) fun hc => hpas ?_
      · rw [hap, ← hc]; exact List.mem_append_left _ ha
      · rw [← hph, ← hc]; exact ha
    · -- the targets are the elements, so neither `e` nor the head
      rw [← hap, List.tail_cons] at hb
      refine l.insertBefore_prev_of_ne (fun hc => he ?_) fun hc => ?_
      · rw [← hc]; exact List.mem_cons_of_mem _ hb
      · exact (List.nodup_cons.mp hnd).1 (hc ▸ hb)
    · simp [Links.insertBefore, heh.symm, hph]
    · simp [Links.insertBefore, heh, hph, heh.symm]
    · simp [Linked, Links.insertBefore, hph, hep]
  · rw [← List.cons_append]
    exact List.nodup_append.mpr ⟨hnd, List.nodup_singleton e, fun a ha b hb hc => he (by
      rw [List.mem_singleton] at hb; rw [← hb, ← hc]; exact ha)⟩

/-- **Inserting after the head prepends.** -/
theorem Ring.insertAfter {e : ν} (hr : Ring l h xs) (he : e ∉ h :: xs) :
    Ring (l.insertAfter e h) h (e :: xs) := by
  have hnd := hr.nodup
  have heh : e ≠ h := fun hc => he (hc ▸ List.mem_cons_self)
  -- the successor of the head is the first element, or the head itself
  obtain ⟨q, bs, hq⟩ : ∃ q bs, xs ++ [h] = q :: bs :=
    ⟨_, _, (List.cons_head_tail (by simp : xs ++ [h] ≠ [])).symm⟩
  have hl := hr.linked
  rw [List.cons_append, hq] at hl
  obtain ⟨-, ⟨hnq, hqh⟩, hrest⟩ := (linked_split l [] h q bs).mp hl
  have hqmem : q ∈ h :: xs := by rw [← hnq]; exact hr.next_head_mem
  have heq : e ≠ q := fun hc => he (hc ▸ hqmem)
  have htgt : ∀ b ∈ bs, b ≠ q := by
    intro b hb hc
    subst hc
    cases xs with
    | nil => rw [List.nil_append] at hq; cases hq; cases hb
    | cons x xs =>
      cases hq
      rcases List.mem_append.mp hb with hb | hb
      · exact (List.nodup_cons.mp (List.nodup_cons.mp hnd).2).1 hb
      · rw [List.mem_singleton] at hb
        exact (List.nodup_cons.mp hnd).1 (hb ▸ List.mem_cons_self)
  have hsub : ∀ b ∈ q :: bs, b ∈ h :: xs := by
    intro b hb
    rw [← hq] at hb
    simpa [or_comm] using hb
  have hsrc : ∀ a ∈ (q :: bs).dropLast, a ≠ h := by
    intro a ha hc
    rw [← hq, List.dropLast_concat] at ha
    exact (List.nodup_cons.mp hnd).1 (hc ▸ ha)
  refine ⟨?_, ?_⟩
  · rw [List.cons_append, List.cons_append, hq, ← List.nil_append (h :: e :: q :: bs),
      linked_split, ← List.nil_append (e :: q :: bs), linked_split]
    refine ⟨List.isChain_singleton h, ⟨?_, ?_⟩, List.isChain_singleton e, ⟨?_, ?_⟩,
      hrest.congr (fun a ha => ?_) fun b hb => ?_⟩
    · simp [Links.insertAfter]
    · simp [Links.insertAfter, heh.symm, hnq, heq]
    · simp [Links.insertAfter, heh, hnq]
    · simp [Links.insertAfter, heh.symm, hnq]
    · refine l.insertAfter_next_of_ne (fun hc => he ?_) (hsrc a ha)
      rw [← hc]
      exact hsub a (List.dropLast_subset _ ha)
    · rw [List.tail_cons] at hb
      refine l.insertAfter_prev_of_ne heh (fun hc => he ?_) (hnq ▸ htgt b hb)
      rw [← hc]
      exact hsub b (List.mem_cons_of_mem _ hb)
  · rw [List.nodup_cons] at hnd ⊢
    simp only [List.mem_cons, not_or] at he ⊢
    exact ⟨⟨Ne.symm he.1, hnd.1⟩, List.nodup_cons.mpr ⟨he.2, hnd.2⟩⟩

/-- **Removing an element takes it out.** -/
theorem Ring.remove {e : ν} (hr : Ring l h (xs ++ e :: ys)) : Ring (l.remove e) h (xs ++ ys) := by
  have hnd := hr.nodup
  obtain ⟨as, p, hap⟩ := List.eq_nil_or_concat' (h :: xs) |>.resolve_left (by simp)
  obtain ⟨q, bs, hqb⟩ : ∃ q bs, ys ++ [h] = q :: bs :=
    ⟨_, _, (List.cons_head_tail (by simp : ys ++ [h] ≠ [])).symm⟩
  have hsplit : h :: (xs ++ e :: ys) ++ [h] = as ++ p :: e :: q :: bs := by
    rw [← List.cons_append, hap, List.append_assoc, List.append_assoc, List.cons_append,
      List.cons_append, hqb]
    rfl
  have hl := hr.linked
  rw [hsplit, linked_split, ← List.nil_append (e :: q :: bs), linked_split] at hl
  obtain ⟨hfront, ⟨hpe, hep⟩, -, ⟨heq, hqe⟩, hback⟩ := hl
  have hndall : (as ++ [p] ++ e :: ys).Nodup := by rw [← hap]; exact hnd
  obtain ⟨hnd₁, hnd₂, hdis⟩ := List.nodup_append.mp hndall
  have hpas : p ∉ as := fun hc =>
    (List.nodup_append.mp hnd₁).2.2 p hc p (List.mem_singleton_self p) rfl
  have hx : ∀ a, a ∈ as ++ [p] ↔ a ∈ h :: xs := fun a => by rw [hap]
  have hys : ∀ a ∈ ys, a ∉ h :: xs := fun a ha hc =>
    hdis a ((hx a).mpr hc) a (List.mem_cons_of_mem _ ha) rfl
  have hq : q = h ∧ ys = [] ∧ bs = [] ∨ ∃ zs, ys = q :: zs ∧ bs = zs ++ [h] := by
    cases ys with
    | nil => rw [List.nil_append] at hqb; cases hqb; exact .inl ⟨rfl, rfl, rfl⟩
    | cons y zs => cases hqb; exact .inr ⟨zs, rfl, rfl⟩
  have hhx : h ∉ xs := fun hc => (List.nodup_cons.mp hnd).1 (List.mem_append_left _ hc)
  refine ⟨?_, ?_⟩
  · rw [show h :: (xs ++ ys) ++ [h] = as ++ p :: q :: bs by
      rw [← List.cons_append, hap, List.append_assoc, List.append_assoc, hqb]; rfl, linked_split]
    refine ⟨hfront.congr (fun a ha => ?_) (fun b hb => ?_), ⟨?_, ?_⟩,
      hback.congr (fun a ha => ?_) fun b hb => ?_⟩
    · rw [List.dropLast_concat] at ha
      rw [l.remove_next, hep, if_neg fun hc : a = p => hpas (hc ▸ ha)]
    · -- a target before `p` is an element of `xs`, so it is not `q`
      rw [← hap, List.tail_cons] at hb
      have hbq : b ≠ q := by
        rintro rfl
        rcases hq with ⟨rfl, -, -⟩ | ⟨zs, rfl, -⟩
        · exact hhx hb
        · exact hys _ List.mem_cons_self (List.mem_cons_of_mem _ hb)
      rw [l.remove_prev, heq, if_neg hbq]
    · rw [l.remove_next, hep, heq, if_pos rfl]
    · rw [l.remove_prev, hep, heq, if_pos rfl]
    · -- a source after `q` is an element of `ys`, so it is not `p`
      rw [l.remove_next, hep, if_neg]
      rintro rfl
      rcases hq with ⟨rfl, -, rfl⟩ | ⟨zs, rfl, rfl⟩
      · cases ha
      · rw [← List.cons_append, List.dropLast_concat] at ha
        exact hys _ ha ((hx _).mp (List.mem_append_right _ (List.mem_singleton_self _)))
    · rw [List.tail_cons] at hb
      have hbq : b ≠ q := by
        rintro rfl
        rcases hq with ⟨rfl, -, rfl⟩ | ⟨zs, rfl, rfl⟩
        · cases hb
        · rcases List.mem_append.mp hb with hb | hb
          · exact (List.nodup_cons.mp (List.nodup_cons.mp hnd₂).2).1 hb
          · rw [List.mem_singleton] at hb
            exact hys _ List.mem_cons_self (hb ▸ List.mem_cons_self)
      rw [l.remove_prev, heq, if_neg hbq]
  · rw [← List.cons_append] at hnd ⊢
    exact hnd.sublist (List.Sublist.append_left (List.sublist_cons_self e ys) _)

theorem Ring.erase {e : ν} (hr : Ring l h xs) (he : e ∈ xs) : Ring (l.remove e) h (xs.erase e) := by
  have hnd : xs.Nodup := (List.nodup_cons.mp hr.nodup).2
  obtain ⟨ys, zs, rfl⟩ := List.append_of_mem he
  have hys : e ∉ ys := fun hc => (List.nodup_append.mp hnd).2.2 e hc e List.mem_cons_self rfl
  rw [List.erase_append_right _ hys, List.erase_cons_head]
  exact hr.remove

omit [DecidableEq ν] in
theorem Ring.head_notMem (hr : Ring l h xs) : h ∉ xs := (List.nodup_cons.mp hr.nodup).1

omit [DecidableEq ν] in
theorem Ring.neighbours {e : ν} (hr : Ring l h (xs ++ e :: ys)) :
    l.next e ∈ ys ++ [h] ∧ l.prev e ∈ h :: xs := by
  obtain ⟨ps, p, hap⟩ := List.eq_nil_or_concat' (h :: xs) |>.resolve_left (by simp)
  obtain ⟨q, qs, hqb⟩ : ∃ q qs, ys ++ [h] = q :: qs :=
    ⟨_, _, (List.cons_head_tail (by simp : ys ++ [h] ≠ [])).symm⟩
  have hl := hr.linked
  rw [← List.cons_append, hap, List.append_assoc, List.append_assoc, List.cons_append,
    List.cons_append, hqb, List.nil_append, linked_split, ← List.nil_append (e :: q :: qs),
    linked_split] at hl
  obtain ⟨-, ⟨-, hep⟩, -, ⟨heq, -⟩, -⟩ := hl
  rw [heq, hep, hqb, hap]
  exact ⟨List.mem_cons_self, List.mem_append_right _ (List.mem_singleton_self p)⟩

omit [DecidableEq ν] in
theorem Ring.neighbours_mem {e : ν} (hr : Ring l h xs) (he : e ∈ xs) :
    l.next e ∈ h :: xs ∧ l.prev e ∈ h :: xs := by
  obtain ⟨as, bs, rfl⟩ := List.append_of_mem he
  obtain ⟨hn, hp⟩ := hr.neighbours
  simp only [List.mem_append, List.mem_cons, List.not_mem_nil, or_false] at hn hp ⊢
  tauto

omit [DecidableEq ν] in
/-- **The two pointers are inverse to each other.** -/
theorem Ring.inverse {a : ν} (hr : Ring l h xs) (ha : a ∈ h :: xs) :
    l.prev (l.next a) = a ∧ l.next (l.prev a) = a := by
  have hl := hr.linked
  constructor
  · -- there is a node behind it
    obtain ⟨as, bs, hsplit⟩ := List.append_of_mem ha
    obtain ⟨b, bs', hbs⟩ : ∃ b bs', bs ++ [h] = b :: bs' :=
      ⟨_, _, (List.cons_head_tail (by simp : bs ++ [h] ≠ [])).symm⟩
    rw [hsplit, List.append_assoc, List.cons_append, hbs, linked_split] at hl
    obtain ⟨-, ⟨hnext, hprev⟩, -⟩ := hl
    rw [hnext, hprev]
  · -- there is a node before it
    have ha' : a ∈ xs ++ [h] := by simpa [or_comm] using ha
    obtain ⟨as, bs, hsplit⟩ := List.append_of_mem ha'
    obtain ⟨ps, p, hps⟩ := List.eq_nil_or_concat' (h :: as) |>.resolve_left (by simp)
    rw [List.cons_append, hsplit, ← List.cons_append, hps, List.append_assoc, List.singleton_append,
      linked_split] at hl
    obtain ⟨-, ⟨hnext, hprev⟩, -⟩ := hl
    rw [hprev, hnext]

/-! ## Walking a ring -/

theorem walk_of_linked (hl : Linked l (xs ++ [h])) (hh : h ∉ xs) {fuel : ℕ}
    (hf : xs.length < fuel) : l.walk h fuel (xs.headD h) = some xs := by
  induction xs generalizing fuel with
  | nil =>
    obtain ⟨fuel, rfl⟩ : ∃ k, fuel = k + 1 := ⟨fuel - 1, by simp at hf; omega⟩
    simp [Links.walk]
  | cons x xs ih =>
    obtain ⟨fuel, rfl⟩ : ∃ k, fuel = k + 1 := ⟨fuel - 1, by simp at hf; omega⟩
    have hnext : l.next x = xs.headD h := by
      cases xs with
      | nil => exact ((linked_split l [] x h []).mp hl).2.1.1
      | cons y ys => exact ((linked_split l [] x y (ys ++ [h])).mp hl).2.1.1
    have hl' : Linked l (xs ++ [h]) := List.IsChain.tail hl
    simp only [List.mem_cons, not_or] at hh
    rw [List.headD_cons, Links.walk, if_neg (Ne.symm hh.1), hnext,
      ih hl' hh.2 (by simp at hf; omega)]
    rfl

/-- **Following `next` from the head visits exactly the elements, in order, and ends.** -/
theorem Ring.walk (hr : Ring l h xs) {fuel : ℕ} (hf : xs.length < fuel) :
    l.walk h fuel (l.next h) = some xs := by
  rw [hr.next_head]
  refine walk_of_linked ?_ hr.head_notMem hf
  have := hr.linked
  exact List.IsChain.tail this

theorem Ring.unique (hr : Ring l h xs) (hr' : Ring l h ys) : xs = ys := by
  have h₁ : l.walk h (xs.length + ys.length + 1) (l.next h) = some xs := hr.walk (by omega)
  have h₂ : l.walk h (xs.length + ys.length + 1) (l.next h) = some ys := hr'.walk (by omega)
  rw [h₁] at h₂
  exact Option.some.inj h₂

/-! ## Families of rings -/

/-- Rings through the heads `hd i`, no two of them with a common node. -/
structure Rings {ι : Type} (l : Links ν) (hd : ι → ν) (q : ι → List ν) : Prop where
  ring : ∀ i, Ring l (hd i) (q i)
  disjoint : ∀ i j, i ≠ j → ∀ a ∈ hd i :: q i, a ∉ hd j :: q j

section Rings

variable {ι : Type} [DecidableEq ι] {hd : ι → ν} {q : ι → List ν} {e : ν}

omit [DecidableEq ν] [DecidableEq ι] in
theorem Rings.eq_of_mem (hr : Rings l hd q) {i j : ι} (hi : e ∈ q i) (hj : e ∈ q j) : i = j := by
  by_contra hij
  exact hr.disjoint i j hij e (List.mem_cons_of_mem _ hi) (List.mem_cons_of_mem _ hj)

omit [DecidableEq ν] in
theorem Rings.update (hr : Rings l hd q) {i : ι} {xs : List ν} (hring : Ring l' (hd i) xs)
    (hkeep : ∀ j, j ≠ i → ∀ a ∈ hd j :: q j, l'.next a = l.next a ∧ l'.prev a = l.prev a)
    (hnew : ∀ j, j ≠ i → ∀ a ∈ xs, a ∉ hd j :: q j) :
    Rings l' hd (Function.update q i xs) := by
  refine ⟨fun j => ?_, fun j k hjk a ha hc => ?_⟩
  · by_cases hj : j = i
    · subst hj
      rwa [Function.update_self]
    · rw [Function.update_of_ne hj]
      exact (hr.ring j).congr (fun a ha => (hkeep j hj a ha).1) fun a ha => (hkeep j hj a ha).2
  · have hold := hr.disjoint j k hjk a
    by_cases hj : j = i
    · subst hj
      rw [Function.update_self] at ha
      rw [Function.update_of_ne hjk.symm] at hc
      rcases List.mem_cons.mp ha with rfl | ha
      · exact hold List.mem_cons_self hc
      · exact hnew k hjk.symm a ha hc
    · rw [Function.update_of_ne hj] at ha
      by_cases hk : k = i
      · subst hk
        rw [Function.update_self] at hc
        rcases List.mem_cons.mp hc with rfl | hc
        · exact hold ha List.mem_cons_self
        · exact hnew j hj a hc ha
      · rw [Function.update_of_ne hk] at hc
        exact hold ha hc

/-- **Inserting before a head appends to that queue and leaves the others.** -/
theorem Rings.insertBefore (hr : Rings l hd q) (i : ι) (he : ∀ j, e ∉ hd j :: q j) :
    Rings (l.insertBefore e (hd i)) hd (Function.update q i (q i ++ [e])) := by
  refine hr.update ((hr.ring i).insertBefore (he i)) (fun j hj a ha => ?_) fun j hj a ha => ?_
  · have hae : a ≠ e := fun hc => he j (hc ▸ ha)
    have hai : ∀ b ∈ hd i :: q i, a ≠ b := fun b hb hc => hr.disjoint i j hj.symm b hb (hc ▸ ha)
    exact ⟨l.insertBefore_next_of_ne (fun hc => he i (hc ▸ List.mem_cons_self)) hae
      (hai _ (hr.ring i).prev_head_mem), l.insertBefore_prev_of_ne hae (hai _ List.mem_cons_self)⟩
  · rcases List.mem_append.mp ha with ha | ha
    · exact hr.disjoint i j hj.symm a (List.mem_cons_of_mem _ ha)
    · rw [List.mem_singleton] at ha
      exact ha ▸ he j

/-- **Inserting after a head prepends to that queue and leaves the others.** -/
theorem Rings.insertAfter (hr : Rings l hd q) (i : ι) (he : ∀ j, e ∉ hd j :: q j) :
    Rings (l.insertAfter e (hd i)) hd (Function.update q i (e :: q i)) := by
  refine hr.update ((hr.ring i).insertAfter (he i)) (fun j hj a ha => ?_) fun j hj a ha => ?_
  · have hae : a ≠ e := fun hc => he j (hc ▸ ha)
    have hai : ∀ b ∈ hd i :: q i, a ≠ b := fun b hb hc => hr.disjoint i j hj.symm b hb (hc ▸ ha)
    exact ⟨l.insertAfter_next_of_ne hae (hai _ List.mem_cons_self),
      l.insertAfter_prev_of_ne (fun hc => he i (hc ▸ List.mem_cons_self)) hae
        (hai _ (hr.ring i).next_head_mem)⟩
  · rcases List.mem_cons.mp ha with rfl | ha
    · exact he j
    · exact hr.disjoint i j hj.symm a (List.mem_cons_of_mem _ ha)

/-- **Removing an element takes it out of the one queue that holds it.** -/
theorem Rings.remove (hr : Rings l hd q) {i : ι} (he : e ∈ q i) :
    Rings (l.remove e) hd (Function.update q i ((q i).erase e)) := by
  obtain ⟨hnext, hprev⟩ := (hr.ring i).neighbours_mem he
  refine hr.update ((hr.ring i).erase he) (fun j hj a ha => ?_) fun j hj a ha =>
    hr.disjoint i j hj.symm a (List.mem_cons_of_mem _ (List.mem_of_mem_erase ha))
  have hai : ∀ b ∈ hd i :: q i, a ≠ b := fun b hb hc => hr.disjoint i j hj.symm b hb (hc ▸ ha)
  rw [l.remove_next, l.remove_prev, if_neg (hai _ hprev), if_neg (hai _ hnext)]
  exact ⟨rfl, rfl⟩

/-- Taking out several elements, one after the other, leaves the others in their order. -/
theorem Rings.removeAll_filter (hr : Rings l hd q) {es : List ν} (hnd : es.Nodup)
    (hes : ∀ e ∈ es, ∃ i, e ∈ q i) :
    Rings (es.foldl Links.remove l) hd fun i => (q i).filter fun a => a ∉ es := by
  induction es generalizing l q with
  | nil => simpa using hr
  | cons e es ih =>
    obtain ⟨hne, hnd'⟩ := List.nodup_cons.mp hnd
    obtain ⟨i, hi⟩ := hes e List.mem_cons_self
    -- what is left after `e` is gone
    have hfilter : Function.update q i ((q i).erase e) = fun j => (q j).filter fun a => a ≠ e := by
      funext j
      have hndj := (List.nodup_cons.mp (hr.ring j).nodup).2
      by_cases hj : j = i
      · subst hj
        rw [Function.update_self, hndj.erase_eq_filter]
        exact List.filter_congr fun a _ => Bool.eq_iff_iff.mpr (by simp)
      · rw [Function.update_of_ne hj, List.filter_eq_self.mpr]
        intro a ha
        rw [decide_eq_true_eq]
        rintro rfl
        exact hj (hr.eq_of_mem ha hi)
    have hrest := hr.remove hi
    rw [hfilter] at hrest
    have hall := ih hrest hnd' fun d hd => by
      obtain ⟨j, hj⟩ := hes d (List.mem_cons_of_mem _ hd)
      refine ⟨j, List.mem_filter.mpr ⟨hj, ?_⟩⟩
      rw [decide_eq_true_eq]
      rintro rfl
      exact hne hd
    simpa only [List.foldl_cons, List.filter_filter, List.mem_cons, not_or, Bool.decide_and,
      Bool.and_comm] using hall

theorem Rings.removeAll (hr : Rings l hd q) {es : List ν} (hnd : es.Nodup)
    (hes : ∀ e ∈ es, ∃ i, e ∈ q i) : ∃ q', Rings (es.foldl Links.remove l) hd q' ∧
      ∀ i a, a ∈ q' i ↔ a ∈ q i ∧ a ∉ es := by
  refine ⟨_, hr.removeAll_filter hnd hes, fun i a => ?_⟩
  rw [List.mem_filter, decide_eq_true_eq]

end Rings

end DList
