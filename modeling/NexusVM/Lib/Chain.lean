import Mathlib.Data.List.Nodup
import Mathlib.Logic.Function.Basic

/-!
# Singly linked lists in a store

Nodes carry their data and a pointer to the next node; a variable points at the first one.

* `Cell`, `Store`, `Slot`: nodes, the store, and the places that hold a pointer to a node;
* `Store.walk`, `Store.find`, `Store.seek`: the loops over a list, the last one with the place that
  points at the node it has come to;
* `Store.push`, `Store.unlink`: a new first node; a node taken out through the place that points at it;
* `Visits`, `IsList`: the nodes met from a pointer on, and those met from the head;
* `Visits.walk`, **`Visits.find`**, **`Visits.seek`**: what the loops return;
* **`IsList.push`**, **`IsList.unlink`**: what the operations do to a list.
-/

namespace SList

variable {ν β : Type}

structure Cell (ν β : Type) where
  data : β
  next : Option ν

/-- The variable that points at the first node, and the nodes. -/
structure Store (ν β : Type) where
  head : Option ν
  cells : ν → Option (Cell ν β)

/-- A place that holds a pointer to a node. -/
inductive Slot (ν : Type)
  | head
  | next (a : ν)

namespace Store

/-- The data of the nodes from `pos` on; `none` is an access to no node, or no end within `fuel`
steps. -/
def walk (s : Store ν β) : ℕ → Option ν → Option (List β)
  | 0, _ => none
  | _ + 1, none => some []
  | fuel + 1, some a => do
    let entry ← s.cells a
    (s.walk fuel entry.next).map fun ds => entry.data :: ds

/-- The first node from `pos` on whose data satisfy `p`. -/
def find (s : Store ν β) (p : β → Bool) : ℕ → Option ν → Option (Option β)
  | 0, _ => none
  | _ + 1, none => some none
  | fuel + 1, some a => do
    let entry ← s.cells a
    if p entry.data then some (some entry.data) else s.find p fuel entry.next

/-- The same, with the place that points at the node and the node itself. -/
def seek (s : Store ν β) (p : β → Bool) : ℕ → Slot ν → Option ν → Option (Option (Slot ν × ν × Option ν))
  | 0, _, _ => none
  | _ + 1, _, none => some none
  | fuel + 1, prev, some a => do
    let entry ← s.cells a
    if p entry.data then some (some (prev, a, entry.next)) else s.seek p fuel (.next a) entry.next

variable [DecidableEq ν]

/-- A new node in front. -/
def push (s : Store ν β) (a : ν) (d : β) : Store ν β where
  head := some a
  cells := Function.update s.cells a (some ⟨d, s.head⟩)

/-- Store `q` in a place. -/
def store (s : Store ν β) (q : Option ν) : Slot ν → Store ν β
  | .head => { s with head := q }
  | .next a => { s with cells := Function.update s.cells a ((s.cells a).map fun c => { c with next := q }) }

/-- The node at `a` is gone. -/
def drop (s : Store ν β) (a : ν) : Store ν β := { s with cells := Function.update s.cells a none }

/-- Take the node `a`, whose next one is `q`, out of the list, through the place that points at it. -/
def unlink (s : Store ν β) (prev : Slot ν) (a : ν) (q : Option ν) : Store ν β := (s.store q prev).drop a

end Store

/-! ## The nodes of a list -/

/-- From `p` on one meets the nodes `xs`, with their data, and then the end. -/
def Visits (cells : ν → Option (Cell ν β)) : Option ν → List (ν × β) → Prop
  | p, [] => p = none
  | p, (a, d) :: xs => p = some a ∧ ∃ q, cells a = some ⟨d, q⟩ ∧ Visits cells q xs

variable {cells cells' : ν → Option (Cell ν β)} {p q : Option ν} {xs ys zs : List (ν × β)} {a b : ν}
  {d e : β}

/-- **Frame rule.** A list depends on its own nodes only. -/
theorem Visits.congr (h : Visits cells p xs) (hc : ∀ a ∈ xs.map Prod.fst, cells' a = cells a) :
    Visits cells' p xs := by
  induction xs generalizing p with
  | nil => exact h
  | cons x xs ih =>
    obtain ⟨a, d⟩ := x
    obtain ⟨rfl, q, hq, h⟩ := h
    refine ⟨rfl, q, ?_, ih h fun b hb => hc b (List.mem_cons_of_mem _ hb)⟩
    rw [hc a List.mem_cons_self, hq]

theorem Visits.tail (h : Visits cells p (ys ++ (a, d) :: zs)) :
    ∃ q, cells a = some ⟨d, q⟩ ∧ Visits cells q zs := by
  induction ys generalizing p with
  | nil => exact h.2
  | cons y ys ih =>
    obtain ⟨-, q, -, h⟩ := h
    exact ih h

theorem Visits.relink [DecidableEq ν] (h : Visits cells p (ys ++ (b, e) :: xs))
    (hzs : Visits cells q zs) (hys : b ∉ ys.map Prod.fst) (hz : b ∉ zs.map Prod.fst) :
    Visits (Function.update cells b (some ⟨e, q⟩)) p (ys ++ (b, e) :: zs) := by
  induction ys generalizing p with
  | nil =>
    refine ⟨h.1, q, Function.update_self _ _ _, hzs.congr fun c hc => Function.update_of_ne ?_ _ _⟩
    rintro rfl
    exact hz hc
  | cons y ys ih =>
    obtain ⟨c, d⟩ := y
    obtain ⟨rfl, r, hr, h⟩ := h
    rw [List.map_cons, List.mem_cons, not_or] at hys
    refine ⟨rfl, r, ?_, ih h hys.2⟩
    rw [Function.update_of_ne (Ne.symm hys.1), hr]

/-! ## The loops -/

theorem Visits.walk {s : Store ν β} (h : Visits s.cells p xs) {fuel : ℕ} (hf : xs.length < fuel) :
    s.walk fuel p = some (xs.map Prod.snd) := by
  induction xs generalizing p fuel with
  | nil =>
    obtain ⟨n, rfl⟩ : ∃ n, fuel = n + 1 := ⟨fuel - 1, by simp at hf; omega⟩
    obtain rfl := h
    rfl
  | cons x xs ih =>
    obtain ⟨n, rfl⟩ : ∃ n, fuel = n + 1 := ⟨fuel - 1, by simp at hf; omega⟩
    obtain ⟨a, d⟩ := x
    obtain ⟨rfl, q, hq, h⟩ := h
    rw [Store.walk, hq, List.map_cons]
    exact congrArg (Option.map fun ds => d :: ds) (ih h (Nat.lt_of_succ_lt_succ hf))

/-- **Looking for a node.** -/
theorem Visits.find {s : Store ν β} (h : Visits s.cells p xs) (f : β → Bool) {fuel : ℕ}
    (hf : xs.length < fuel) : s.find f fuel p = some ((xs.map Prod.snd).find? f) := by
  induction xs generalizing p fuel with
  | nil =>
    obtain ⟨n, rfl⟩ : ∃ n, fuel = n + 1 := ⟨fuel - 1, by simp at hf; omega⟩
    obtain rfl := h
    rfl
  | cons x xs ih =>
    obtain ⟨n, rfl⟩ : ∃ n, fuel = n + 1 := ⟨fuel - 1, by simp at hf; omega⟩
    obtain ⟨a, d⟩ := x
    obtain ⟨rfl, q, hq, h⟩ := h
    rw [Store.find, hq, List.map_cons, List.find?_cons]
    have hrest := ih h (Nat.lt_of_succ_lt_succ hf)
    cases hd : f d with
    | true => simp [hd]
    | false => simpa [hd] using hrest

/-- The place that points at the node behind `ys`. -/
def lastSlot (prev : Slot ν) (ys : List (ν × β)) : Slot ν :=
  (ys.getLast?.map fun y => Slot.next y.1).getD prev

theorem lastSlot_cons (prev : Slot ν) (a : ν) (d : β) (ys : List (ν × β)) :
    lastSlot prev ((a, d) :: ys) = lastSlot (.next a) ys := by
  cases ys with
  | nil => rfl
  | cons y ys =>
    rw [lastSlot, lastSlot, List.getLast?_cons_cons]
    rw [List.getLast?_eq_getLast_of_ne_nil (List.cons_ne_nil _ _)]
    rfl

/-- **Looking for a node to take out.** -/
theorem Visits.seek {s : Store ν β} (h : Visits s.cells p xs) (f : β → Bool) {fuel : ℕ}
    (hf : xs.length < fuel) (prev : Slot ν) :
    (s.seek f fuel prev p = some none ∧ ∀ x ∈ xs, f x.2 = false) ∨
    ∃ ys a d zs q, xs = ys ++ (a, d) :: zs ∧ (∀ y ∈ ys, f y.2 = false) ∧ f d = true ∧
      s.cells a = some ⟨d, q⟩ ∧ s.seek f fuel prev p = some (some (lastSlot prev ys, a, q)) := by
  induction xs generalizing p fuel prev with
  | nil =>
    obtain ⟨n, rfl⟩ : ∃ n, fuel = n + 1 := ⟨fuel - 1, by simp at hf; omega⟩
    obtain rfl := h
    exact .inl ⟨rfl, by simp⟩
  | cons x xs ih =>
    obtain ⟨n, rfl⟩ : ∃ n, fuel = n + 1 := ⟨fuel - 1, by simp at hf; omega⟩
    obtain ⟨a, d⟩ := x
    obtain ⟨rfl, q, hq, h⟩ := h
    have hstep : s.seek f (n + 1) prev (some a) =
        if f d then some (some (prev, a, q)) else s.seek f n (.next a) q := by
      rw [Store.seek, hq]
      rfl
    cases hd : f d with
    | true =>
      rw [hd, if_pos rfl] at hstep
      exact .inr ⟨[], a, d, xs, q, rfl, by simp, hd, hq, hstep⟩
    | false =>
      rw [hd, if_neg (by simp)] at hstep
      rw [hstep]
      rcases ih h (Nat.lt_of_succ_lt_succ hf) (.next a) with
        ⟨hnone, hall⟩ | ⟨ys, b, e, zs, r, rfl, hys, he, hr, hsome⟩
      · exact .inl ⟨hnone, List.forall_mem_cons.mpr ⟨hd, hall⟩⟩
      · refine .inr ⟨(a, d) :: ys, b, e, zs, r, rfl, List.forall_mem_cons.mpr ⟨hd, hys⟩, he, hr, ?_⟩
        rw [hsome, lastSlot_cons]

/-! ## The data of a list -/

/-- The list at the head consists of the nodes `xs`. -/
structure IsList (s : Store ν β) (xs : List (ν × β)) : Prop where
  visits : Visits s.cells s.head xs
  nodup : (xs.map Prod.fst).Nodup

variable {s : Store ν β} [DecidableEq ν]

/-- **A new node in front.** -/
theorem IsList.push (h : IsList s xs) (ha : a ∉ xs.map Prod.fst) (d : β) :
    IsList (s.push a d) ((a, d) :: xs) where
  visits := by
    refine ⟨rfl, s.head, Function.update_self _ _ _, h.visits.congr fun b hb =>
      Function.update_of_ne ?_ _ _⟩
    rintro rfl
    exact ha hb
  nodup := List.nodup_cons.mpr ⟨ha, h.nodup⟩

/-- **A node taken out.** -/
theorem IsList.unlink (h : IsList s (ys ++ (a, d) :: zs)) (hq : s.cells a = some ⟨d, q⟩) :
    IsList (s.unlink (lastSlot .head ys) a q) (ys ++ zs) := by
  obtain ⟨hv, hnd⟩ := h
  rw [List.map_append, List.map_cons] at hnd
  have hsub : (ys.map Prod.fst ++ zs.map Prod.fst).Sublist (ys.map Prod.fst ++ a :: zs.map Prod.fst) :=
    (List.sublist_cons_self _ _).append_left _
  have hmem := (List.nodup_middle.mp hnd)
  rw [List.nodup_cons] at hmem
  have hzs : Visits s.cells q zs := by
    obtain ⟨r, hr, h⟩ := hv.tail
    rw [hq] at hr
    cases hr
    exact h
  refine ⟨?_, ?_⟩
  · suffices hlink : Visits (s.store q (lastSlot .head ys)).cells (s.store q (lastSlot .head ys)).head
        (ys ++ zs) by
      refine hlink.congr fun b hb => Function.update_of_ne ?_ _ _
      rintro rfl
      rw [List.map_append] at hb
      exact hmem.1 hb
    rcases List.eq_nil_or_concat' ys with rfl | ⟨ys, ⟨b, e⟩, rfl⟩
    · exact hzs
    · have hslot : lastSlot .head (ys ++ [(b, e)]) = .next b := by
        rw [lastSlot, List.getLast?_concat]
        rfl
      rw [hslot]
      rw [List.append_assoc] at hv ⊢
      obtain ⟨r, hr, -⟩ := Visits.tail hv
      rw [Store.store, hr]
      rw [List.map_append, List.append_assoc] at hmem
      have hb := List.nodup_middle.mp hmem.2
      rw [List.nodup_cons, List.mem_append, not_or] at hb
      exact hv.relink hzs hb.1.1 hb.1.2
  · rw [List.map_append]
    exact hnd.sublist hsub

end SList
