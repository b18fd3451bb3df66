import NexusVM.Lib.Heap
import Mathlib.Algebra.BigOperators.Group.Multiset.Basic
import Mathlib.Algebra.Order.Group.Multiset

/-!
# What a program owes the heap

The blocks that have been taken since some moment and were not given back yet, as a multiset of kinds
and addresses.

* `Heap.keys`, `named`, `pointers`: the live blocks, and the blocks that pointers name;
* `Heap.Owes`: since then exactly these blocks were taken, and every free was of a live block;
* `Owes.grant`, `Owes.release`: requests and frees;
* **`wp_alloc_owes`**: after a request one owes what the answer names;
* **`Owes.live_iff`**: nothing is owed just if the same blocks are live as before.
-/

variable {κ : Type} [DecidableEq κ]

/-- The block that a pointer names; a null pointer names none. -/
def named (kind : κ) (p : Option ℕ) : Multiset (κ × ℕ) :=
  match p with
  | none => 0
  | some a => {(kind, a)}

/-- The blocks that some pointers name. -/
def pointers (l : List (κ × Option ℕ)) : Multiset (κ × ℕ) := (l.map fun q => named q.1 q.2).sum

omit [DecidableEq κ] in
@[simp] theorem named_none (kind : κ) : named kind none = 0 := rfl

omit [DecidableEq κ] in
@[simp] theorem named_some (kind : κ) (a : ℕ) : named kind (some a) = {(kind, a)} := rfl

omit [DecidableEq κ] in
@[simp] theorem pointers_nil : pointers ([] : List (κ × Option ℕ)) = 0 := rfl

omit [DecidableEq κ] in
@[simp] theorem pointers_cons (kind : κ) (p : Option ℕ) (l : List (κ × Option ℕ)) :
    pointers ((kind, p) :: l) = named kind p + pointers l := by
  rw [pointers, List.map_cons, List.sum_cons]
  rfl

namespace Heap

variable {h₀ h h' : Heap κ} {ks ls : Multiset (κ × ℕ)} {kind : κ} {a : ℕ}

/-- The live blocks, less their sizes. -/
def keys (h : Heap κ) : Multiset (κ × ℕ) := h.live.map fun b => (b.kind, b.base)

omit [DecidableEq κ] in
theorem keys_grant (h : Heap κ) (b : Block κ) : (h.grant b).keys = {(b.kind, b.base)} + h.keys := by
  rw [keys, grant_live, List.map_cons, ← Multiset.cons_coe, ← Multiset.singleton_add]
  rfl

/-- Since the heap was `h₀`, the blocks `ks` were taken, and only live blocks were given back. -/
structure Owes (h₀ h : Heap κ) (ks : Multiset (κ × ℕ)) : Prop where
  keys : h.keys = ks + h₀.keys
  badFrees : h.badFrees = h₀.badFrees

namespace Owes

omit [DecidableEq κ] in
theorem refl (h : Heap κ) : Owes h h 0 := ⟨(zero_add _).symm, rfl⟩

omit [DecidableEq κ] in
theorem congr (ho : Owes h₀ h ks) (hks : ls = ks) : Owes h₀ h ls := hks ▸ ho

omit [DecidableEq κ] in
theorem grant (ho : Owes h₀ h ks) (b : Block κ) : Owes h₀ (h.grant b) ({(b.kind, b.base)} + ks) :=
  ⟨by rw [keys_grant, ho.keys, add_assoc], ho.badFrees⟩

omit [DecidableEq κ] in
theorem refuse (ho : Owes h₀ h ks) : Owes h₀ h.refuse ks := ⟨ho.keys, ho.badFrees⟩

/-- **Giving back a block that is owed.** -/
theorem release (ho : Owes h₀ h ({(kind, a)} + ks)) : Owes h₀ (h.release kind a) ks := by
  have hkeys := ho.keys
  rw [add_assoc, Multiset.singleton_add] at hkeys
  have hmem : (kind, a) ∈ h.keys := hkeys ▸ Multiset.mem_cons_self _ _
  obtain ⟨b, hb, hkb⟩ := List.mem_map.mp (Multiset.mem_coe.mp hmem)
  rw [Prod.mk.injEq] at hkb
  unfold Heap.release
  split
  next c hc =>
    have hck := List.find?_some hc
    rw [decide_eq_true_eq] at hck
    refine ⟨?_, ho.badFrees⟩
    have hperm := (List.perm_cons_erase (List.mem_of_find?_eq_some hc)).map fun b => (b.kind, b.base)
    have hcons := Multiset.coe_eq_coe.mpr hperm
    rw [List.map_cons, ← Multiset.cons_coe] at hcons
    rw [Heap.keys, hcons, hck.1, hck.2] at hkeys
    exact (Multiset.cons_inj_right _).mp hkeys
  next hnone => exact absurd (decide_eq_true hkb) (List.find?_eq_none.mp hnone b hb)

omit [DecidableEq κ] in
theorem live_of_sublive (ho : Owes h₀ h ks) (hs : h'.Sound) (hsub : ∀ b ∈ h.live, b ∈ h'.live)
    (hold : ∀ b ∈ h₀.live, b ∈ h'.live) : ∀ b ∈ h₀.live, b ∈ h.live := by
  intro b hb
  have hkey : (b.kind, b.base) ∈ h.keys := by
    rw [ho.keys, Multiset.mem_add]
    exact .inr (Multiset.mem_coe.mpr (List.mem_map_of_mem hb))
  obtain ⟨c, hc, heq⟩ := List.mem_map.mp (Multiset.mem_coe.mp hkey)
  by_cases hcb : c = b
  · exact hcb ▸ hc
  · exact absurd (congrArg Prod.snd heq) (hs.apart (hsub c hc) (hold b hb) hcb).1

omit [DecidableEq κ] in
/-- **Nothing is owed** just if the same blocks are live. -/
theorem live_iff (ho : Owes h₀ h ks) (hs₀ : h₀.Sound) (hs : h.Sound)
    (hkeep : ∀ b ∈ h₀.live, b ∈ h.live) : ks = 0 ↔ ∀ b, b ∈ h.live ↔ b ∈ h₀.live := by
  have hnd : ∀ {g : Heap κ}, g.Sound → g.live.Nodup := fun hg =>
    hg.imp fun hbc heq => hbc.1 (congrArg Block.base heq)
  have hcard := congrArg Multiset.card ho.keys
  rw [Multiset.card_add, Heap.keys, Heap.keys, Multiset.coe_card, Multiset.coe_card, List.length_map,
    List.length_map] at hcard
  constructor
  · rintro rfl b
    rw [Multiset.card_zero, zero_add] at hcard
    have hsub := (hnd hs₀).subperm hkeep
    exact (hsub.perm_of_length_le hcard.le).mem_iff.symm
  · intro hsame
    have hperm := (List.perm_ext_iff_of_nodup (hnd hs) (hnd hs₀)).mpr hsame
    rw [hperm.length_eq] at hcard
    exact Multiset.card_eq_zero.mp (by omega)

end Owes

omit [DecidableEq κ] in
/-- **After a request** one owes what the answer names. -/
theorem wp_alloc_owes (ho : Owes h₀ h ks) (kind : κ) (align size : ℕ) :
    Prog.wp (alloc kind align size) (fun p h' => Owes h₀ h' (named kind p + ks)) h :=
  wp_alloc (fun a _ _ => ho.grant ⟨kind, a, size⟩) fun _ => by
    rw [named_none, zero_add]
    exact ho.refuse

end Heap
