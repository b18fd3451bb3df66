import NexusVM.Lib.Prog
import Mathlib.Data.List.Nodup
import Mathlib.Data.List.Pairwise
import Mathlib.Data.List.Perm.Subperm

/-!
# An allocator with an arbitrary policy

The heap keeps the list of live blocks. Where the next block goes, and whether there is one, is
decided by an arbitrary stream of answers; an answer that would break the allocator's contract
(a null, misaligned or occupied address) counts as a refusal.

* `Block`, `Heap`, `Heap.Fits`: blocks, and what an allocator promises about an answer;
* `Heap.alloc`, `Heap.grant`, `Heap.refuse`, `wp_alloc`: requests, and their two outcomes;
* `Heap.Serves`, `Heap.ServesAll`, `wp_alloc_first`: the next requests are all served;
* `Heap.release`: giving a block back, counting every free of something that is not live;
* `Heap.Sound`, `Sound.grant`, `Sound.release`: live blocks never overlap.
-/

variable {κ : Type} [DecidableEq κ]

/-- A block of memory, with what it was allocated for. -/
structure Block (κ : Type) where
  kind : κ
  base : ℕ
  size : ℕ
deriving DecidableEq

/-- The state of the allocator. -/
structure Heap (κ : Type) where
  live : List (Block κ)
  /-- The address handed out at each request; `none` refuses it. -/
  answer : ℕ → Option ℕ
  /-- All blocks end at or below this address. -/
  limit : ℕ
  asked : ℕ
  refused : ℕ
  badFrees : ℕ

namespace Heap

/-- Two blocks with different addresses and no common byte. -/
def Apart (b c : Block κ) : Prop :=
  b.base ≠ c.base ∧ (b.base + b.size ≤ c.base ∨ c.base + c.size ≤ b.base)

instance (b c : Block κ) : Decidable (Apart b c) := by unfold Apart; infer_instance

omit [DecidableEq κ] in
theorem Apart.symm {b c : Block κ} (h : Apart b c) : Apart c b := ⟨h.1.symm, h.2.symm⟩

omit [DecidableEq κ] in
theorem Apart.not_mem {b c : Block κ} (h : Apart b c) {t : ℕ} (hb : c.base ≤ t)
    (hs : t < c.base + c.size) : ¬ (b.base ≤ t ∧ t < b.base + b.size) := by
  have := h.2
  omega

/-- The contract of the allocator for a new block. -/
def Fits (h : Heap κ) (align : ℕ) (b : Block κ) : Prop :=
  b.base ≠ 0 ∧ align ∣ b.base ∧ b.base + b.size ≤ h.limit ∧ ∀ c ∈ h.live, Apart b c

instance (h : Heap κ) (align : ℕ) (b : Block κ) : Decidable (h.Fits align b) := by
  unfold Fits; infer_instance

/-- The heap after a request was served. -/
def grant (h : Heap κ) (b : Block κ) : Heap κ :=
  { h with live := b :: h.live, asked := h.asked + 1 }

/-- The heap after a request was refused. -/
def refuse (h : Heap κ) : Heap κ := { h with asked := h.asked + 1, refused := h.refused + 1 }

omit [DecidableEq κ] in
@[simp] theorem grant_live (h : Heap κ) (b : Block κ) : (h.grant b).live = b :: h.live := rfl
omit [DecidableEq κ] in
@[simp] theorem refuse_live (h : Heap κ) : h.refuse.live = h.live := rfl
omit [DecidableEq κ] in
@[simp] theorem grant_refused (h : Heap κ) (b : Block κ) : (h.grant b).refused = h.refused := rfl
omit [DecidableEq κ] in
@[simp] theorem refuse_refused (h : Heap κ) : h.refuse.refused = h.refused + 1 := rfl
omit [DecidableEq κ] in
@[simp] theorem grant_limit (h : Heap κ) (b : Block κ) : (h.grant b).limit = h.limit := rfl
omit [DecidableEq κ] in
@[simp] theorem refuse_limit (h : Heap κ) : h.refuse.limit = h.limit := rfl

/-- Ask for `size` bytes; `none` is the null pointer. -/
def alloc (kind : κ) (align size : ℕ) : Prog (Heap κ) (Option ℕ) := do
  let h ← get
  match h.answer h.asked with
  | some a =>
    if h.Fits align ⟨kind, a, size⟩ then
      set (h.grant ⟨kind, a, size⟩)
      return some a
    else
      set h.refuse
      return none
  | none =>
    set h.refuse
    return none

/-- The next `n` requests for such a block are all served. -/
def Serves (h : Heap κ) (kind : κ) (align size : ℕ) : ℕ → Prop
  | 0 => True
  | n + 1 => ∃ a, h.answer h.asked = some a ∧ h.Fits align ⟨kind, a, size⟩ ∧
      (h.grant ⟨kind, a, size⟩).Serves kind align size n

omit [DecidableEq κ] in
theorem Serves.of_succ {h : Heap κ} {kind : κ} {align size n : ℕ}
    (hs : h.Serves kind align size (n + 1)) : h.Serves kind align size n := by
  induction n generalizing h with
  | zero => trivial
  | succ n ih =>
    obtain ⟨a, ha, hf, hs⟩ := hs
    exact ⟨a, ha, hf, ih hs⟩

instance decidableServes (kind : κ) (align size : ℕ) :
    ∀ (n : ℕ) (h : Heap κ), Decidable (h.Serves kind align size n)
  | 0, _ => .isTrue trivial
  | n + 1, h =>
    match ha : h.answer h.asked with
    | none => .isFalse (by rintro ⟨a, hb, -⟩; rw [ha] at hb; cases hb)
    | some a =>
      have := decidableServes kind align size n (h.grant ⟨kind, a, size⟩)
      decidable_of_iff
        (h.Fits align ⟨kind, a, size⟩ ∧ (h.grant ⟨kind, a, size⟩).Serves kind align size n)
        ⟨fun hs => ⟨a, ha, hs⟩, by rintro ⟨b, hb, hs⟩; rw [ha] at hb; cases hb; exact hs⟩

/-- The next requests, for blocks of these kinds, alignments and sizes, are all served. -/
def ServesAll (h : Heap κ) : List (κ × ℕ × ℕ) → Prop
  | [] => True
  | (kind, align, size) :: rs => ∃ a, h.answer h.asked = some a ∧ h.Fits align ⟨kind, a, size⟩ ∧
      (h.grant ⟨kind, a, size⟩).ServesAll rs

omit [DecidableEq κ] in
/-- **A request is served with a block that fits, or refused.** -/
theorem wp_alloc {kind : κ} {align size : ℕ} {Q : Option ℕ → Heap κ → Prop} {h : Heap κ}
    (hsome : ∀ a, h.answer h.asked = some a → h.Fits align ⟨kind, a, size⟩ →
      Q (some a) (h.grant ⟨kind, a, size⟩))
    (hnone : ¬ h.Serves kind align size 1 → Q none h.refuse) :
    Prog.wp (alloc kind align size) Q h := by
  unfold alloc
  rw [Prog.wp_bind, Prog.wp_get]
  split
  next a ha =>
    refine Prog.wp_ite (fun hf => ?_) fun hf => ?_
    · simpa using hsome a ha hf
    · have hs : ¬ h.Serves kind align size 1 := by
        rintro ⟨b, hb, hfit, -⟩
        rw [ha] at hb
        cases hb
        exact hf hfit
      simpa using hnone hs
  next ha =>
    have hs : ¬ h.Serves kind align size 1 := by
      rintro ⟨b, hb, -⟩
      rw [ha] at hb
      cases hb
    simpa using hnone hs

omit [DecidableEq κ] in
theorem wp_alloc_first {kind : κ} {align size : ℕ} {Q : Option ℕ → Heap κ → Prop} {h : Heap κ}
    (hsome : ∀ a, h.Fits align ⟨kind, a, size⟩ → (∀ rs, h.ServesAll ((kind, align, size) :: rs) ↔
      (h.grant ⟨kind, a, size⟩).ServesAll rs) → Q (some a) (h.grant ⟨kind, a, size⟩))
    (hnone : (∀ rs, ¬ h.ServesAll ((kind, align, size) :: rs)) → Q none h.refuse) :
    Prog.wp (alloc kind align size) Q h := by
  refine wp_alloc (fun a ha hf => hsome a hf fun rs => ⟨?_, fun hs => ⟨a, ha, hf, hs⟩⟩) fun hn =>
    hnone ?_
  · rintro ⟨b, hb, -, hs⟩
    rw [ha] at hb
    cases hb
    exact hs
  · rintro rs ⟨a, ha, hf, -⟩
    exact hn ⟨a, ha, hf, trivial⟩

omit [DecidableEq κ] in
theorem alloc_run {kind : κ} {align size a : ℕ} {h : Heap κ} (ha : h.answer h.asked = some a)
    (hf : h.Fits align ⟨kind, a, size⟩) :
    (alloc kind align size).run h = some (some a, h.grant ⟨kind, a, size⟩) := by
  simp only [alloc, StateT.run_bind, StateT.run_get, Option.pure_def, Option.bind_eq_bind,
    Option.bind_some, ha, if_pos hf]
  rfl

omit [DecidableEq κ] in
theorem wp_alloc_iff {kind : κ} {align size : ℕ} {Q : Option ℕ → Heap κ → Prop} {h : Heap κ} :
    Prog.wp (alloc kind align size) Q h ↔
      (∀ a, h.answer h.asked = some a → h.Fits align ⟨kind, a, size⟩ →
        Q (some a) (h.grant ⟨kind, a, size⟩)) ∧
      (¬ h.Serves kind align size 1 → Q none h.refuse) := by
  constructor
  · intro hwp
    refine ⟨fun a ha hf => Prog.wp_run hwp (alloc_run ha hf), fun hn => ?_⟩
    have hrefused : Prog.wp (alloc kind align size) (fun r h' => r = none ∧ h' = h.refuse) h :=
      wp_alloc (fun a ha hf => absurd ⟨a, ha, hf, trivial⟩ hn) fun _ => ⟨rfl, rfl⟩
    exact Prog.wp_run hwp (Prog.wp_eq_iff.mp hrefused)
  · rintro ⟨hsome, hnone⟩
    exact wp_alloc hsome hnone

/-- Give the block of kind `kind` at `a` back. -/
def release (h : Heap κ) (kind : κ) (a : ℕ) : Heap κ :=
  match h.live.find? fun b => b.kind = kind ∧ b.base = a with
  | some b => { h with live := h.live.erase b }
  | none => { h with badFrees := h.badFrees + 1 }

@[simp] theorem release_limit (h : Heap κ) (kind : κ) (a : ℕ) :
    (h.release kind a).limit = h.limit := by
  unfold release; split <;> rfl

@[simp] theorem release_answer (h : Heap κ) (kind : κ) (a : ℕ) :
    (h.release kind a).answer = h.answer := by
  unfold release; split <;> rfl

@[simp] theorem release_refused (h : Heap κ) (kind : κ) (a : ℕ) :
    (h.release kind a).refused = h.refused := by
  unfold release; split <;> rfl

theorem release_sublist (h : Heap κ) (kind : κ) (a : ℕ) :
    (h.release kind a).live.Sublist h.live := by
  unfold release
  split
  · exact List.erase_sublist
  · exact List.Sublist.refl _

theorem mem_release {h : Heap κ} {kind : κ} {a : ℕ} {b : Block κ} (hb : b ∈ h.live)
    (hne : ¬ (b.kind = kind ∧ b.base = a)) : b ∈ (h.release kind a).live := by
  unfold release
  split
  next c hc =>
    have hcp := List.find?_some hc
    rw [decide_eq_true_eq] at hcp
    refine (List.mem_erase_of_ne ?_).mpr hb
    rintro rfl
    exact hne hcp
  next => exact hb

/-- The heap holds a block of kind `kind` at `a`. -/
def Holds (h : Heap κ) (kind : κ) (a : ℕ) : Prop := ∃ b ∈ h.live, b.kind = kind ∧ b.base = a

omit [DecidableEq κ] in
theorem length_le_live {h : Heap κ} {kind : κ} {as : List ℕ} (hnd : as.Nodup)
    (hheld : ∀ a ∈ as, h.Holds kind a) : as.length ≤ h.live.length := by
  have hlen : (h.live.map Block.base).length = h.live.length := List.length_map Block.base
  rw [← hlen]
  apply (hnd.subperm fun a ha => ?_).length_le
  obtain ⟨b, hb, -, hbase⟩ := hheld a ha
  exact List.mem_map.mpr ⟨b, hb, hbase⟩

omit [DecidableEq κ] in
theorem Holds.grant {h : Heap κ} {kind : κ} {a : ℕ} (hh : h.Holds kind a) (b : Block κ) :
    (h.grant b).Holds kind a := by
  obtain ⟨c, hc, hk⟩ := hh
  exact ⟨c, List.mem_cons_of_mem _ hc, hk⟩

omit [DecidableEq κ] in
theorem holds_grant_self (h : Heap κ) (b : Block κ) : (h.grant b).Holds b.kind b.base :=
  ⟨b, List.mem_cons_self, rfl, rfl⟩

theorem Holds.release {h : Heap κ} {kind kind' : κ} {a a' : ℕ} (hh : h.Holds kind a)
    (hne : ¬ (kind = kind' ∧ a = a')) : (h.release kind' a').Holds kind a := by
  obtain ⟨b, hb, rfl, rfl⟩ := hh
  exact ⟨b, mem_release hb hne, rfl, rfl⟩

theorem Holds.release_badFrees {h : Heap κ} {kind : κ} {a : ℕ} (hh : h.Holds kind a) :
    (h.release kind a).badFrees = h.badFrees := by
  obtain ⟨b, hb, hk⟩ := hh
  unfold Heap.release
  split
  · rfl
  next hnone => exact absurd (decide_eq_true hk) (List.find?_eq_none.mp hnone b hb)

omit [DecidableEq κ] in
theorem Fits.base_ne {h : Heap κ} {align : ℕ} {b : Block κ} (hf : h.Fits align b) {kind : κ}
    {a : ℕ} (hh : h.Holds kind a) : b.base ≠ a := by
  obtain ⟨c, hc, -, rfl⟩ := hh
  exact (hf.2.2.2 c hc).1

/-- Live blocks never overlap. -/
def Sound (h : Heap κ) : Prop := h.live.Pairwise Apart

omit [DecidableEq κ] in
theorem Sound.grant {h : Heap κ} {align : ℕ} {b : Block κ} (hs : h.Sound) (hf : h.Fits align b) :
    (h.grant b).Sound :=
  List.pairwise_cons.mpr ⟨hf.2.2.2, hs⟩

theorem Sound.release {h : Heap κ} (hs : h.Sound) (kind : κ) (a : ℕ) :
    (h.release kind a).Sound :=
  List.Pairwise.sublist (h.release_sublist kind a) hs

omit [DecidableEq κ] in
theorem Sound.apart {h : Heap κ} (hs : h.Sound) {b c : Block κ} (hb : b ∈ h.live)
    (hc : c ∈ h.live) (hne : b ≠ c) : Apart b c :=
  haveI : Std.Symm (@Apart κ) := ⟨fun _ _ h => h.symm⟩
  List.Pairwise.forall hs hb hc hne

end Heap
