import NexusVM.Lib.Sections
import NexusVM.MigrationCounts
import NexusVM.MigrationThreads

/-!
# Marks alone

While no page is copied, the threads touch the session under its lock only.

* `runCalls_filter`: calls for pages beyond the VM do nothing;
* `Marks`, `sections`: the calls of `migration_track_dirty_page` as single steps;
* `sections_disciplined`: they are critical sections;
* **`marks_exact`**: no mark is lost, and the counter is exact, whatever the interleaving.
-/

namespace NexusVM.Racing

open Threads

variable {T : Type} {s s' : MigrationSession} {q : UInt64}

/-! ## Calls -/

/-- The call marks a page of the VM. -/
def InRange (s : MigrationSession) (call : SessionCall) : Prop := ∃ q, q < s.totalPages ∧ call = .track q

theorem runCalls_filter {calls : List SessionCall} (hcalls : .precopy ∉ calls) :
    ∃ calls', runCalls s calls' = runCalls s calls ∧ (∀ call ∈ calls', InRange s call) ∧
      ∀ q, .track q ∈ calls' ↔ .track q ∈ calls ∧ q < s.totalPages := by
  induction calls with
  | nil => exact ⟨[], rfl, by simp, by simp⟩
  | cons call calls ih =>
    obtain ⟨hcall, hrest⟩ := not_or.mp (List.mem_cons.not.mp hcalls)
    obtain ⟨calls', hrun, hrange, hmem⟩ := ih hrest
    cases call with
    | precopy => exact absurd rfl hcall
    | track q =>
      by_cases hq : q < s.totalPages
      · refine ⟨.track q :: calls', ?_, List.forall_mem_cons.mpr ⟨⟨q, hq, rfl⟩, hrange⟩, fun p => ?_⟩
        · rw [runCalls, runCalls, hrun]
        · simp only [List.mem_cons, SessionCall.track.injEq, hmem, or_and_right]
          exact or_congr_left (iff_self_and.mpr fun h : p = q => h ▸ hq)
      · refine ⟨calls', ?_, hrange, fun p => ?_⟩
        · rw [hrun, runCalls, SessionCall.code, migrationTrackDirtyPage, if_pos (UInt64.not_lt.mp hq)]
          rfl
        · simp only [List.mem_cons, SessionCall.track.injEq, hmem, or_and_right]
          exact (or_iff_right fun h : p = q ∧ p < s.totalPages => hq (h.1 ▸ h.2)).symm

/-! ## Sections -/

/-- The session between the critical sections, and the calls that the threads have before them. -/
structure Marks (T : Type) where
  session : MigrationSession
  calls : T → List SessionCall

/-- The next call of a thread. -/
def Marks.next [DecidableEq T] (t : T) (a : Marks T) : Marks T :=
  match a.calls t with
  | .track q :: calls => ⟨a.session.trackDirtyPage q, Function.update a.calls t calls⟩
  | _ => a

/-- The calls of `migration_track_dirty_page` as single steps. -/
def sections [DecidableEq T] (s : MigrationSession) : Serial Unit Field UInt64 T Unit (Marks T) where
  mem a := fields a.session
  code a t := runCalls s (a.calls t)
  next := Marks.next

/-- **The locked part of `migration_track_dirty_page`** does to the session what the call is to do. -/
theorem trackPage_fields (D : Field → Prop) (hD : ∀ x, D x) (hs : s.Sized) (hq : q < s.totalPages) :
    Runs D (trackPage q) (fields s) (.ret ()) (fields (s.trackDirtyPage q)) := by
  rw [trackPage_eq]
  refine .load (hD _) ?_
  unfold MigrationSession.trackDirtyPage
  rw [if_neg (UInt64.not_le.mpr hq)]
  have hhas : Has (fields s (.word (q / 64))) q ↔ Bitmap.test s.dirtyPages q = true := dirty_fields s q
  split_ifs with hword htest htest
  · exact .refl _ _
  · exact absurd (hhas.mp hword) htest
  · exact absurd (hhas.mpr htest) hword
  · rw [markPage_eq]
    have hend : fields { s with
        dirtyPages := Bitmap.set s.dirtyPages q
        dirtyPageCount := s.dirtyPageCount + 1 } =
        Function.update (Function.update (fields s) (.word (q / 64)) (fields s (.word (q / 64)) ||| Bitmap.mask q))
          .dirtyPageCount (s.dirtyPageCount + 1) := by
      funext x
      rw [Function.update_apply, Function.update_apply]
      cases x with
      | word i =>
        rw [if_neg (by simp)]
        by_cases hi : i = q / 64
        · subst hi
          rw [if_pos rfl]
          have hlt : (q / 64).toNat < s.dirtyPages.length := by
            rw [UInt64.toNat_div]
            exact hs q hq
          simp only [fields, Bitmap.set, List.getD_eq_getElem?_getD, List.getElem?_modify, if_pos,
            List.getElem?_eq_getElem hlt, Option.map_eq_map, Option.map_some, Option.getD_some]
        · have hne : (q / 64).toNat ≠ i.toNat := fun h => hi (UInt64.toNat_inj.mp h.symm)
          rw [if_neg (by simpa using hi)]
          simp only [fields, Bitmap.set, List.getD_eq_getElem?_getD, List.getElem?_modify, if_neg hne, id_map']
      | _ => rfl
    rw [hend]
    exact .load (hD _) (.store (hD _) (.load (hD _) (.store (hD _) (.refl _ _))))

theorem test_mark (ha : Accounted s) (hq : q < s.totalPages) (p : UInt64) :
    Bitmap.test (s.trackDirtyPage q).dirtyPages p = true ↔ Bitmap.test s.dirtyPages p = true ∨ p = q := by
  unfold MigrationSession.trackDirtyPage
  rw [if_neg (UInt64.not_le.mpr hq)]
  split_ifs with hmarked
  · exact (or_iff_left_of_imp fun h : p = q => h ▸ hmarked).symm
  · rw [Bitmap.test_set (ha.index_lt hq), Bool.or_eq_true, decide_eq_true_iff, eq_comm (a := q)]

section Interleavings

variable [DecidableEq T] {progs : T → List SessionCall}

/-- What the critical sections keep: the session is that of the calls that have been made. -/
structure Invariant (s : MigrationSession) (progs : T → List SessionCall) (a : Marks T)
    (o : Owners Unit Field T) : Prop where
  owners : ∀ x, o x = some (.inl ())
  accounted : Accounted a.session
  same : SameSession s a.session
  inRange : ∀ t, ∀ call ∈ a.calls t, InRange s call
  marked : ∀ p, (Bitmap.test a.session.dirtyPages p = true ∨ ∃ t, .track p ∈ a.calls t) ↔
    Bitmap.test s.dirtyPages p = true ∨ ∃ t, .track p ∈ progs t

/-- **The calls are critical sections.** -/
theorem sections_disciplined (s : MigrationSession) (progs : T → List SessionCall) :
    Disciplined (sections s) (Invariant s progs) where
  atRest {a o} hi t := by
    change (runCalls s (a.calls t)).AtRest
    cases hcalls : a.calls t with
    | nil => trivial
    | cons call calls =>
      obtain ⟨q, hq, rfl⟩ := hi.inRange t call (by rw [hcalls]; exact List.mem_cons_self)
      rw [runCalls, SessionCall.code, migrationTrackDirtyPage, if_neg (UInt64.not_le.mpr hq)]
      trivial
  sect {a o t l k} hi hcode := by
    change runCalls s (a.calls t) = .lock l k at hcode
    cases hcalls : a.calls t with
    | nil =>
      rw [hcalls] at hcode
      cases hcode
    | cons call calls =>
      obtain ⟨q, hq, rfl⟩ := hi.inRange t call (by rw [hcalls]; exact List.mem_cons_self)
      rw [hcalls, runCalls, SessionCall.code, migrationTrackDirtyPage, if_neg (UInt64.not_le.mpr hq)] at hcode
      cases hcode
      have hq' : q < a.session.totalPages := by rwa [hi.same.totalPages]
      have hnext : (sections s).next t a = ⟨a.session.trackDirtyPage q, Function.update a.calls t calls⟩ := by
        change Marks.next t a = _
        rw [Marks.next, hcalls]
      have hrun := trackPage_fields (Reaches o () t) (fun x => .inl (hi.owners x))
        (fun i hi' => hi.accounted.index_lt hi') hq'
      rw [hnext]
      refine ⟨runCalls s calls, o, (hrun.bind fun _ => spinlockUnlock).bind fun _ => runCalls s calls, ?_, ?_,
        fun x => ⟨Iff.rfl, fun _ => rfl⟩⟩
      · funext u
        change runCalls s (Function.update a.calls t calls u) = _
        by_cases hut : u = t
        · subst hut
          rw [Function.update_self, Function.update_self]
        · rw [Function.update_of_ne hut, Function.update_of_ne hut]
          rfl
      · refine ⟨hi.owners, hi.accounted.trackDirtyPage q, hi.same.trans (trackDirtyPage_same _ q), fun u => ?_,
          fun p => ?_⟩
        · by_cases hut : u = t
          · subst hut
            dsimp only
            rw [Function.update_self]
            exact fun call hcall => hi.inRange u call (by rw [hcalls]; exact List.mem_cons_of_mem _ hcall)
          · dsimp only
            rw [Function.update_of_ne hut]
            exact hi.inRange u
        · -- the call that has been made is no longer before the thread
          have hsplit : (∃ u, .track p ∈ a.calls u) ↔ p = q ∨ ∃ u, .track p ∈ Function.update a.calls t calls u := by
            constructor
            · rintro ⟨u, hu⟩
              by_cases hut : u = t
              · rw [hut, hcalls, List.mem_cons, SessionCall.track.injEq] at hu
                exact hu.imp_right fun hu => ⟨t, by rwa [Function.update_self]⟩
              · exact .inr ⟨u, by rwa [Function.update_of_ne hut]⟩
            · rintro (rfl | ⟨u, hu⟩)
              · exact ⟨t, by rw [hcalls]; exact List.mem_cons_self⟩
              · by_cases hut : u = t
                · rw [hut, Function.update_self] at hu
                  exact ⟨t, by rw [hcalls]; exact List.mem_cons_of_mem _ hu⟩
                · exact ⟨u, by rwa [Function.update_of_ne hut] at hu⟩
          rw [← hi.marked, hsplit, test_mark hi.accounted hq', or_assoc]

/-- **Marks alone are exact.** Any number of threads mark pages. However their accesses are interleaved, when all
have returned exactly the pages that were marked before and those that a thread has marked are, and the counter is
their number. -/
theorem marks_exact (ha : Accounted s) (hcalls : ∀ t, SessionCall.precopy ∉ progs t) (sched : List T)
    (hdone : ((threads s progs).run sched).Done) : ∃ s', ((threads s progs).run sched).mem = fields s' ∧
      Accounted s' ∧ ∀ p, Bitmap.test s'.dirtyPages p = true ↔
        Bitmap.test s.dirtyPages p = true ∨ p < s.totalPages ∧ ∃ t, .track p ∈ progs t := by
  choose progs' hrun hrange hmem using fun t => runCalls_filter (s := s) (hcalls t)
  have hthreads : threads s progs = (sections s).start ⟨s, progs'⟩ := by
    rw [threads, Serial.start]
    congr 1
    funext t
    exact (hrun t).symm
  have hinv : Invariant s progs' ⟨s, progs'⟩ fun _ => some (.inl ()) :=
    ⟨fun _ => rfl, ha, SameSession.refl s, hrange, fun p => Iff.rfl⟩
  rw [hthreads] at hdone ⊢
  obtain ⟨o, held, hs⟩ := (sections_disciplined s progs').refines hinv sched
  have hend := hs.inv
  refine ⟨_, hs.done hdone, hend.accounted, fun p => ?_⟩
  have hnone : ¬ ∃ t, .track p ∈
      ((sections s).runs (((sections s).start ⟨s, progs'⟩).entries sched) ⟨s, progs'⟩).calls t := by
    rintro ⟨t, ht⟩
    obtain ⟨v, hv⟩ := hdone t
    have hcode := hs.ret hv
    change runCalls s (Marks.calls _ t) = .ret v at hcode
    cases hcalls : Marks.calls _ t with
    | nil =>
      rw [hcalls] at ht
      cases ht
    | cons call calls =>
      obtain ⟨q, hq, rfl⟩ := hend.inRange t call (by rw [hcalls]; exact List.mem_cons_self)
      rw [hcalls, runCalls, SessionCall.code, migrationTrackDirtyPage, if_neg (UInt64.not_le.mpr hq)] at hcode
      cases hcode
  have hmarked := hend.marked p
  rw [or_iff_left hnone] at hmarked
  rw [hmarked]
  refine or_congr_right ⟨?_, ?_⟩
  · rintro ⟨t, ht⟩
    exact ⟨((hmem t p).mp ht).2, t, ((hmem t p).mp ht).1⟩
  · rintro ⟨hp, t, ht⟩
    exact ⟨t, (hmem t p).mpr ⟨ht, hp⟩⟩

end Interleavings

/-- Two threads that mark two pages each, one of them beyond the VM. -/
def twoMarkers (t : Bool) : List SessionCall := if t then [.track 1, .track 7] else [.track 1, .track 0]

theorem marks_exact_two_markers : ∃ s', Accounted s' ∧ s'.dirtyPageCount = 2 ∧ Bitmap.test s'.dirtyPages 1 = true ∧
    ((threads twoPages twoMarkers).run (List.replicate 40 [true, false]).flatten).mem = fields s' := by
  have hword : twoPages.dirtyPages = Bitmap.setAll (List.replicate 1 0) 1 := by decide
  have haccounted : Accounted twoPages := ⟨rfl, by decide, fun k hk => by
    change 2 ≤ k at hk
    rw [hword, Bitmap.bit_setAll (by decide) (by decide), Bitmap.bit_replicate_zero, Bool.false_or]
    exact decide_eq_false (by omega)⟩
  have hret : ∀ t, (((threads twoPages twoMarkers).run (List.replicate 40 [true, false]).flatten).code t).result =
      some () := by decide +kernel
  obtain ⟨s', hmem, ha, hmarked⟩ := marks_exact haccounted
    (fun t => by cases t <;> simp [twoMarkers]) _ fun t => ⟨(), Code.result_eq_some.mp (hret t)⟩
  refine ⟨s', ha, ?_, (hmarked 1).mpr (.inr ⟨by decide, true, by simp [twoMarkers]⟩), hmem⟩
  have hcount :
      ((threads twoPages twoMarkers).run (List.replicate 40 [true, false]).flatten).mem .dirtyPageCount = 2 := by
    decide +kernel
  rwa [hmem] at hcount

end NexusVM.Racing
