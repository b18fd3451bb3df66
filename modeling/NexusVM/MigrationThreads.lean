import NexusVM.Lib.Rely
import NexusVM.Precopy

/-!
# Live migration under any interleaving

The guest's threads mark pages while the migration thread copies. `migration_track_dirty_page` holds the lock of
the session, the page loop of `migration_precopy` does not: each access to a field of the session is a step of its
own.

* `Field`, `fields`: what the threads share;
* `migrationTrackDirtyPage`, `precopyPages`, `migrationPrecopy`: the functions, one access at a time;
* `SessionCall`, `runCalls`, `threads`, `Finished`: threads that make some calls, and what they have finished;
* `Marking`, `Copying`, `guarantee`: what a marking and a copying thread may do to the session;
* `safe_migrationTrackDirtyPage`, `safe_migrationPrecopy`: that they do no more;
* `threads_together`: nor do the threads together, under any schedule;
* **`racing_marks_kept`**: which marks survive, whatever the interleaving.
-/

namespace NexusVM.Racing

open Threads

variable {T : Type}

/-! ## Sessions -/

/-- A field of a session. `copied i` is not one: it records that the page has been copied, where the source says
that it would be. -/
inductive Field
  | word (i : UInt64)
  | copied (i : UInt64)
  | state
  | dirtyPageCount
  | transferredPages
  | iteration
  | statsDirtyPages
  | statsTransferredPages
  | statsRemainingPages
deriving DecidableEq

/-- The value of the enumerator. -/
def stateWord : MigrationState → UInt64
  | .initiated => 0
  | .precopy => 1
  | .stopAndCopy => 2
  | .setup => 3
  | .transfer => 4
  | .resume => 5
  | .completed => 6
  | .failed => 7
  | .cancelled => 8

/-- A session in memory. -/
def fields (s : MigrationSession) : Field → UInt64
  | .word i => s.dirtyPages.getD i.toNat 0
  | .copied _ => 0
  | .state => stateWord s.state
  | .dirtyPageCount => s.dirtyPageCount
  | .transferredPages => s.transferredPages
  | .iteration => s.iteration
  | .statsDirtyPages => s.stats.dirtyPages
  | .statsTransferredPages => s.stats.transferredPages
  | .statsRemainingPages => s.stats.remainingPages

/-- The word has the bit of the page. -/
def Has (x p : UInt64) : Prop := x &&& Bitmap.mask p ≠ 0

instance (x p : UInt64) : Decidable (Has x p) := inferInstanceAs (Decidable (_ ≠ _))

/-- The page is marked. -/
def Dirty (m : Field → UInt64) (p : UInt64) : Prop := Has (m (.word (p / 64))) p

/-- The page has been copied. -/
def Copied (m : Field → UInt64) (p : UInt64) : Prop := m (.copied p) ≠ 0

/-- What a thread is still to do. The lock is that of the session. -/
abbrev SessionCode : Type → Type := Code Unit Field UInt64

def load (x : Field) : SessionCode UInt64 := .load x .ret

def store (x : Field) (v : UInt64) : SessionCode Unit := .store x v (.ret ())

/-- `spinlock_lock` of the session -/
def spinlockLock : SessionCode Unit := .lock () (.ret ())

/-- `spinlock_unlock` of the session -/
def spinlockUnlock : SessionCode Unit := .unlock () (.ret ())

/-- `s->state = …` under the lock -/
def setState (state : MigrationState) : SessionCode Unit := do
  spinlockLock
  store .state (stateWord state)
  spinlockUnlock

/-! ## Functions -/

/-- The part of `migration_track_dirty_page` for a page that is not marked. -/
def markPage (pageFrame : UInt64) : SessionCode Unit := do
  store (.word (pageFrame / 64)) ((← load (.word (pageFrame / 64))) ||| Bitmap.mask pageFrame)
  store .dirtyPageCount ((← load .dirtyPageCount) + 1)

/-- The locked part of `migration_track_dirty_page`. -/
def trackPage (pageFrame : UInt64) : SessionCode Unit := do
  let word ← load (.word (pageFrame / 64))
  if Has word pageFrame then return () else markPage pageFrame

/-- `migration_track_dirty_page` -/
def migrationTrackDirtyPage (s : MigrationSession) (pageFrame : UInt64) : SessionCode Unit :=
  if pageFrame ≥ s.totalPages then return ()
  else do
    spinlockLock
    trackPage pageFrame
    spinlockUnlock

/-- The counters of `migration_precopy` for a page. -/
def countPage : SessionCode Unit := do
  store .transferredPages ((← load .transferredPages) + 1)
  store .dirtyPageCount ((← load .dirtyPageCount) - 1)

/-- What `migration_precopy` does to a page that is marked. -/
def copyPage (i : UInt64) : SessionCode Unit := do
  store (.copied i) 1
  store (.word (i / 64)) ((← load (.word (i / 64))) &&& ~~~ Bitmap.mask i)
  countPage

/-- The page loop of `migration_precopy`. -/
def precopyPages : List UInt64 → UInt64 → SessionCode Unit
  | [], _ => return ()
  | i :: is, pagesThisIteration =>
    if pagesThisIteration < 10000 then do
      let word ← load (.word (i / 64))
      if Has word i then do
        copyPage i
        precopyPages is (pagesThisIteration + 1)
      else precopyPages is pagesThisIteration
    else return ()

/-- The statistics that `migration_precopy` leaves. -/
def updateStats : SessionCode Unit := do
  store .iteration ((← load .iteration) + 1)
  store .statsDirtyPages (← load .dirtyPageCount)
  store .statsTransferredPages (← load .transferredPages)
  store .statsRemainingPages (← load .dirtyPageCount)

/-- The end of `migration_precopy`. -/
def checkConverged (s : MigrationSession) : SessionCode Unit := do
  let dirtyPageCount ← load .dirtyPageCount
  if dirtyPageCount < 100 then setState .stopAndCopy
  else do
    let iteration ← load .iteration
    if iteration > s.config.maxConvergenceIterations.toUInt64 then setState .stopAndCopy else return ()

/-- `migration_precopy` -/
def migrationPrecopy (s : MigrationSession) : SessionCode Unit := do
  setState .precopy
  precopyPages (frames s.totalPages) 0
  updateStats
  checkConverged s

/-! ## Threads -/

/-- A call on the session. -/
inductive SessionCall
  | precopy
  | track (pageFrame : UInt64)
deriving DecidableEq

def SessionCall.code (s : MigrationSession) : SessionCall → SessionCode Unit
  | .precopy => migrationPrecopy s
  | .track pageFrame => migrationTrackDirtyPage s pageFrame

/-- A thread that makes some calls. -/
def runCalls (s : MigrationSession) : List SessionCall → SessionCode Unit
  | [] => return ()
  | call :: calls => do
    call.code s
    runCalls s calls

/-- The threads with their calls before them. -/
def threads (s : MigrationSession) (progs : T → List SessionCall) : Config Unit Field UInt64 T Unit where
  mem := fields s
  taken _ := false
  code t := runCalls s (progs t)

/-- The thread has finished its first calls: if it had no others it would have returned. -/
structure Finished [DecidableEq T] (s : MigrationSession) (progs : T → List SessionCall) (t : T)
    (calls : List SessionCall) (sched : List T) : Prop where
  first : calls <+: progs t
  returned : ∃ pre, pre <+: sched ∧ ((threads s (Function.update progs t calls)).run pre).code t = .ret ()

/-! ## Bits of words -/

section Bits

variable {x p q : UInt64}

theorem eq_of_mod_eq (hword : p / 64 = q / 64) (hmod : q.toNat % 64 = p.toNat % 64) : p = q := by
  have hdiv := congrArg UInt64.toNat hword
  rw [UInt64.toNat_div, UInt64.toNat_div] at hdiv
  change p.toNat / 64 = q.toNat / 64 at hdiv
  exact UInt64.toNat_inj.mp (by omega)

theorem has_or_mask (hword : p / 64 = q / 64) : Has (x ||| Bitmap.mask q) p ↔ Has x p ∨ p = q := by
  rw [Has, Has, Bitmap.and_mask_ne_zero, Bitmap.and_mask_ne_zero, Bitmap.getLsbD_or_mask, Bool.or_eq_true,
    decide_eq_true_iff]
  refine or_congr_right ⟨eq_of_mod_eq hword, ?_⟩
  rintro rfl
  rfl

theorem has_and_not_mask (hword : p / 64 = q / 64) : Has (x &&& ~~~ Bitmap.mask q) p ↔ Has x p ∧ p ≠ q := by
  rw [Has, Has, Bitmap.and_mask_ne_zero, Bitmap.and_mask_ne_zero,
    Bitmap.getLsbD_and_not_mask _ _ (Nat.mod_lt _ (by decide)), Bool.and_eq_true, Bool.not_eq_true',
    decide_eq_false_iff_not]
  refine and_congr_right fun _ => not_congr ⟨eq_of_mod_eq hword, ?_⟩
  rintro rfl
  rfl

variable {m : Field → UInt64} {v : UInt64} {y : Field}

theorem dirty_update_word (i : UInt64) :
    Dirty (Function.update m (.word i) v) p ↔ if p / 64 = i then Has v p else Dirty m p := by
  unfold Dirty
  rw [Function.update_apply]
  by_cases hi : p / 64 = i
  · rw [if_pos hi, if_pos (by rw [hi])]
  · rw [if_neg hi, if_neg (by simpa using hi)]

theorem copied_update_word (i : UInt64) : Copied (Function.update m (.word i) v) p ↔ Copied m p := by
  unfold Copied
  rw [Function.update_of_ne (by simp)]

theorem dirty_update_copied (i : UInt64) : Dirty (Function.update m (.copied i) v) p ↔ Dirty m p := by
  unfold Dirty
  rw [Function.update_of_ne (by simp)]

theorem copied_update_copied (i : UInt64) :
    Copied (Function.update m (.copied i) 1) p ↔ p = i ∨ Copied m p := by
  unfold Copied
  rw [Function.update_apply]
  by_cases hp : p = i
  · simp [hp]
  · simp [hp]

/-- A field that says nothing of single pages. -/
def Field.Quiet : Field → Prop
  | .word _ | .copied _ => False
  | _ => True

theorem dirty_update_quiet (hy : y.Quiet) : Dirty (Function.update m y v) p ↔ Dirty m p := by
  unfold Dirty
  rw [Function.update_of_ne]
  rintro rfl
  exact hy

theorem copied_update_quiet (hy : y.Quiet) : Copied (Function.update m y v) p ↔ Copied m p := by
  unfold Copied
  rw [Function.update_of_ne]
  rintro rfl
  exact hy

end Bits

/-! ## What threads may do -/

section Guarantees

variable {D : UInt64 → Bool} {S C F : UInt64 → Prop} {m m' : Field → UInt64} {main t : T} {H : Set Unit}
  {p q : UInt64}

/-- A step of a thread that marks pages of `S`. -/
structure Marking (S : UInt64 → Prop) (m m' : Field → UInt64) : Prop where
  copied : ∀ p, Copied m' p ↔ Copied m p
  grow : ∀ p, Dirty m p → Dirty m' p
  new : ∀ p, Dirty m' p → Dirty m p ∨ S p

/-- A step of a thread that copies pages of `C`, and loses no mark of `D`. -/
structure Copying (D : UInt64 → Bool) (C : UInt64 → Prop) (m m' : Field → UInt64) : Prop where
  copied : ∀ p, Copied m p → Copied m' p
  new : ∀ p, Copied m' p → Copied m p ∨ C p
  shrink : ∀ p, Dirty m' p → Dirty m p
  lost : ∀ p, Dirty m p → Dirty m' p ∨ ∃ i, i / 64 = p / 64 ∧ Copied m' i
  kept : ∀ p, D p = true → Dirty m p → Dirty m' p ∨ Copied m' p

/-- A thread marks pages under the lock only. One thread copies pages. -/
def guarantee (D : UInt64 → Bool) (S C : UInt64 → Prop) (main : T) : Guarantee Unit Field UInt64 T :=
  fun t H m m' => (() ∈ H ∧ Marking S m m') ∨ (t = main ∧ Copying D C m m')

/-- No mark of `D` is lost, marks are of pages of `S`, and the pages that have been copied are of `C`. -/
structure Account (D : UInt64 → Bool) (S C : UInt64 → Prop) (m : Field → UInt64) : Prop where
  kept : ∀ p, D p = true → Dirty m p ∨ Copied m p
  known : ∀ p, Dirty m p → S p
  chosen : ∀ p, Copied m p → C p

/-- The mark of the page is there, or may have been lost with the copying of a page of its word. -/
def Kept (q : UInt64) (m : Field → UInt64) : Prop := Dirty m q ∨ ∃ i, i / 64 = q / 64 ∧ Copied m i

/-- The pages of `F` have not been copied. -/
def Fresh (F : UInt64 → Prop) (m : Field → UInt64) : Prop := ∀ p, F p → ¬ Copied m p

theorem Account.step (ha : Account D S C m) (hg : guarantee D S C main t H m m') : Account D S C m' := by
  obtain ⟨-, hm⟩ | ⟨-, hc⟩ := hg
  · refine ⟨fun p hp => ?_, fun p hp => ?_, fun p hp => ha.chosen p ((hm.copied p).mp hp)⟩
    · exact (ha.kept p hp).imp (hm.grow p) (hm.copied p).mpr
    · exact (hm.new p hp).elim (ha.known p) id
  · refine ⟨fun p hp => ?_, fun p hp => ha.known p (hc.shrink p hp), fun p hp => ?_⟩
    · exact (ha.kept p hp).elim (hc.kept p hp) fun hcopied => .inr (hc.copied p hcopied)
    · exact (hc.new p hp).elim (ha.chosen p) id

theorem Kept.step (hk : Kept q m) (hg : guarantee D S C main t H m m') : Kept q m' := by
  obtain ⟨-, hm⟩ | ⟨-, hc⟩ := hg
  · exact hk.imp (hm.grow q) fun hex => hex.imp fun i hi => ⟨hi.1, (hm.copied i).mpr hi.2⟩
  · exact hk.elim (hc.lost q) fun hex => .inr (hex.imp fun i hi => ⟨hi.1, hc.copied i hi.2⟩)

theorem marking_of_rely (hr : Rely (guarantee D S C main) main H m m') : Marking S m m' := by
  obtain ⟨hu, -, ⟨-, hm⟩ | ⟨hmain, -⟩⟩ := hr
  · exact hm
  · exact absurd hmain hu

theorem copying_of_rely (hH : () ∈ H) (hr : Rely (guarantee D S C main) t H m m') : Copying D C m m' := by
  obtain ⟨-, hexcl, ⟨hH', -⟩ | ⟨-, hc⟩⟩ := hr
  · exact absurd hH' (hexcl () hH)
  · exact hc

/-- What the thread knows survives the steps of the others and its own stores to quiet fields. -/
structure Knows (G : Guarantee Unit Field UInt64 T) (t : T) (H : Set Unit) (P : (Field → UInt64) → Prop) :
    Prop where
  stable : Stable G t H P
  quiet : ∀ {m x v}, Field.Quiet x → P m → P (Function.update m x v)

theorem Knows.and {G : Guarantee Unit Field UInt64 T} {P P' : (Field → UInt64) → Prop} (h : Knows G t H P)
    (h' : Knows G t H P') : Knows G t H fun m => P m ∧ P' m :=
  ⟨h.stable.and h'.stable, fun hx hP => ⟨h.quiet hx hP.1, h'.quiet hx hP.2⟩⟩

/-- What no step of any thread changes. -/
def Lasting (G : Guarantee Unit Field UInt64 T) (P : (Field → UInt64) → Prop) : Prop :=
  ∀ u H m m', P m → G u H m m' → P m'

theorem Lasting.and {G : Guarantee Unit Field UInt64 T} {P P' : (Field → UInt64) → Prop} (h : Lasting G P)
    (h' : Lasting G P') : Lasting G fun m => P m ∧ P' m :=
  fun u H m m' hm hg => ⟨h u H m m' hm.1 hg, h' u H m m' hm.2 hg⟩

theorem guarantee_quiet {x : Field} {v : UInt64} (hx : x.Quiet) (hfree : t = main ∨ () ∈ H) :
    guarantee D S C main t H m (Function.update m x v) := by
  have hd : ∀ p, Dirty (Function.update m x v) p ↔ Dirty m p := fun p => dirty_update_quiet hx
  have hc : ∀ p, Copied (Function.update m x v) p ↔ Copied m p := fun p => copied_update_quiet hx
  rcases hfree with rfl | hH
  · exact .inr ⟨rfl, fun p => (hc p).mpr, fun p hp => .inl ((hc p).mp hp), fun p => (hd p).mp,
      fun p hp => .inl ((hd p).mpr hp), fun p _ hp => .inl ((hd p).mpr hp)⟩
  · exact .inl ⟨hH, hc, fun p => (hd p).mpr, fun p hp => .inl ((hd p).mp hp)⟩

theorem Lasting.knows {P : (Field → UInt64) → Prop} (h : Lasting (guarantee D S C main) P) :
    Knows (guarantee D S C main) t H P where
  stable := by
    rintro m m' hm ⟨-, -, hg⟩
    exact h _ _ m m' hm hg
  quiet := fun hx hm => h main ∅ _ _ hm (guarantee_quiet hx (.inl rfl))

theorem lasting_account : Lasting (guarantee D S C main) (Account D S C) := fun _ _ _ _ => Account.step

theorem lasting_kept : Lasting (guarantee D S C main) (Kept q) := fun _ _ _ _ => Kept.step

theorem knows_fresh : Knows (guarantee D S C main) main H (Fresh F) where
  stable m m' hf hr p hp := by
    rw [(marking_of_rely hr).copied]
    exact hf p hp
  quiet := fun hx hf p hp => by
    rw [copied_update_quiet hx]
    exact hf p hp

end Guarantees

/-! ## What the functions do -/

section Functions

variable {s : MigrationSession} {D : UInt64 → Bool} {S C F : UInt64 → Prop} {m : Field → UInt64} {main t : T}
  {H : Set Unit} {P : (Field → UInt64) → Prop} {q i : UInt64} {pre is : List UInt64} {n : UInt64}

theorem safe_update {x y : Field} {f : UInt64 → UInt64} (hk : Knows (guarantee D S C main) t H P)
    (hfree : t = main ∨ () ∈ H) (hx : x.Quiet) (hm : P m) :
    (load y >>= fun v => store x (f v)).Safe (guarantee D S C main) t (fun _ H' m => H' = H ∧ P m) H m :=
  .load hk.stable hm fun _ hm => .store hk.stable hm fun _ hm =>
    ⟨guarantee_quiet hx hfree, .ret hk.stable (hk.quiet hx hm) fun _ hm => ⟨rfl, hm⟩⟩

theorem safe_setState {state : MigrationState}
    (hk : ∀ H, Knows (guarantee D S C main) main H P) (hm : P m) :
    (setState state).Safe (guarantee D S C main) main (fun _ _ m => P m) H m :=
  .lock (hk H).stable hm fun _ hm => .store (hk _).stable hm fun _ hm =>
    ⟨guarantee_quiet trivial (.inl rfl), .unlock (hk _).stable ((hk H).quiet trivial hm) (Set.mem_insert _ _)
      fun _ hm => .ret (hk _).stable hm fun _ hm => hm⟩

theorem trackPage_eq (q : UInt64) : trackPage q =
    .load (.word (q / 64)) fun word => if Has word q then .ret () else markPage q := rfl

theorem markPage_eq (q : UInt64) : markPage q = .load (.word (q / 64)) fun word =>
    .store (.word (q / 64)) (word ||| Bitmap.mask q)
      (load .dirtyPageCount >>= fun n => store .dirtyPageCount (n + 1)) := rfl

/-- **A page is marked** under the lock. -/
theorem safe_markPage (hP : Lasting (guarantee D S C main) P) (haccount : ∀ m, P m → Account D S C m) (hS : S q)
    (hH : () ∈ H) (hm : P m) :
    (markPage q).Safe (guarantee D S C main) t (fun _ H' m => H' = H ∧ P m ∧ Kept q m) H m := by
  rw [markPage_eq]
  refine .load hP.knows.stable hm fun m₁ hm₁ => ?_
  have ha₁ := haccount m₁ hm₁
  generalize hword : m₁ (.word (q / 64)) = word
  have hread : ∀ p, p / 64 = q / 64 → (Has word p ↔ Dirty m₁ p) := fun p hp => by rw [Dirty, hp, hword]
  -- the word that has been read has every mark that is still there
  have hstable : Stable (guarantee D S C main) t H fun m => P m ∧ ∀ p, p / 64 = q / 64 → Dirty m p → Has word p :=
    hP.knows.stable.and fun m m' hm hr p hp hd => hm p hp ((copying_of_rely hH hr).shrink p hd)
  refine .store hstable ⟨hm₁, fun p hp => (hread p hp).mpr⟩ fun m hm => ?_
  have hdirty : ∀ p, Dirty (Function.update m (.word (q / 64)) (word ||| Bitmap.mask q)) p ↔
      if p / 64 = q / 64 then Has word p ∨ p = q else Dirty m p := by
    intro p
    rw [dirty_update_word]
    split_ifs with hp
    · exact has_or_mask hp
    · rfl
  have hmark : Marking S m (Function.update m (.word (q / 64)) (word ||| Bitmap.mask q)) := by
    refine ⟨fun p => copied_update_word _, fun p hp => ?_, fun p hp => ?_⟩
    · rw [hdirty]
      split_ifs with hpq
      · exact .inl (hm.2 p hpq hp)
      · exact hp
    · rw [hdirty] at hp
      split_ifs at hp with hpq
      · rcases hp with hp | rfl
        · exact .inr (ha₁.known p ((hread p hpq).mp hp))
        · exact .inr hS
      · exact .inl hp
  have hg : guarantee D S C main t H m _ := .inl ⟨hH, hmark⟩
  refine ⟨hg, safe_update (hP.and lasting_kept).knows (.inr hH) trivial ⟨hP _ _ _ _ hm.1 hg, .inl ?_⟩⟩
  rw [hdirty, if_pos rfl]
  exact .inr rfl

/-- **`migration_track_dirty_page`** leaves the mark of a page of the VM. -/
theorem safe_migrationTrackDirtyPage (hP : Lasting (guarantee D S C main) P) (haccount : ∀ m, P m → Account D S C m)
    (hS : S q) (hm : P m) : (migrationTrackDirtyPage s q).Safe (guarantee D S C main) t
      (fun _ _ m => P m ∧ (q < s.totalPages → Kept q m)) H m := by
  have hk : ∀ H, Knows (guarantee D S C main) t H fun m => P m ∧ Kept q m := fun H => (hP.and lasting_kept).knows
  unfold migrationTrackDirtyPage
  split_ifs with hq
  · exact .ret hP.knows.stable hm fun m hm => ⟨hm, fun hlt => absurd hq (UInt64.not_le.mpr hlt)⟩
  · refine .lock hP.knows.stable hm fun m hm => ?_
    have htrack : (trackPage q).Safe (guarantee D S C main) t
        (fun _ H' m => H' = insert () H ∧ P m ∧ Kept q m) (insert () H) m := by
      rw [trackPage_eq]
      refine .load hP.knows.stable hm fun m hm => ?_
      split_ifs with hword
      · exact .ret (hk _).stable ⟨hm, .inl hword⟩ fun _ hm => ⟨rfl, hm⟩
      · exact safe_markPage hP haccount hS (Set.mem_insert _ _) hm
    refine htrack.seq fun _ m hm => .unlock (hk _).stable hm (Set.mem_insert _ _) fun m hm => ?_
    exact .ret (hk _).stable hm fun m hm => ⟨hm.1, fun _ => hm.2⟩

theorem copyPage_eq (i : UInt64) : copyPage i = .store (.copied i) 1 (.load (.word (i / 64)) fun word =>
    .store (.word (i / 64)) (word &&& ~~~ Bitmap.mask i) countPage) := rfl

theorem knows_copying (hP : Lasting (guarantee D S C main) P) :
    Knows (guarantee D S C main) main H fun m => P m ∧ Fresh F m :=
  hP.knows.and knows_fresh

theorem safe_countPage (hP : Lasting (guarantee D S C main) P) (hm : P m ∧ Fresh F m) :
    countPage.Safe (guarantee D S C main) main (fun _ H' m => H' = H ∧ P m ∧ Fresh F m) H m :=
  (safe_update (x := .transferredPages) (f := (· + 1)) (knows_copying hP) (.inl rfl) trivial hm).seq fun _ _ hm =>
    safe_update (x := .dirtyPageCount) (f := (· - 1)) (knows_copying hP) (.inl rfl) trivial hm

/-- **A page is copied** without the lock. -/
theorem safe_copyPage (hP : Lasting (guarantee D S C main) P) (haccount : ∀ m, P m → Account D S C m) (hC : C i)
    (hF : ¬ F i) (hm : P m ∧ Fresh F m) :
    (copyPage i).Safe (guarantee D S C main) main (fun _ H' m => H' = H ∧ P m ∧ Fresh F m) H m := by
  rw [copyPage_eq]
  refine .store (knows_copying hP).stable hm fun m hm => ?_
  have hcopy : guarantee D S C main main H m (Function.update m (.copied i) 1) := by
    refine .inr ⟨rfl, fun p hp => (copied_update_copied i).mpr (.inr hp), fun p hp => ?_,
      fun p => (dirty_update_copied i).mp, fun p hp => .inl ((dirty_update_copied i).mpr hp),
      fun p _ hp => .inl ((dirty_update_copied i).mpr hp)⟩
    rcases (copied_update_copied i).mp hp with rfl | hp
    · exact .inr hC
    · exact .inl hp
  refine ⟨hcopy, ?_⟩
  -- from here on the page counts as copied
  have hcopied : Knows (guarantee D S C main) main H fun m => (P m ∧ Fresh F m) ∧ Copied m i := by
    refine (knows_copying hP).and ⟨fun m m' hm hr => ((marking_of_rely hr).copied i).mpr hm, fun hx hm => ?_⟩
    exact (copied_update_quiet hx).mpr hm
  refine .load hcopied.stable ⟨⟨hP _ _ _ _ hm.1 hcopy, fun p hp hc => ?_⟩, (copied_update_copied i).mpr (.inl rfl)⟩
    fun m₁ hm₁ => ?_
  · rcases (copied_update_copied i).mp hc with rfl | hc
    · exact hF hp
    · exact hm.2 p hp hc
  have ha₁ := haccount m₁ hm₁.1.1
  generalize hword : m₁ (.word (i / 64)) = word
  have hread : ∀ p, p / 64 = i / 64 → (Has word p ↔ Dirty m₁ p) := fun p hp => by rw [Dirty, hp, hword]
  -- the marks of the word that has been read are there, and all those of `D` that are not copied
  have hstable : Stable (guarantee D S C main) main H fun m => ((P m ∧ Fresh F m) ∧ Copied m i) ∧
      (∀ p, p / 64 = i / 64 → Has word p → Dirty m p) ∧
      ∀ p, p / 64 = i / 64 → D p = true → Has word p ∨ Copied m p := by
    refine hcopied.stable.and (.and (fun m m' hm hr p hp hw => (marking_of_rely hr).grow p (hm p hp hw))
      fun m m' hm hr p hp hD => ?_)
    exact (hm p hp hD).imp_right ((marking_of_rely hr).copied p).mpr
  refine .store hstable ⟨hm₁, fun p hp => (hread p hp).mp, fun p hp hD => ?_⟩ fun m hm => ?_
  · exact (ha₁.kept p hD).imp_left (hread p hp).mpr
  obtain ⟨⟨⟨hPm, hfresh⟩, hi⟩, hthere, hkept⟩ := hm
  have hdirty : ∀ p, Dirty (Function.update m (.word (i / 64)) (word &&& ~~~ Bitmap.mask i)) p ↔
      if p / 64 = i / 64 then Has word p ∧ p ≠ i else Dirty m p := by
    intro p
    rw [dirty_update_word]
    split_ifs with hp
    · exact has_and_not_mask hp
    · rfl
  have hclear : guarantee D S C main main H m
      (Function.update m (.word (i / 64)) (word &&& ~~~ Bitmap.mask i)) := by
    refine .inr ⟨rfl, fun p => (copied_update_word _).mpr, fun p hp => .inl ((copied_update_word _).mp hp),
      fun p hp => ?_, fun p hp => ?_, fun p hD hp => ?_⟩
    · rw [hdirty] at hp
      split_ifs at hp with hpi
      · exact hthere p hpi hp.1
      · exact hp
    · rw [hdirty]
      split_ifs with hpi
      · exact .inr ⟨i, hpi.symm, (copied_update_word _).mpr hi⟩
      · exact .inl hp
    · rw [hdirty]
      split_ifs with hpi
      · by_cases hpi' : p = i
        · exact .inr ((copied_update_word _).mpr (hpi' ▸ hi))
        · exact (hkept p hpi hD).imp (fun hw => ⟨hw, hpi'⟩) (copied_update_word _).mpr
      · exact .inl hp
  refine ⟨hclear, safe_countPage hP ⟨hP _ _ _ _ hPm hclear, fun p hp hc => ?_⟩⟩
  exact hfresh p hp ((copied_update_word _).mp hc)

/-- The pages of the VM that come before others, as the loop of a single round has met them. -/
def Turn (D : UInt64 → Bool) (s : MigrationSession) (once : Prop) (S C : UInt64 → Prop) : Prop :=
  ∀ pre i post, pre ++ i :: post = frames s.totalPages → S i → (once → pre.countP D < 10000) → C i

theorem precopyPages_cons (i : UInt64) (is : List UInt64) {n : UInt64} (hn : n < 10000) :
    precopyPages (i :: is) n = .load (.word (i / 64)) fun word =>
      if Has word i then copyPage i >>= fun _ => precopyPages is (n + 1) else precopyPages is n := by
  rw [precopyPages, if_pos hn]
  rfl

/-- **The page loop** copies pages of `C` only. In a single round no page is copied after 10000 pages of `D`. -/
theorem safe_precopyPages {once : Prop} (hP : Lasting (guarantee D S C main) P)
    (haccount : ∀ m, P m → Account D S C m) (hC : Turn D s once S C) (hpages : pre ++ is = frames s.totalPages)
    (hcount : once → pre.countP D ≤ n.toNat) (hm : P m ∧ Fresh (fun p => once ∧ p ∈ is) m) :
    (precopyPages is n).Safe (guarantee D S C main) main (fun _ H' m => H' = H ∧ P m) H m := by
  induction is generalizing pre n m with
  | nil => exact .ret hP.knows.stable hm.1 fun m hm => ⟨rfl, hm⟩
  | cons i is ih =>
    by_cases hn : n < 10000
    · have hnat : n.toNat < 10000 := UInt64.lt_iff_toNat_lt.mp hn
      have hsucc : (n + 1).toNat = n.toNat + 1 := by
        rw [UInt64.toNat_add, UInt64.toNat_one, Nat.mod_eq_of_lt (by omega)]
      have hnodup : (pre ++ i :: is).Nodup := hpages ▸ nodup_frames _
      have hi : i ∉ is := (List.nodup_cons.mp (List.nodup_append.mp hnodup).2.1).1
      have hpages' : (pre ++ [i]) ++ is = frames s.totalPages := by rw [List.append_assoc]; exact hpages
      rw [precopyPages_cons i is hn]
      refine .load (knows_copying hP).stable hm fun m hm => ?_
      have ha := haccount m hm.1
      have hrest : Fresh (fun p => once ∧ p ∈ is) m := fun p hp => hm.2 p ⟨hp.1, List.mem_cons_of_mem _ hp.2⟩
      split_ifs with hword
      · have hCi : C i := hC pre i is hpages (ha.known i hword) fun ho => (hcount ho).trans_lt hnat
        refine (safe_copyPage hP haccount hCi (fun hf => hi hf.2) ⟨hm.1, hrest⟩).seq fun _ m hm => ?_
        refine ih hpages' (fun ho => ?_) hm
        rw [List.countP_append, hsucc]
        exact Nat.add_le_add (hcount ho) List.countP_le_length
      · refine ih hpages' (fun ho => ?_) ⟨hm.1, hrest⟩
        -- a page of `D` that is not marked has been copied before
        have hD : ¬ D i = true := fun hD =>
          (ha.kept i hD).elim hword (hm.2 i ⟨ho, List.mem_cons_self⟩)
        rw [List.countP_append, List.countP_singleton, if_neg hD]
        exact hcount ho
    · rw [precopyPages, if_neg hn]
      exact .ret hP.knows.stable hm.1 fun m hm => ⟨rfl, hm⟩

/-- **`migration_precopy`** -/
theorem safe_migrationPrecopy {once : Prop} (hP : Lasting (guarantee D S C main) P)
    (haccount : ∀ m, P m → Account D S C m) (hC : Turn D s once S C) (hm : P m ∧ Fresh (fun _ => once) m) :
    (migrationPrecopy s).Safe (guarantee D S C main) main (fun _ _ m => P m) H m := by
  have hk : ∀ H, Knows (guarantee D S C main) main H P := fun H => hP.knows
  have hstats : ∀ {H m}, P m → updateStats.Safe (guarantee D S C main) main (fun _ H' m => H' = H ∧ P m) H m := by
    intro H m hm
    refine (safe_update (x := .iteration) (f := (· + 1)) (hk H) (.inl rfl) trivial hm).seq fun _ m hm => ?_
    refine (safe_update (x := .statsDirtyPages) (f := id) (hk H) (.inl rfl) trivial hm).seq fun _ m hm => ?_
    refine (safe_update (x := .statsTransferredPages) (f := id) (hk H) (.inl rfl) trivial hm).seq fun _ m hm => ?_
    exact safe_update (x := .statsRemainingPages) (f := id) (hk H) (.inl rfl) trivial hm
  refine ((safe_setState (fun H => knows_copying hP) hm).mono fun _ H m hm => ?_).bind
  refine (safe_precopyPages hP haccount hC (List.nil_append _) (fun _ => Nat.zero_le _)
    ⟨hm.1, fun p hp => hm.2 p hp.1⟩).seq fun _ m hm => ?_
  refine (hstats hm).seq fun _ m hm => .load (hk H).stable hm fun m hm => ?_
  change Code.Safe _ _ _ (if _ then _ else _) _ _
  split_ifs
  · exact safe_setState hk hm
  · refine .load (hk H).stable hm fun m hm => ?_
    change Code.Safe _ _ _ (if _ then _ else _) _ _
    split_ifs
    · exact safe_setState hk hm
    · exact .ret (hk H).stable hm fun m hm => hm

/-- **A thread that makes some calls.** Only one makes rounds. -/
theorem safe_runCalls {calls : List SessionCall} (hP : Lasting (guarantee D S C main) P)
    (haccount : ∀ m, P m → Account D S C m) (hS : ∀ q, .track q ∈ calls → S q)
    (hround : .precopy ∈ calls → t = main ∧ Turn D s False S C) (hm : P m) :
    (runCalls s calls).Safe (guarantee D S C main) t
      (fun _ _ m => P m ∧ ∀ q, .track q ∈ calls → q < s.totalPages → Kept q m) H m := by
  induction calls generalizing P H m with
  | nil => exact .ret hP.knows.stable hm fun m hm => ⟨hm, fun q hq => by cases hq⟩
  | cons call calls ih =>
    have hS' : ∀ q, .track q ∈ calls → S q := fun q hq => hS q (List.mem_cons_of_mem _ hq)
    have hround' : .precopy ∈ calls → t = main ∧ Turn D s False S C := fun hmem =>
      hround (List.mem_cons_of_mem _ hmem)
    refine Code.Safe.bind ?_
    cases call with
    | precopy =>
      obtain ⟨rfl, hC⟩ := hround List.mem_cons_self
      refine (safe_migrationPrecopy hP haccount hC ⟨hm, fun p hp => hp.elim⟩).mono fun _ H m hm => ?_
      refine (ih hP haccount hS' hround' hm).mono fun _ H m hm => ⟨hm.1, fun q hq => ?_⟩
      exact hm.2 q ((List.mem_cons.mp hq).resolve_left (by simp))
    | track q =>
      refine (safe_migrationTrackDirtyPage hP haccount (hS q List.mem_cons_self) hm).mono fun _ H m hm => ?_
      have hP' : Lasting (guarantee D S C main) fun m => P m ∧ (q < s.totalPages → Kept q m) :=
        hP.and fun u H m m' hk hg hq => (hk hq).step hg
      refine (ih hP' (fun m hm => haccount m hm.1) hS' hround' hm).mono fun _ H m hm => ⟨hm.1.1, fun q' hq' => ?_⟩
      rcases List.mem_cons.mp hq' with heq | hq'
      · cases heq
        exact hm.1.2
      · exact hm.2 q' hq'

end Functions

/-! ## Interleavings -/

section Interleavings

variable [DecidableEq T] {s : MigrationSession} {progs : T → List SessionCall} {main : T} {sched : List T}

omit [DecidableEq T] in
theorem dirty_fields (s : MigrationSession) (p : UInt64) :
    Dirty (fields s) p ↔ Bitmap.test s.dirtyPages p = true := by
  rw [Bitmap.test, decide_eq_true_iff]
  rfl

omit [DecidableEq T] in
theorem not_copied_fields (s : MigrationSession) (p : UInt64) : ¬ Copied (fields s) p := fun h => h rfl

omit [DecidableEq T] in
theorem runCalls_append (s : MigrationSession) (calls more : List SessionCall) :
    runCalls s (calls ++ more) = runCalls s calls >>= fun _ => runCalls s more := by
  induction calls with
  | nil => rfl
  | cons call calls ih =>
    rw [List.cons_append, runCalls, runCalls, ih, Code.bind_assoc]

theorem threads_andThen {t : T} {calls more : List SessionCall} (h : calls ++ more = progs t) :
    (threads s (Function.update progs t calls)).andThen t (fun _ => runCalls s more) = threads s progs := by
  rw [Config.andThen, Config.goto, threads, threads]
  congr 1
  funext u
  dsimp only
  by_cases hu : u = t
  · subst hu
    rw [Function.update_self, Function.update_self, ← h, runCalls_append]
  · rw [Function.update_of_ne hu, Function.update_of_ne hu]

/-- What the threads do to the session, together. -/
theorem threads_together (progs : T → List SessionCall)
    (hmain : ∀ t, t ≠ main → SessionCall.precopy ∉ progs t) {S : UInt64 → Prop}
    (hstart : ∀ p, Bitmap.test s.dirtyPages p = true → S p) (hS : ∀ t p, .track p ∈ progs t → S p)
    (sched : List T) : ∃ held, Together (guarantee (Bitmap.test s.dirtyPages) S S main)
      (fun t _ _ m => Account (Bitmap.test s.dirtyPages) S S m ∧
        ∀ q, .track q ∈ progs t → q < s.totalPages → Kept q m) ((threads s progs).run sched) held ∧
      Account (Bitmap.test s.dirtyPages) S S ((threads s progs).run sched).mem := by
  have haccount : Account (Bitmap.test s.dirtyPages) S S (fields s) :=
    ⟨fun p hp => .inl ((dirty_fields s p).mpr hp), fun p hp => hstart p ((dirty_fields s p).mp hp),
      fun p hp => absurd hp (not_copied_fields s p)⟩
  refine together_run lasting_account (c := threads s progs) haccount (fun t => ?_) sched
  refine safe_runCalls lasting_account (fun m => id) (fun q hq => hS t q hq) (fun hpre => ?_) haccount
  refine ⟨?_, fun pre i post _ hi _ => hi⟩
  by_contra hne
  exact hmain t hne hpre

/-- **Which marks survive the interleavings.** One thread makes rounds of precopy while the others mark pages. A page
that was marked before is marked or has been copied; no other page than these and the marked ones is; and a page
that a thread has marked in a call that it has finished is marked, unless a page of the same word of the bitmap
has been copied. -/
theorem racing_marks_kept (hmain : ∀ t, t ≠ main → SessionCall.precopy ∉ progs t) (sched : List T) :
    (∀ p, Bitmap.test s.dirtyPages p = true →
      Dirty ((threads s progs).run sched).mem p ∨ Copied ((threads s progs).run sched).mem p) ∧
    (∀ p, Dirty ((threads s progs).run sched).mem p ∨ Copied ((threads s progs).run sched).mem p →
      Bitmap.test s.dirtyPages p = true ∨ ∃ t, .track p ∈ progs t) ∧
    ∀ t calls p, Finished s progs t calls sched → .track p ∈ calls → p < s.totalPages →
      Dirty ((threads s progs).run sched).mem p ∨
        ∃ i, i / 64 = p / 64 ∧ Copied ((threads s progs).run sched).mem i := by
  have hS : ∀ t p, .track p ∈ progs t → Bitmap.test s.dirtyPages p = true ∨ ∃ t, .track p ∈ progs t :=
    fun t p hp => .inr ⟨t, hp⟩
  obtain ⟨-, -, ha⟩ := threads_together progs hmain (fun p => .inl) hS sched
  refine ⟨ha.kept, fun p hp => hp.elim (ha.known p) (ha.chosen p), fun t calls p hfin hp hlt => ?_⟩
  obtain ⟨more, hmore⟩ := hfin.first
  obtain ⟨pre, hpre, hret⟩ := hfin.returned
  -- up to the end of the call the other calls of the thread do not matter
  obtain ⟨pre', ⟨⟩, hpre', hdone, hrun⟩ := Config.run_andThen (f := fun _ => runCalls s more) hret
  rw [threads_andThen hmore] at hrun
  have hcalls : ∀ u c, c ∈ Function.update progs t calls u → c ∈ progs u := by
    intro u c hc
    by_cases hu : u = t
    · subst hu
      rw [Function.update_self] at hc
      rw [← hmore]
      exact List.mem_append_left _ hc
    · rwa [Function.update_of_ne hu] at hc
  obtain ⟨_, htogether, -⟩ := threads_together (Function.update progs t calls)
    (fun u hu hmem => hmain u hu (hcalls u _ hmem)) (fun p => .inl) (fun u p hmem => hS u p (hcalls u _ hmem)) pre'
  have hkept : Kept p ((threads s progs).run pre').mem := by
    rw [hrun]
    exact (htogether.ret hdone).2 p (by rwa [Function.update_self]) hlt
  -- and from there on no step loses the mark
  obtain ⟨rest, rfl⟩ := hpre'.trans hpre
  obtain ⟨_, htogether', -⟩ := threads_together progs hmain (fun p => .inl) hS pre'
  obtain ⟨-, -, hkept'⟩ := htogether'.run (lasting_kept (q := p)) hkept rest
  rwa [← Config.run_append] at hkept'

end Interleavings

/-- One round of precopy, and one call of `migration_track_dirty_page`. -/
def raceOf (q : UInt64) (t : Bool) : List SessionCall := if t then [.precopy] else [.track q]

/-- Two pages, the first of which is marked. -/
def twoPages : MigrationSession := { totalPages := 2, dirtyPages := [1], dirtyPageCount := 1 }

/-- The second page is marked between the load and the store of the word. -/
def lateStore : List Bool := List.replicate 6 true ++ List.replicate 10 false ++ List.replicate 50 true

/-- The mark of the second page is lost with the copying of the first. -/
theorem racing_marks_kept_two_pages : ¬ Dirty ((threads twoPages (raceOf 1)).run lateStore).mem 1 ∧
    ∃ i, i / 64 = 1 / 64 ∧ Copied ((threads twoPages (raceOf 1)).run lateStore).mem i := by
  have hclean : ((threads twoPages (raceOf 1)).run lateStore).mem (.word (1 / 64)) &&& Bitmap.mask 1 = 0 := by
    decide +kernel
  have hret : (((threads twoPages (raceOf 1)).run lateStore).code false).result = some () := by decide +kernel
  have hdirty : ¬ Dirty ((threads twoPages (raceOf 1)).run lateStore).mem 1 := fun h => h hclean
  have hmain : ∀ t, t ≠ true → SessionCall.precopy ∉ raceOf 1 t := by
    intro t ht
    cases t <;> simp [raceOf] at ht ⊢
  obtain ⟨-, -, hkept⟩ := racing_marks_kept (s := twoPages) hmain lateStore
  have hfin : Finished twoPages (raceOf 1) false (raceOf 1 false) lateStore := by
    refine ⟨List.prefix_refl _, lateStore, List.prefix_refl _, ?_⟩
    rw [Function.update_eq_self]
    exact Code.result_eq_some.mp hret
  have hlost := hkept false _ 1 hfin (by simp [raceOf]) (by decide)
  exact ⟨hdirty, hlost.resolve_left hdirty⟩

end NexusVM.Racing
