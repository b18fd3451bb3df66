import NexusVM.Lib.Logged
import NexusVM.MigrationRuns

/-!
# The counters of a migration

* `SessionOp`: the calls on a session that is under way;
* `SessionOp.logged`, `erases_logged`, `sessionOp_words`: the calls with a log of the words of the bitmap that
  they use, and which these are;
* `MigrationSession.after`, `sessionOps_spec`: what a run of them does to the session;
* `Accounted`, **`dirty_accounting`**: the counter is the population count of the bitmap;
* `StatsCoherent`, **`stats_coherent_iff`**: when the statistics agree with the session;
* **`cancel_restores_iff`**: when a cancelled migration leaves the VM as it was.
-/

namespace NexusVM

open Prog

variable {h h₁ : Host} {a p : Addr} {v : Nexusvm} {s : MigrationSession}

/-! ## Calls on a session -/

/-- A call on a session that has been started. -/
inductive SessionOp
  | trackDirtyPage (pageFrame : UInt64)
  | precopy
  | stopAndCopy
deriving DecidableEq

def SessionOp.run (p : Addr) : SessionOp → HostM Unit
  | .trackDirtyPage pageFrame => migrationTrackDirtyPage (some p) pageFrame
  | .precopy => discard (migrationPrecopy (some p))
  | .stopAndCopy => discard (migrationStopAndCopy (some p))

/-- `migration_get_stats` -/
def migrationGetStats (session : Option Addr) : HostM (Option MigrationStats) := do
  match session with
  | none => return none
  | some p => return some (← getSession p).stats

/-- The session after the last round: its pages are counted, and stay dirty. -/
def MigrationSession.stopAndCopy (s : MigrationSession) : MigrationSession :=
  { s with
    state := .stopAndCopy
    transferredPages := s.transferredPages +
      UInt64.ofNat ((frames s.totalPages).filter (Bitmap.test s.dirtyPages ·)).length }

/-- The session after a call. -/
def MigrationSession.after (s : MigrationSession) : SessionOp → MigrationSession
  | .trackDirtyPage pageFrame => s.trackDirtyPage pageFrame
  | .precopy => s.precopy.1
  | .stopAndCopy => s.stopAndCopy

theorem after_same (s : MigrationSession) (op : SessionOp) : SameSession s (s.after op) := by
  cases op with
  | trackDirtyPage pageFrame => exact trackDirtyPage_same s pageFrame
  | precopy => exact precopy_same s
  | stopAndCopy => exact ⟨rfl, rfl, rfl, rfl, rfl⟩

theorem foldl_after_same (s : MigrationSession) (ops : List SessionOp) :
    SameSession s (ops.foldl MigrationSession.after s) := by
  induction ops generalizing s with
  | nil => exact SameSession.refl s
  | cons op ops ih => exact (after_same s op).trans (ih _)

/-- The VM of the session is migrating, and the session has no connection. -/
structure UnderWay (h : Host) (s : MigrationSession) : Prop where
  connection : s.connection = none
  vm : ∃ v, h.vms s.vm = some v ∧ v.state = .migrating

/-- **A call changes its session and nothing else.** The last round does not stop the VM, which is
migrating, and sends its state through no connection. -/
theorem sessionOp_spec (hs : h.sessions p = some s) (hw : UnderWay h s) (op : SessionOp) :
    wp (op.run p) (fun _ h' => h' = h.setSession p (some (s.after op))) h := by
  cases op with
  | trackDirtyPage pageFrame =>
    simp only [SessionOp.run, migrationTrackDirtyPage, wp_bind, wp_getSession, wp_putSession]
    exact ⟨s, hs, rfl⟩
  | precopy =>
    simp only [SessionOp.run, migrationPrecopy, wp_discard, wp_bind, wp_getSession, wp_putSession,
      wp_pure]
    exact ⟨s, hs, rfl⟩
  | stopAndCopy =>
    obtain ⟨v, hv, hstate⟩ := hw.vm
    rw [SessionOp.run, wp_discard, migrationStopAndCopy, wp_bind]
    refine wp_mono (stopGuest_spec hs hv hstate) ?_
    rintro _ _ rfl
    rw [wp_bind, wp_getSession]
    refine ⟨_, Function.update_self _ _ _, ?_⟩
    rw [wp_bind]
    refine wp_mono (stopAndCopyPages_spec (h := h.setSession p _) (Function.update_self _ _ _) _) ?_
    rintro copied _ ⟨rfl, rfl⟩
    rw [wp_bind, wp_getSession]
    refine ⟨_, Function.update_self _ _ _, ?_⟩
    have hsend : ∀ vm, migrationSendVmState s.connection vm = pure .errInvalidParam := fun vm => by
      rw [hw.connection]
      cases vm <;> rfl
    simp only [hsend, pure_bind]
    rw [if_pos (by decide), wp_pure]
    simp only [Host.setSession, Function.update_idem]
    rfl

theorem sessionOps_spec (hs : h.sessions p = some s) (hw : UnderWay h s) (ops : List SessionOp) :
    wp (runOps (SessionOp.run p) ops)
      (fun _ h' => h' = h.setSession p (some (ops.foldl MigrationSession.after s))) h := by
  induction ops generalizing h s with
  | nil =>
    rw [runOps, wp_pure, List.foldl_nil, Host.setSession, ← hs, Function.update_eq_self]
  | cons op ops ih =>
    rw [runOps, wp_bind]
    refine wp_mono (sessionOp_spec hs hw op) ?_
    rintro _ _ rfl
    have hsame := after_same s op
    have hw' : UnderWay (h.setSession p (some (s.after op))) (s.after op) :=
      ⟨hsame.connection.trans hw.connection, by rw [hsame.vm]; exact hw.vm⟩
    refine wp_mono (ih (Function.update_self _ _ _) hw') ?_
    rintro _ _ rfl
    simp only [Host.setSession, Function.update_idem, List.foldl_cons]

/-- **A run of a migration**, from `migration_start` on. -/
theorem session_run (hv : h.vms a = some v) {config : MigrationConfig}
    (hstart : (migrationStart (some a) (some config)).run h = some (.ok p, h₁))
    (ops : List SessionOp) : ∃ m d, (runOps (SessionOp.run p) ops).run h₁ =
      some ((), ((h.setMem m).setVm a (some { v with state := .migrating })).setSession p
        (some (ops.foldl MigrationSession.after (startSession a config v d)))) := by
  obtain ⟨m, d, rfl⟩ := wp_run (migrationStart_session hv config) hstart p rfl
  have hs : (((h.setMem m).setSession p (some (startSession a config v d))).setVm a
      (some { v with state := .migrating })).sessions p = some (startSession a config v d) :=
    Function.update_self _ _ _
  obtain ⟨⟨⟩, _, hrun, rfl⟩ :=
    sessionOps_spec hs ⟨rfl, _, Function.update_self _ _ _, rfl⟩ ops
  refine ⟨m, d, hrun.trans ?_⟩
  simp only [Host.setSession, Host.setVm, Function.update_idem]

/-! ## The counter of dirty pages -/

/-- The counter is the population count of the bitmap, which has a word for every 64 pages and no bit
beyond the pages. -/
structure Accounted (s : MigrationSession) : Prop where
  length : s.dirtyPages.length = (s.totalPages.toNat + 63) / 64
  counted : s.dirtyPageCount.toNat = (Bitmap.ones s.dirtyPages s.totalPages.toNat).card
  inside : ∀ k, s.totalPages.toNat ≤ k → Bitmap.bit s.dirtyPages k = false

theorem accounted_startSession (a : Addr) (config : MigrationConfig) (v : Nexusvm) (d : Addr) :
    Accounted (startSession a config v d) := by
  have hlen : (List.replicate ((v.memorySize / PAGE_SIZE + 63) / 64).toNat (0 : UInt64)).length =
      ((v.memorySize / PAGE_SIZE).toNat + 63) / 64 := by rw [List.length_replicate, words_toNat]
  have hbit : ∀ k, Bitmap.bit (startSession a config v d).dirtyPages k =
      decide (k < (v.memorySize / PAGE_SIZE).toNat) := fun k => by
    rw [startSession, Bitmap.bit_setAll hlen.ge (UInt64.toNat_lt _), Bitmap.bit_replicate_zero,
      Bool.false_or]
  refine ⟨?_, ?_, fun k hk => ?_⟩
  · rw [startSession, Bitmap.length_setAll, hlen]
  · have hall : Bitmap.ones (startSession a config v d).dirtyPages
        (v.memorySize / PAGE_SIZE).toNat = Finset.range (v.memorySize / PAGE_SIZE).toNat := by
      ext k
      rw [Bitmap.mem_ones, hbit, Finset.mem_range, decide_eq_true_iff, and_self]
    exact (congrArg Finset.card hall).trans (Finset.card_range _) |>.symm
  · rw [hbit]
    exact decide_eq_false (Nat.not_lt.mpr hk)

theorem Accounted.index_lt (ha : Accounted s) {i : UInt64} (hi : i < s.totalPages) :
    i.toNat / 64 < s.dirtyPages.length := by
  rw [ha.length]
  have := UInt64.lt_iff_toNat_lt.mp hi
  omega

theorem Accounted.congr {s' : MigrationSession} (ha : Accounted s)
    (hpages : s'.dirtyPages = s.dirtyPages) (hcount : s'.dirtyPageCount = s.dirtyPageCount)
    (htotal : s'.totalPages = s.totalPages) : Accounted s' := by
  obtain ⟨hlen, hcounted, hinside⟩ := ha
  refine ⟨?_, ?_, ?_⟩
  · rwa [hpages, htotal]
  · rwa [hpages, htotal, hcount]
  · rwa [hpages, htotal]

/-- **A page is tracked**: its bit is set, and counted if it was clear. -/
theorem Accounted.trackDirtyPage (ha : Accounted s) (i : UInt64) : Accounted (s.trackDirtyPage i) := by
  unfold MigrationSession.trackDirtyPage
  split_ifs with hge hdirty
  · exact ha
  · exact ha
  · rw [Bool.not_eq_true] at hdirty
    have hlt : i < s.totalPages := UInt64.not_le.mp hge
    have hlt' := UInt64.lt_iff_toNat_lt.mp hlt
    have hcard := Bitmap.card_ones_set (ha.index_lt hlt) hlt' hdirty
    refine ⟨?_, ?_, fun k hk => ?_⟩
    · rw [Bitmap.length_set]
      exact ha.length
    · -- the counter stays below the number of pages
      have hle := Bitmap.card_ones_le (Bitmap.set s.dirtyPages i) s.totalPages.toNat
      have htotal := s.totalPages.toNat_lt
      dsimp only
      rw [hcard, ← ha.counted, UInt64.toNat_add, UInt64.toNat_one]
      rw [hcard, ← ha.counted] at hle
      exact Nat.mod_eq_of_lt (by omega)
    · rw [Bitmap.bit_set (ha.index_lt hlt), ha.inside k hk, Bool.false_or]
      exact decide_eq_false (by dsimp only at hk; omega)

/-- **A page is copied**: its bit was set, so the counter is not zero when it is decremented. -/
theorem Accounted.copyPage (ha : Accounted s) {i : UInt64} (hi : i < s.totalPages)
    (hdirty : Bitmap.test s.dirtyPages i = true) :
    Accounted { s with
      dirtyPages := Bitmap.clear s.dirtyPages i
      transferredPages := s.transferredPages + 1
      dirtyPageCount := s.dirtyPageCount - 1 } ∧
    (s.dirtyPageCount - 1).toNat + 1 = s.dirtyPageCount.toNat := by
  have hi' := UInt64.lt_iff_toNat_lt.mp hi
  have hcard := Bitmap.card_ones_clear (ha.index_lt hi) hi' hdirty
  have hcount := ha.counted
  have hdecr : (s.dirtyPageCount - 1).toNat + 1 = s.dirtyPageCount.toNat := by
    have hpos : (1 : UInt64) ≤ s.dirtyPageCount := by
      rw [UInt64.le_iff_toNat_le, UInt64.toNat_one]
      omega
    rw [UInt64.toNat_sub_of_le _ _ hpos, UInt64.toNat_one]
    omega
  refine ⟨⟨?_, ?_, fun k hk => ?_⟩, hdecr⟩
  · rw [Bitmap.length_clear]
    exact ha.length
  · dsimp only
    omega
  · rw [Bitmap.bit_clear (ha.index_lt hi), ha.inside k hk, Bool.false_and]

/-- **The page loop of a round** takes from the counter what it copies. -/
theorem Accounted.precopyPages (ha : Accounted s) {is : List UInt64} {k : UInt64}
    (his : ∀ i ∈ is, i < s.totalPages) : Accounted (NexusVM.precopyPages is k s).1 ∧
      (NexusVM.precopyPages is k s).1.dirtyPageCount.toNat + (NexusVM.precopyPages is k s).2.length =
        s.dirtyPageCount.toNat := by
  induction is generalizing k s with
  | nil => exact ⟨ha, rfl⟩
  | cons i is ih =>
    have his' : ∀ j ∈ is, j < s.totalPages := fun j hj => his j (List.mem_cons_of_mem _ hj)
    rw [NexusVM.precopyPages]
    split_ifs with hcap hdirty
    · obtain ⟨ha₁, hdecr⟩ := ha.copyPage (his i List.mem_cons_self) hdirty
      obtain ⟨ha₂, hsum⟩ := ih ha₁ (k := k + 1) his'
      refine ⟨ha₂, ?_⟩
      rw [List.length_cons, ← Nat.add_assoc, hsum]
      exact hdecr
    · exact ih ha his'
    · exact ⟨ha, rfl⟩

/-- **A round** takes from the counter what it copies. -/
theorem Accounted.precopy (ha : Accounted s) : Accounted s.precopy.1 ∧
    s.precopy.1.dirtyPageCount.toNat + s.precopy.2.length = s.dirtyPageCount.toNat := by
  have hpages := Accounted.precopyPages (s := { s with state := .precopy }) (k := 0)
    (ha.congr rfl rfl rfl) fun i hi => mem_frames.mp hi
  unfold MigrationSession.precopy
  generalize NexusVM.precopyPages (frames s.totalPages) 0 { s with state := .precopy } = r at hpages
  obtain ⟨s', copied⟩ := r
  dsimp only at hpages ⊢
  split_ifs
  · exact ⟨hpages.1.congr rfl rfl rfl, hpages.2⟩
  · exact ⟨hpages.1.congr rfl rfl rfl, hpages.2⟩

theorem Accounted.after (ha : Accounted s) (op : SessionOp) : Accounted (s.after op) := by
  cases op with
  | trackDirtyPage pageFrame => exact ha.trackDirtyPage pageFrame
  | precopy => exact ha.precopy.1
  | stopAndCopy => exact ha.congr rfl rfl rfl

theorem Accounted.foldl_after (ha : Accounted s) (ops : List SessionOp) :
    Accounted (ops.foldl MigrationSession.after s) := by
  induction ops generalizing s with
  | nil => exact ha
  | cons op ops ih => exact ih (ha.after op)

/-! ## The words that are used -/

/-- What `migration_track_dirty_page` does to a session, and the words of the bitmap that it reads and
writes. -/
def MigrationSession.trackDirtyPageLogged (s : MigrationSession) (pageFrame : UInt64) :
    MigrationSession × List UInt64 :=
  if pageFrame ≥ s.totalPages then (s, [])
  else if Bitmap.test s.dirtyPages pageFrame then (s, [pageFrame / 64])
  else ({ s with
    dirtyPages := Bitmap.set s.dirtyPages pageFrame
    dirtyPageCount := s.dirtyPageCount + 1 }, [pageFrame / 64, pageFrame / 64])

/-- The page loop of `migration_precopy`, and the words of the bitmap that it reads and writes. -/
def precopyPagesLogged :
    List UInt64 → UInt64 → MigrationSession → (MigrationSession × List UInt64) × List UInt64
  | [], _, s => ((s, []), [])
  | i :: is, pagesThisIteration, s =>
    if pagesThisIteration < 10000 then
      if Bitmap.test s.dirtyPages i then
        let ((s, copied), words) := precopyPagesLogged is (pagesThisIteration + 1) { s with
          dirtyPages := Bitmap.clear s.dirtyPages i
          transferredPages := s.transferredPages + 1
          dirtyPageCount := s.dirtyPageCount - 1 }
        ((s, i :: copied), i / 64 :: i / 64 :: words)
      else
        let (r, words) := precopyPagesLogged is pagesThisIteration s
        (r, i / 64 :: words)
    else ((s, []), [])

/-- What `migration_precopy` does to a session behind its page loop. -/
def MigrationSession.endRound (s : MigrationSession) : MigrationSession :=
  let s := { s with iteration := s.iteration + 1 }
  let s := { s with stats := { s.stats with
    dirtyPages := s.dirtyPageCount
    transferredPages := s.transferredPages
    remainingPages := s.dirtyPageCount } }
  if s.dirtyPageCount < 100 ∨ s.iteration > s.config.maxConvergenceIterations.toUInt64 then
    { s with state := .stopAndCopy }
  else s

/-- The page loop of `migration_stop_and_copy`, with the words of the bitmap that it reads. -/
def stopAndCopyPagesLogged (p : Addr) : List UInt64 → Prog (Host × List UInt64) (List UInt64)
  | [] => return []
  | i :: is => do
    let s ← lift (getSession p)
    note (i / 64)
    if Bitmap.test s.dirtyPages i then
      lift (putSession p { s with transferredPages := s.transferredPages + 1 })
      let copied ← stopAndCopyPagesLogged p is
      return i :: copied
    else stopAndCopyPagesLogged p is

/-- What `migration_stop_and_copy` does behind its page loop. -/
def finishCopy (p : Addr) (copied : List UInt64) : HostM (Result × List UInt64) := do
  let s ← getSession p
  let result ← migrationSendVmState s.connection (some s.vm)
  if result ≠ .ok then return (result, copied)
  putSession p { ← getSession p with state := .transfer }
  return (.ok, copied)

/-- The calls, with the words of the bitmap that they use. -/
def SessionOp.logged (p : Addr) : SessionOp → Prog (Host × List UInt64) Unit
  | .trackDirtyPage pageFrame => do
    let s ← lift (getSession p)
    let r := s.trackDirtyPageLogged pageFrame
    notes r.2
    lift (putSession p r.1)
  | .precopy => do
    let s ← lift (getSession p)
    let r := precopyPagesLogged (frames s.totalPages) 0 { s with state := .precopy }
    notes r.2
    lift (putSession p r.1.1.endRound)
  | .stopAndCopy => do
    lift (stopGuest p)
    let s ← lift (getSession p)
    let copied ← stopAndCopyPagesLogged p (frames s.totalPages)
    lift (discard (finishCopy p copied))

theorem trackDirtyPageLogged_fst (s : MigrationSession) (pageFrame : UInt64) :
    (s.trackDirtyPageLogged pageFrame).1 = s.trackDirtyPage pageFrame := by
  unfold MigrationSession.trackDirtyPageLogged MigrationSession.trackDirtyPage
  split_ifs <;> rfl

theorem precopyPagesLogged_fst (is : List UInt64) (k : UInt64) (s : MigrationSession) :
    (precopyPagesLogged is k s).1 = precopyPages is k s := by
  induction is generalizing k s with
  | nil => rfl
  | cons i is ih =>
    rw [precopyPagesLogged, precopyPages]
    split_ifs
    · rw [← ih]
    · exact ih _ _
    · rfl

theorem endRound_precopyPagesLogged (s : MigrationSession) :
    (precopyPagesLogged (frames s.totalPages) 0 { s with state := .precopy }).1.1.endRound =
      s.precopy.1 := by
  rw [precopyPagesLogged_fst, MigrationSession.precopy, MigrationSession.endRound]
  dsimp only
  split_ifs <;> rfl

theorem erases_stopAndCopyPagesLogged (p : Addr) (is : List UInt64) :
    Erases (stopAndCopyPagesLogged p is) (stopAndCopyPages p is) := by
  induction is with
  | nil => exact .pure _
  | cons i is ih =>
    refine (Erases.lift _).bind fun s => .after_note _ (.ite ?_ ih)
    exact (Erases.lift _).bind fun _ => ih.bind fun _ => .pure _

/-- **Without the log** they are the calls. -/
theorem erases_logged (p : Addr) (op : SessionOp) : Erases (op.logged p) (op.run p) := by
  cases op with
  | trackDirtyPage pageFrame =>
    refine (Erases.lift _).bind fun s => .after_notes _ ?_
    rw [← trackDirtyPageLogged_fst]
    exact .lift _
  | precopy =>
    have hrun : SessionOp.run p .precopy = getSession p >>= fun s => putSession p s.precopy.1 := by
      simp only [SessionOp.run, migrationPrecopy, Functor.discard, map_const, Function.comp_apply,
        map_bind, map_pure]
      exact bind_congr fun s => bind_pure _
    rw [hrun]
    refine (Erases.lift _).bind fun s => .after_notes _ ?_
    rw [← endRound_precopyPagesLogged]
    exact .lift _
  | stopAndCopy =>
    have hrun : migrationStopAndCopy (some p) = stopGuest p >>= fun _ => getSession p >>= fun s =>
        stopAndCopyPages p (frames s.totalPages) >>= finishCopy p := rfl
    rw [SessionOp.run, hrun]
    simp only [Functor.discard, map_const, Function.comp_apply, map_bind]
    exact (Erases.lift _).bind fun _ => (Erases.lift _).bind fun _ =>
      (erases_stopAndCopyPagesLogged p _).bind fun _ => .lift _

theorem trackDirtyPageLogged_snd (s : MigrationSession) (pageFrame : UInt64) :
    ∀ k ∈ (s.trackDirtyPageLogged pageFrame).2, pageFrame < s.totalPages ∧ k = pageFrame / 64 := by
  intro k hk
  unfold MigrationSession.trackDirtyPageLogged at hk
  split_ifs at hk with hge
  · cases hk
  · exact ⟨UInt64.not_le.mp hge, List.mem_singleton.mp hk⟩
  · exact ⟨UInt64.not_le.mp hge, by simpa using hk⟩

theorem precopyPagesLogged_snd (is : List UInt64) (k : UInt64) (s : MigrationSession) :
    ∀ w ∈ (precopyPagesLogged is k s).2, ∃ i ∈ is, w = i / 64 := by
  induction is generalizing k s with
  | nil => exact fun w hw => absurd hw List.not_mem_nil
  | cons i is ih =>
    have hrest : ∀ {k s w}, w ∈ (precopyPagesLogged is k s).2 → ∃ j ∈ i :: is, w = j / 64 := fun hw => by
      obtain ⟨j, hj, heq⟩ := ih _ _ _ hw
      exact ⟨j, List.mem_cons_of_mem _ hj, heq⟩
    intro w hw
    rw [precopyPagesLogged] at hw
    split_ifs at hw
    · rcases List.mem_cons.mp hw with rfl | hw
      · exact ⟨i, List.mem_cons_self, rfl⟩
      · rcases List.mem_cons.mp hw with rfl | hw
        · exact ⟨i, List.mem_cons_self, rfl⟩
        · exact hrest hw
    · rcases List.mem_cons.mp hw with rfl | hw
      · exact ⟨i, List.mem_cons_self, rfl⟩
      · exact hrest hw
    · cases hw

theorem stopAndCopyPagesLogged_snd (p : Addr) (is l : List UInt64) (h : Host) :
    wlp (stopAndCopyPagesLogged p is) (fun _ t => ∀ w ∈ t.2, w ∈ l ∨ ∃ i ∈ is, w = i / 64) (h, l) := by
  induction is generalizing l h with
  | nil =>
    rw [stopAndCopyPagesLogged, wlp_pure]
    exact fun w hw => .inl hw
  | cons i is ih =>
    have hrest : ∀ g, wlp (stopAndCopyPagesLogged p is)
        (fun _ t => ∀ w ∈ t.2, w ∈ l ∨ ∃ j ∈ i :: is, w = j / 64) (g, l ++ [i / 64]) := fun g => by
      refine wlp_mono (ih _ g) fun _ t ht w hw => ?_
      rcases ht w hw with hw | ⟨j, hj, heq⟩
      · rcases List.mem_append.mp hw with hw | hw
        · exact .inl hw
        · exact .inr ⟨i, List.mem_cons_self, List.mem_singleton.mp hw⟩
      · exact .inr ⟨j, List.mem_cons_of_mem _ hj, heq⟩
    simp only [stopAndCopyPagesLogged, wlp_bind, wlp_lift, wlp_getSession, wlp_note]
    intro s _
    refine wlp_ite (fun _ => ?_) fun _ => hrest h
    simp only [wlp_bind, wlp_lift, wlp_putSession, wlp_pure]
    exact hrest _

/-- **The words that a call uses** are words of the bitmap. -/
theorem sessionOp_words (hs : h.sessions p = some s) (hw : UnderWay h s) (op : SessionOp) :
    wp (op.logged p) (fun _ t => ∀ k ∈ t.2, k.toNat < (s.totalPages.toNat + 63) / 64) (h, []) := by
  have hword : ∀ i < s.totalPages, (i / 64).toNat < (s.totalPages.toNat + 63) / 64 := by
    intro i hi
    have hi' := UInt64.lt_iff_toNat_lt.mp hi
    rw [UInt64.toNat_div, show (64 : UInt64).toNat = 64 from rfl]
    omega
  obtain ⟨⟨⟩, h', hrun, -⟩ := sessionOp_spec hs hw op
  obtain ⟨l, hlog⟩ := (erases_logged p op).exists_log hrun []
  refine wp_of_run hlog ?_
  suffices hall : wlp (op.logged p) (fun _ t => ∀ k ∈ t.2, k.toNat < (s.totalPages.toNat + 63) / 64) (h, []) from
    hall _ _ hlog
  cases op with
  | trackDirtyPage pageFrame =>
    simp only [SessionOp.logged, wlp_bind, wlp_lift, wlp_getSession, wlp_notes, wlp_putSession]
    rintro s' hs' k hk
    obtain rfl : s = s' := Option.some.inj (hs.symm.trans hs')
    obtain ⟨hlt, rfl⟩ := trackDirtyPageLogged_snd s pageFrame k hk
    exact hword _ hlt
  | precopy =>
    simp only [SessionOp.logged, wlp_bind, wlp_lift, wlp_getSession, wlp_notes, wlp_putSession]
    rintro s' hs' k hk
    obtain rfl : s = s' := Option.some.inj (hs.symm.trans hs')
    obtain ⟨i, hi, rfl⟩ := precopyPagesLogged_snd _ _ _ k hk
    exact hword i (mem_frames.mp hi)
  | stopAndCopy =>
    obtain ⟨v, hv, hstate⟩ := hw.vm
    simp only [SessionOp.logged, wlp_bind, wlp_lift]
    refine wlp_mono (stopGuest_spec hs hv hstate).wlp ?_
    rintro _ _ rfl
    rw [wlp_getSession]
    rintro s' hs'
    obtain rfl : { s with state := .stopAndCopy } = s' :=
      Option.some.inj ((Function.update_self p _ _).symm.trans hs')
    refine wlp_mono (stopAndCopyPagesLogged_snd p _ [] _) fun _ t ht => ?_
    rw [wlp_lift]
    rintro _ _ - k hk
    obtain ⟨i, hi, rfl⟩ := (ht k hk).resolve_left List.not_mem_nil
    exact hword i (mem_frames.mp hi)

/-- **The counter of dirty pages is exact.** After `migration_start` every sequence of tracking calls,
rounds and last rounds returns. Then the counter is the number of bits that are set below the number of
pages, no other bit is set, the next call uses only words that the bitmap has, and a round decrements
the counter as often as it copies a page without wrapping around. -/
theorem dirty_accounting (hv : h.vms a = some v) {config : MigrationConfig}
    (hstart : (migrationStart (some a) (some config)).run h = some (.ok p, h₁))
    (ops : List SessionOp) : ∃ h₂ s, (runOps (SessionOp.run p) ops).run h₁ = some ((), h₂) ∧
      h₂.sessions p = some s ∧ s.totalPages = v.memorySize / PAGE_SIZE ∧
      s.dirtyPages.length = (s.totalPages.toNat + 63) / 64 ∧
      s.dirtyPageCount.toNat = (Bitmap.ones s.dirtyPages s.totalPages.toNat).card ∧
      (∀ k, s.totalPages.toNat ≤ k → Bitmap.bit s.dirtyPages k = false) ∧
      (∀ op : SessionOp, wp (op.logged p)
        (fun _ t => ∀ k ∈ t.2, k.toNat < (s.totalPages.toNat + 63) / 64) (h₂, [])) ∧
      s.precopy.1.dirtyPageCount.toNat + s.precopy.2.length = s.dirtyPageCount.toNat := by
  obtain ⟨m, d, hrun⟩ := session_run hv hstart ops
  have hsame := foldl_after_same (startSession a config v d) ops
  have ha := (accounted_startSession a config v d).foldl_after ops
  have hw : UnderWay (((h.setMem m).setVm a (some { v with state := .migrating })).setSession p
      (some (ops.foldl MigrationSession.after (startSession a config v d))))
      (ops.foldl MigrationSession.after (startSession a config v d)) :=
    ⟨hsame.connection, _, by rw [hsame.vm]; exact Function.update_self _ _ _, rfl⟩
  exact ⟨_, _, hrun, Function.update_self _ _ _, hsame.totalPages, ha.length, ha.counted, ha.inside,
    fun op => sessionOp_words (Function.update_self _ _ _) hw op, ha.precopy.2⟩

theorem dirty_accounting_two_pages : ∃ h v h₁ h₂ s, h.vms 16384 = some v ∧
      (migrationStart (some 16384) (some {})).run h = some (.ok 196608, h₁) ∧
      (runOps (SessionOp.run 196608) [.precopy, .trackDirtyPage 1, .trackDirtyPage 1,
        .trackDirtyPage 70, .stopAndCopy]).run h₁ = some ((), h₂) ∧
      h₂.sessions 196608 = some s ∧ s.totalPages = 2 ∧
      s.dirtyPageCount.toNat = (Bitmap.ones s.dirtyPages 2).card := by
  obtain ⟨h, v, h₁, -, hv, -, -, -, hmem, hstart⟩ := migration_start_two_pages
  obtain ⟨h₂, s, hrun, hs, htotal, -, hcount, -⟩ := dirty_accounting hv hstart [.precopy,
    .trackDirtyPage 1, .trackDirtyPage 1, .trackDirtyPage 70, .stopAndCopy]
  have htotal' : s.totalPages = 2 := by
    rw [htotal, hmem]
    rfl
  rw [htotal'] at hcount
  exact ⟨h, v, h₁, h₂, s, hv, hstart, hrun, hs, htotal', hcount⟩

/-! ## Statistics -/

/-- What the statistics should say about a session. -/
structure StatsCoherent (s : MigrationSession) (stats : MigrationStats) : Prop where
  state : stats.state = s.state
  totalPages : stats.totalPages = s.totalPages
  transferredPages : stats.transferredPages = s.transferredPages
  dirtyPages : stats.dirtyPages.toNat = (Bitmap.ones s.dirtyPages s.totalPages.toNat).card
  remainingPages : stats.remainingPages.toNat = (Bitmap.ones s.dirtyPages s.totalPages.toNat).card

theorem precopyPages_stats (is : List UInt64) (k : UInt64) (s : MigrationSession) :
    (precopyPages is k s).1.stats = s.stats ∧ (precopyPages is k s).1.state = s.state := by
  induction is generalizing k s with
  | nil => exact ⟨rfl, rfl⟩
  | cons i is ih =>
    rw [precopyPages]
    split_ifs
    · exact ih _ _
    · exact ih _ _
    · exact ⟨rfl, rfl⟩

theorem precopy_stats (s : MigrationSession) : s.precopy.1.stats.state = s.stats.state ∧
    s.precopy.1.stats.totalPages = s.stats.totalPages ∧ s.precopy.1.state ≠ .initiated := by
  have hpages := precopyPages_stats (frames s.totalPages) 0 { s with state := .precopy }
  unfold MigrationSession.precopy
  generalize precopyPages (frames s.totalPages) 0 { s with state := .precopy } = r at hpages
  obtain ⟨s', copied⟩ := r
  dsimp only at hpages ⊢
  split_ifs
  · dsimp only
    rw [hpages.1]
    exact ⟨rfl, rfl, by simp⟩
  · dsimp only
    rw [hpages.1, hpages.2]
    exact ⟨rfl, rfl, by simp⟩

theorem trackDirtyPage_stats (s : MigrationSession) (i : UInt64) :
    (s.trackDirtyPage i).stats = s.stats ∧ (s.trackDirtyPage i).state = s.state := by
  unfold MigrationSession.trackDirtyPage
  split_ifs <;> exact ⟨rfl, rfl⟩

/-- **No call sets the phase in the statistics**, nor the number of pages. -/
theorem after_stats (s : MigrationSession) (op : SessionOp) :
    (s.after op).stats.state = s.stats.state ∧ (s.after op).stats.totalPages = s.stats.totalPages := by
  cases op with
  | trackDirtyPage i =>
    rw [MigrationSession.after, (trackDirtyPage_stats s i).1]
    exact ⟨rfl, rfl⟩
  | precopy => exact ⟨(precopy_stats s).1, (precopy_stats s).2.1⟩
  | stopAndCopy => exact ⟨rfl, rfl⟩

theorem foldl_after_stats (s : MigrationSession) (ops : List SessionOp) :
    (ops.foldl MigrationSession.after s).stats.state = s.stats.state ∧
      (ops.foldl MigrationSession.after s).stats.totalPages = s.stats.totalPages := by
  induction ops generalizing s with
  | nil => exact ⟨rfl, rfl⟩
  | cons op ops ih =>
    obtain ⟨hstate, htotal⟩ := after_stats s op
    exact ⟨(ih _).1.trans hstate, (ih _).2.trans htotal⟩

/-- **The phase** is left by the first round, for good. -/
theorem foldl_after_state (s : MigrationSession) (ops : List SessionOp) :
    (ops.foldl MigrationSession.after s).state = .initiated ↔
      s.state = .initiated ∧ ∀ op ∈ ops, ∃ i, op = .trackDirtyPage i := by
  induction ops generalizing s with
  | nil => simp
  | cons op ops ih =>
    rw [List.foldl_cons, ih, List.forall_mem_cons]
    cases op with
    | trackDirtyPage i => simp [MigrationSession.after, (trackDirtyPage_stats s i).2]
    | precopy => simp [MigrationSession.after, (precopy_stats s).2.2]
    | stopAndCopy => simp [MigrationSession.after, MigrationSession.stopAndCopy]

theorem foldl_after_track (htotal : s.totalPages = 0) {ops : List SessionOp}
    (htrack : ∀ op ∈ ops, ∃ i, op = .trackDirtyPage i) : ops.foldl MigrationSession.after s = s := by
  induction ops with
  | nil => rfl
  | cons op ops ih =>
    obtain ⟨⟨i, rfl⟩, hops⟩ := List.forall_mem_cons.mp htrack
    have hsame : s.trackDirtyPage i = s := by
      rw [MigrationSession.trackDirtyPage, if_pos]
      rw [htotal]
      exact UInt64.zero_le
    rw [List.foldl_cons, MigrationSession.after, hsame]
    exact ih hops

theorem migrationGetStats_eq (hs : h.sessions p = some s) :
    (migrationGetStats (some p)).run h = some (some s.stats, h) := by
  refine wp_eq_iff.mp ?_
  simp only [migrationGetStats, wp_bind, wp_getSession, wp_pure]
  exact ⟨s, hs, rfl, trivial⟩

/-- **When the statistics are coherent.** After `migration_start` and every sequence of tracking calls,
rounds and last rounds, what `migration_get_stats` returns agrees with the session just if the VM has
less than a page of memory and there was no round: no call sets the phase and the number of pages in
the statistics, and they start as zero. -/
theorem stats_coherent_iff (hv : h.vms a = some v) {config : MigrationConfig}
    (hstart : (migrationStart (some a) (some config)).run h = some (.ok p, h₁))
    (ops : List SessionOp) : ∃ h₂ s stats, (runOps (SessionOp.run p) ops).run h₁ = some ((), h₂) ∧
      h₂.sessions p = some s ∧ (migrationGetStats (some p)).run h₂ = some (some stats, h₂) ∧
      (StatsCoherent s stats ↔
        v.memorySize < PAGE_SIZE ∧ ∀ op ∈ ops, ∃ i, op = .trackDirtyPage i) := by
  obtain ⟨m, d, hrun⟩ := session_run hv hstart ops
  obtain ⟨s, hs⟩ : ∃ s, ops.foldl MigrationSession.after (startSession a config v d) = s := ⟨_, rfl⟩
  have hpages : s.totalPages = v.memorySize / PAGE_SIZE := by
    rw [← hs]
    exact (foldl_after_same _ ops).totalPages
  have hstats := foldl_after_stats (startSession a config v d) ops
  have hstate := foldl_after_state (startSession a config v d) ops
  rw [hs] at hrun hstats hstate
  have hzero : v.memorySize < PAGE_SIZE ↔ s.totalPages = 0 := by
    rw [hpages, UInt64.lt_iff_toNat_lt, ← UInt64.toNat_inj, UInt64.toNat_div,
      show PAGE_SIZE.toNat = 4096 from rfl, UInt64.toNat_zero]
    omega
  have hself := setSession_self ((h.setMem m).setVm a (some { v with state := .migrating })) p (some s)
  refine ⟨_, s, s.stats, hrun, hself, migrationGetStats_eq hself, ?_⟩
  constructor
  · intro hc
    refine ⟨hzero.mpr (hc.totalPages.symm.trans hstats.2), ?_⟩
    exact (hstate.mp (hc.state.symm.trans hstats.1)).2
  · rintro ⟨hmem, htrack⟩
    have htotal : s.totalPages = 0 := hzero.mp hmem
    have hnew : s = startSession a config v d := by
      rw [← hs]
      exact foldl_after_track (hpages.symm.trans htotal) htrack
    have hcard : (Bitmap.ones s.dirtyPages s.totalPages.toNat).card = 0 := by
      have := Bitmap.card_ones_le s.dirtyPages s.totalPages.toNat
      rw [htotal] at this ⊢
      exact Nat.le_zero.mp this
    refine ⟨?_, ?_, ?_, ?_, ?_⟩
    · rw [hnew]
      rfl
    · rw [htotal, hnew]
      rfl
    · rw [hnew]
      rfl
    · rw [hcard, hnew]
      rfl
    · rw [hcard, hnew]
      rfl

theorem stats_coherent_iff_two_pages : ∃ h v h₁ h₂ s stats, h.vms 16384 = some v ∧
      (migrationStart (some 16384) (some {})).run h = some (.ok 196608, h₁) ∧
      (runOps (SessionOp.run 196608) [.trackDirtyPage 1]).run h₁ = some ((), h₂) ∧
      h₂.sessions 196608 = some s ∧
      (migrationGetStats (some 196608)).run h₂ = some (some stats, h₂) ∧
      (StatsCoherent s stats ↔ v.memorySize < PAGE_SIZE ∧
        ∀ op ∈ [SessionOp.trackDirtyPage 1], ∃ i, op = .trackDirtyPage i) := by
  obtain ⟨h, v, h₁, -, hv, -, -, -, -, hstart⟩ := migration_start_two_pages
  obtain ⟨h₂, s, stats, hrun, hs, hget, hiff⟩ := stats_coherent_iff hv hstart [.trackDirtyPage 1]
  exact ⟨h, v, h₁, h₂, s, stats, hv, hstart, hrun, hs, hget, hiff⟩

/-- **The statistics fall behind.** Of a VM with two pages `migration_get_stats` reports no pages, and
after a round it reports the initial phase. -/
theorem stats_fall_behind : ∃ h v h₁ h₂ s stats, h.vms 16384 = some v ∧ v.memorySize = 8192 ∧
      (migrationStart (some 16384) (some {})).run h = some (.ok 196608, h₁) ∧
      (runOps (SessionOp.run 196608) [.precopy]).run h₁ = some ((), h₂) ∧
      h₂.sessions 196608 = some s ∧
      (migrationGetStats (some 196608)).run h₂ = some (some stats, h₂) ∧
      s.totalPages = 2 ∧ stats.totalPages = 0 ∧ s.state ≠ .initiated ∧ stats.state = .initiated ∧
      ¬ StatsCoherent s stats := by
  obtain ⟨h, v, h₁, -, hv, -, -, -, hmem, hstart⟩ := migration_start_two_pages
  obtain ⟨m, d, hrun⟩ := session_run hv hstart [.precopy]
  obtain ⟨s, hs⟩ : ∃ s, [SessionOp.precopy].foldl MigrationSession.after (startSession 16384 {} v d) = s :=
    ⟨_, rfl⟩
  have hstats := foldl_after_stats (startSession 16384 {} v d) [.precopy]
  have hstate := foldl_after_state (startSession 16384 {} v d) [.precopy]
  have hpages : s.totalPages = 2 := by
    rw [← hs, (foldl_after_same _ _).totalPages, startSession, hmem]
    rfl
  rw [hs] at hrun hstats hstate
  have hself := setSession_self ((h.setMem m).setVm 16384 (some { v with state := .migrating })) 196608
    (some s)
  have hleft : s.state ≠ .initiated := by simp [hstate]
  refine ⟨h, v, h₁, _, s, s.stats, hv, hmem, hstart, hrun, hself, migrationGetStats_eq hself, hpages,
    hstats.2, hleft, hstats.1, fun hc => hleft ?_⟩
  exact hc.state.symm.trans hstats.1

/-! ## Cancellation -/

/-- What `migration_cancel` does with a VM that is migrating. -/
theorem migrationCancel_spec (hs : h.sessions p = some s) (hconn : s.connection = none)
    (hv : h.vms s.vm = some v) (hstate : v.state = .migrating) :
    wp (migrationCancel (some p)) (fun r h' => r = .ok ∧
      h'.vms s.vm = some { v with state := .running } ∧ h'.vcpus = h.vcpus) h := by
  simp only [migrationCancel, wp_bind, wp_getSession, wp_putSession, resumeMigrating, wp_getVm,
    freeSession]
  refine ⟨s, hs, v, hv, ?_⟩
  rw [Prog.when, if_pos hstate, wp_putVm, hconn, Prog.when, if_neg (by simp), wp_pure]
  refine wp_mono (freeBuffer_spec _ _ _) ?_
  rintro _ _ ⟨m, rfl, -⟩
  rw [wp_onMem, freeBlock, wp_modify, wp_modify, wp_pure]
  refine ⟨rfl, ?_, ?_⟩
  · simp only [Host.setSession_vms, Host.setMem_vms, Host.setVm_vms, Function.update_self]
  · simp only [Host.setSession_vcpus, Host.setMem_vcpus, Host.setVm_vcpus]

/-- **When cancelling undoes a migration.** After `migration_start` on a VM in any state and every
sequence of calls on the session, `migration_cancel` leaves the state of the VM and the flags of its
vCPUs as they were before the start just if the VM was running: it sets the state to running in any
case. -/
theorem cancel_restores_iff (hv : h.vms a = some v) {config : MigrationConfig}
    (hstart : (migrationStart (some a) (some config)).run h = some (.ok p, h₁))
    (ops : List SessionOp) : ∃ h₂ h₃, (runOps (SessionOp.run p) ops).run h₁ = some ((), h₂) ∧
      (migrationCancel (some p)).run h₂ = some (.ok, h₃) ∧
      (((h₃.vms a).map Nexusvm.state = some v.state ∧
          ∀ c ∈ v.vcpus, (h₃.vcpus c).map Nexusvcpu.running = (h.vcpus c).map Nexusvcpu.running) ↔
        v.state = .running) := by
  obtain ⟨m, d, hrun⟩ := session_run hv hstart ops
  obtain ⟨s, hs⟩ : ∃ s, ops.foldl MigrationSession.after (startSession a config v d) = s := ⟨_, rfl⟩
  have hsame : s.vm = a ∧ s.connection = none := by
    have hsame := foldl_after_same (startSession a config v d) ops
    rw [hs] at hsame
    exact ⟨hsame.vm, hsame.connection⟩
  rw [hs] at hrun
  have hcancel := migrationCancel_spec (h := ((h.setMem m).setVm a
    (some { v with state := .migrating })).setSession p (some s)) (setSession_self _ _ _) hsame.2
    (by
      rw [hsame.1]
      exact Function.update_self _ _ _) rfl
  obtain ⟨r, h₃, hcall, rfl, hvm, hvcpus⟩ := hcancel
  rw [hsame.1] at hvm
  refine ⟨_, h₃, hrun, hcall, ?_⟩
  rw [hvm, hvcpus, Option.map_some, Option.some.injEq]
  exact ⟨fun hc => hc.1.symm, fun hc => ⟨hc.symm, fun _ _ => rfl⟩⟩

theorem cancel_restores_iff_two_pages : ∃ h v h₁ h₂ h₃, h.vms 16384 = some v ∧
      (migrationStart (some 16384) (some {})).run h = some (.ok 196608, h₁) ∧
      (runOps (SessionOp.run 196608) [.precopy, .trackDirtyPage 1]).run h₁ = some ((), h₂) ∧
      (migrationCancel (some 196608)).run h₂ = some (.ok, h₃) ∧
      (((h₃.vms 16384).map Nexusvm.state = some v.state ∧
          ∀ c ∈ v.vcpus, (h₃.vcpus c).map Nexusvcpu.running = (h.vcpus c).map Nexusvcpu.running) ↔
        v.state = .running) := by
  obtain ⟨h, v, h₁, -, hv, -, -, -, -, hstart⟩ := migration_start_two_pages
  obtain ⟨h₂, h₃, hrun, hcancel, hiff⟩ :=
    cancel_restores_iff hv hstart [.precopy, .trackDirtyPage 1]
  exact ⟨h, v, h₁, h₂, h₃, hv, hstart, hrun, hcancel, hiff⟩

/-- **Cancelling a migration starts the VM.** A VM that was created and never started is migrated;
cancelling the migration leaves it running. -/
theorem cancel_starts_vm : ∃ h v h₁ h₂ h₃, (runOps HvOp.run
      [.create { vcpuCount := 1, memorySize := 8192 }]).run (bootHost 1 .intel) = some ((), h) ∧
      h.vms 16384 = some v ∧ v.state = .initialized ∧
      (migrationStart (some 16384) (some {})).run h = some (.ok 180224, h₁) ∧
      (runOps (SessionOp.run 180224) [.precopy]).run h₁ = some ((), h₂) ∧
      (migrationCancel (some 180224)).run h₂ = some (.ok, h₃) ∧
      h₃.vms 16384 = some { v with state := .running } := by
  have hres : ((runOps HvOp.run [.create { vcpuCount := 1, memorySize := 8192 }]).run
      (bootHost 1 .intel)).any (fun p => (p.2.vms 16384).any (fun v => v.state = .initialized) &&
        ((migrationStart (some 16384) (some {})).run p.2).any fun q =>
          q.1.toOption = some 180224) = true := by decide +kernel
  obtain ⟨⟨⟨⟩, h⟩, hrun, hres⟩ := (Option.any_eq_true _ _).mp hres
  simp only [Bool.and_eq_true, Option.any_eq_true, decide_eq_true_eq] at hres
  obtain ⟨⟨v, hv, hstate⟩, ⟨r, h₁⟩, hstart, hr⟩ := hres
  obtain rfl : r = .ok 180224 := by
    cases r with
    | error e => cases hr
    | ok p => exact congrArg Except.ok (Option.some.inj hr)
  obtain ⟨m, d, hops⟩ := session_run hv hstart [.precopy]
  obtain ⟨s, hs⟩ : ∃ s, [SessionOp.precopy].foldl MigrationSession.after (startSession 16384 {} v d) = s :=
    ⟨_, rfl⟩
  have hsame := foldl_after_same (startSession 16384 {} v d) [.precopy]
  rw [hs] at hops hsame
  have hsvm : s.vm = 16384 := hsame.vm
  have hcancel := migrationCancel_spec (h := ((h.setMem m).setVm 16384
    (some { v with state := .migrating })).setSession 180224 (some s))
    (v := { v with state := .migrating }) (setSession_self _ _ _)
    hsame.connection (by
      rw [hsvm, Host.setSession_vms, Host.setVm_vms, Function.update_self]) rfl
  obtain ⟨r, h₃, hcall, rfl, hvm, -⟩ := hcancel
  rw [hsvm] at hvm
  exact ⟨h, v, h₁, _, h₃, hrun, hv, hstate, hstart, hops, hcall, hvm⟩

end NexusVM
