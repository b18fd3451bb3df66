import NexusVM.MigrationRuns

/-!
# Precopy rounds

* `MigrationSession.dirty`: the dirty frames, in order;
* `precopyPages_frames`, `precopyPages_counters`: the page loop of a round copies the first of them;
* `PrecopyRound`, **`precopy_round`**: what a round does to a session;
* `precopyRounds`, **`precopy_copies_first`**: rounds without new dirty pages leave none.
-/

namespace NexusVM

open Prog

variable {h : Host} {p : Addr} {s s' : MigrationSession} {is : List UInt64} {k : UInt64}

/-- The numbers of the dirty pages, in increasing order. -/
def MigrationSession.dirty (s : MigrationSession) : List ℕ :=
  Bitmap.positions s.dirtyPages s.totalPages.toNat

/-! ## The page loop -/

/-- The frames that the loop copies: the first of the dirty ones, up to 10000 in all. -/
theorem precopyPages_frames (hnd : is.Nodup) (his : ∀ i ∈ is, i.toNat / 64 < s.dirtyPages.length) :
    (precopyPages is k s).2 = (is.filter (Bitmap.test s.dirtyPages)).take (10000 - k.toNat) := by
  induction is generalizing k s with
  | nil => simp [precopyPages]
  | cons x is ih =>
    obtain ⟨hx, hnd⟩ := List.nodup_cons.mp hnd
    obtain ⟨hxlt, his⟩ := List.forall_mem_cons.mp his
    rw [precopyPages]
    split_ifs with hcap hdirty
    · have hk := UInt64.lt_iff_toNat_lt.mp hcap
      change k.toNat < 10000 at hk
      have hsucc : 10000 - k.toNat = 10000 - (k + 1).toNat + 1 := by
        rw [UInt64.toNat_add, UInt64.toNat_one, Nat.mod_eq_of_lt (by omega)]
        omega
      -- a cleared bit is not looked at again
      have hrest : is.filter (Bitmap.test (Bitmap.clear s.dirtyPages x)) =
          is.filter (Bitmap.test s.dirtyPages) := by
        refine List.filter_congr fun i hi => ?_
        have hne : x ≠ i := fun hxi => hx (hxi ▸ hi)
        rw [Bitmap.test_clear hxlt, decide_eq_false hne, Bool.not_false, Bool.and_true]
      rw [List.filter_cons_of_pos hdirty, hsucc, List.take_succ_cons, ← hrest]
      exact congrArg (x :: ·) (ih hnd fun i hi => by rw [Bitmap.length_clear]; exact his i hi)
    · rw [List.filter_cons_of_neg hdirty]
      exact ih hnd his
    · have hk := UInt64.le_iff_toNat_le.mp (UInt64.not_lt.mp hcap)
      change 10000 ≤ k.toNat at hk
      rw [Nat.sub_eq_zero_of_le hk, List.take_zero]

theorem precopyPages_counters (is : List UInt64) (k : UInt64) (s : MigrationSession) :
    (precopyPages is k s).1.transferredPages =
        s.transferredPages + UInt64.ofNat (precopyPages is k s).2.length ∧
      (precopyPages is k s).1.dirtyPageCount =
        s.dirtyPageCount - UInt64.ofNat (precopyPages is k s).2.length ∧
      (precopyPages is k s).1.iteration = s.iteration ∧ (precopyPages is k s).1.state = s.state := by
  induction is generalizing k s with
  | nil => simp [precopyPages]
  | cons x is ih =>
    rw [precopyPages]
    split_ifs with hcap hdirty
    · have hrest := ih (k + 1) { s with
        dirtyPages := Bitmap.clear s.dirtyPages x
        transferredPages := s.transferredPages + 1
        dirtyPageCount := s.dirtyPageCount - 1 }
      generalize precopyPages is (k + 1) _ = r at hrest ⊢
      obtain ⟨s', copied⟩ := r
      obtain ⟨htransferred, hcount, hsame⟩ := hrest
      dsimp only at htransferred hcount hsame ⊢
      rw [htransferred, hcount, List.length_cons, UInt64.ofNat_add, show UInt64.ofNat 1 = 1 from rfl]
      exact ⟨by grind, by grind, hsame⟩
    · exact ih k s
    · simp

/-! ## A round -/

theorem nodup_frames (n : UInt64) : (frames n).Nodup := by
  refine List.nodup_range.map_on fun i hi j hj hij => ?_
  have hn := n.toNat_lt
  have hi := List.mem_range.mp hi
  have hj := List.mem_range.mp hj
  have heq := congrArg UInt64.toNat hij
  rwa [UInt64.toNat_ofNat', UInt64.toNat_ofNat', Nat.mod_eq_of_lt (by omega), Nat.mod_eq_of_lt (by omega)] at heq

theorem map_dirty_frames (s : MigrationSession) :
    ((frames s.totalPages).filter (Bitmap.test s.dirtyPages)).map UInt64.toNat = s.dirty := by
  have hn := s.totalPages.toNat_lt
  have hof : ∀ i ∈ List.range s.totalPages.toNat, (UInt64.ofNat i).toNat = i := fun i hi => by
    have hi := List.mem_range.mp hi
    rw [UInt64.toNat_ofNat', Nat.mod_eq_of_lt (by omega)]
  rw [frames, List.filter_map, List.map_map, MigrationSession.dirty, Bitmap.positions]
  have hfilter : (List.range s.totalPages.toNat).filter (Bitmap.test s.dirtyPages ∘ UInt64.ofNat) =
      (List.range s.totalPages.toNat).filter (Bitmap.bit s.dirtyPages) :=
    List.filter_congr fun i hi => by rw [Function.comp_apply, Bitmap.test_eq, hof i hi]
  rw [hfilter]
  exact (List.map_congr_left fun i hi => hof i (List.mem_filter.mp hi).1).trans (List.map_id _)

/-- What a round makes of the session `s`: it copies the first 10000 dirty pages, or all of them. -/
structure PrecopyRound (s s' : MigrationSession) : Prop where
  cleared : ∀ k, Bitmap.bit s'.dirtyPages k =
    (Bitmap.bit s.dirtyPages k && !decide (k ∈ s.dirty.take 10000))
  transferred : s'.transferredPages = s.transferredPages + UInt64.ofNat (min 10000 s.dirtyPageCount.toNat)
  count : s'.dirtyPageCount.toNat = s.dirtyPageCount.toNat - min 10000 s.dirtyPageCount.toNat
  iteration : s'.iteration = s.iteration + 1
  phase : s'.state = if s'.dirtyPageCount < 100 ∨ s'.iteration > s.config.maxConvergenceIterations.toUInt64
    then .stopAndCopy else .precopy

/-- **A round** on a session that counts its dirty pages. -/
theorem precopy_round (hs : s.Sized) (hcount : s.dirtyPageCount.toNat = s.dirty.length) :
    PrecopyRound s s.precopy.1 := by
  have his : ∀ i ∈ frames s.totalPages, i.toNat / 64 < s.dirtyPages.length := fun i hi => hs i (mem_frames.mp hi)
  have hframes := precopyPages_frames (s := { s with state := .precopy }) (k := 0) (nodup_frames _) his
  have hbit := precopyPages_bit (s := { s with state := .precopy }) (k := 0) his
  obtain ⟨htransferred, hdirty, hiteration, hstate⟩ :=
    precopyPages_counters (frames s.totalPages) 0 { s with state := .precopy }
  have hsame : SameSession { s with state := .precopy }
    (precopyPages (frames s.totalPages) 0 { s with state := .precopy }).1 := precopyPages_same
  have hcopied : (precopyPages (frames s.totalPages) 0 { s with state := .precopy }).2.map UInt64.toNat =
      s.dirty.take 10000 := by
    rw [hframes, List.map_take, map_dirty_frames { s with state := .precopy }]
    rfl
  have hlen := congrArg List.length hcopied
  rw [List.length_map, List.length_take, ← hcount] at hlen
  rw [hcopied] at hbit
  unfold MigrationSession.precopy
  generalize precopyPages (frames s.totalPages) 0 { s with state := .precopy } = r at *
  obtain ⟨s', copied⟩ := r
  dsimp only at hbit htransferred hdirty hiteration hstate hsame hlen ⊢
  have hsub : s'.dirtyPageCount.toNat = s.dirtyPageCount.toNat - min 10000 s.dirtyPageCount.toNat := by
    have hlt := s.dirtyPageCount.toNat_lt
    have hof : (UInt64.ofNat copied.length).toNat = min 10000 s.dirtyPageCount.toNat := by
      rw [UInt64.toNat_ofNat', hlen, Nat.mod_eq_of_lt (by omega)]
    rw [hdirty, UInt64.toNat_sub_of_le _ _ (UInt64.le_iff_toNat_le.mpr (by omega)), hof]
  rw [hsame.config]
  split_ifs with hdone
  · exact ⟨hbit, by rw [htransferred, hlen], hsub, by rw [hiteration], (if_pos hdone).symm⟩
  · exact ⟨hbit, by rw [htransferred, hlen], hsub, by rw [hiteration], hstate.trans (if_neg hdone).symm⟩

/-- What is left is dirty after a round, and counted. -/
theorem PrecopyRound.dirty (hr : PrecopyRound s s') (htotal : s'.totalPages = s.totalPages) :
    s'.dirty = s.dirty.drop 10000 := by
  rw [MigrationSession.dirty, htotal]
  exact Bitmap.positions_drop hr.cleared

theorem PrecopyRound.counted (hr : PrecopyRound s s') (htotal : s'.totalPages = s.totalPages)
    (hcount : s.dirtyPageCount.toNat = s.dirty.length) : s'.dirtyPageCount.toNat = s'.dirty.length := by
  rw [hr.count, hr.dirty htotal, List.length_drop, hcount]
  omega

theorem migrationPrecopy_run (hs : h.sessions p = some s) :
    (migrationPrecopy (some p)).run h = some ((.ok, s.precopy.2), h.setSession p (some s.precopy.1)) := by
  refine wp_eq_iff.mp ?_
  simp only [migrationPrecopy, wp_bind, wp_getSession, wp_putSession, wp_pure]
  exact ⟨s, hs, rfl, rfl⟩

/-! ## Rounds -/

/-- So many calls of `migration_precopy`. -/
def precopyRounds (p : Addr) : ℕ → HostM Unit
  | 0 => return ()
  | k + 1 => do
    discard (migrationPrecopy (some p))
    precopyRounds p k

/-- **Rounds** take the dirty pages off, 10000 at a time. -/
theorem precopyRounds_spec (hs : h.sessions p = some s) (hsized : s.Sized)
    (hcount : s.dirtyPageCount.toNat = s.dirty.length) (k : ℕ) : wp (precopyRounds p k) (fun _ h' =>
      ∃ s', h'.sessions p = some s' ∧ s'.totalPages = s.totalPages ∧ s'.dirty = s.dirty.drop (10000 * k) ∧
        s'.dirtyPageCount.toNat = s'.dirty.length) h := by
  induction k generalizing s h with
  | zero =>
    rw [precopyRounds, wp_pure]
    exact ⟨s, hs, rfl, rfl, hcount⟩
  | succ k ih =>
    have hr := precopy_round hsized hcount
    have hsame := precopy_same s
    rw [precopyRounds, wp_bind, wp_discard]
    refine ⟨_, _, migrationPrecopy_run hs, ?_⟩
    refine wp_mono (ih (setSession_self _ _ _) (hsame.sized hsized) (hr.counted hsame.totalPages hcount)) ?_
    rintro _ _ ⟨s', hs', htotal, hdirty, hcount'⟩
    refine ⟨s', hs', htotal.trans hsame.totalPages, ?_, hcount'⟩
    rw [hdirty, hr.dirty hsame.totalPages, List.drop_drop, Nat.mul_succ, Nat.add_comm]

/-- **A round copies the first dirty pages.** On a session with a bitmap for its pages, and a count of the bits
set below their number, `migration_precopy` clears the lowest 10000 of these, or all, and no other; it moves the
counters by as many, and starts the last phase just if fewer than 100 are left or the rounds are too many. A round
for every 10000 pages or part of them, with no page dirtied in between, leaves none. -/
theorem precopy_copies_first (hs : h.sessions p = some s) (hsized : s.Sized)
    (hcount : s.dirtyPageCount.toNat = (Bitmap.ones s.dirtyPages s.totalPages.toNat).card) :
    (∃ copied s', (migrationPrecopy (some p)).run h = some ((.ok, copied), h.setSession p (some s')) ∧
      PrecopyRound s s' ∧ (s.dirty.take 10000).length = min 10000 s.dirtyPageCount.toNat) ∧
    ∃ h' s', (precopyRounds p ((s.totalPages.toNat + 9999) / 10000)).run h = some ((), h') ∧
      h'.sessions p = some s' ∧ s'.dirtyPageCount = 0 ∧
      ∀ k < s.totalPages.toNat, Bitmap.bit s'.dirtyPages k = false := by
  rw [← Bitmap.length_positions] at hcount
  refine ⟨⟨_, _, migrationPrecopy_run hs, precopy_round hsized hcount, ?_⟩, ?_⟩
  · rw [List.length_take, hcount]
    rfl
  · obtain ⟨_, h', hrun, s', hs', htotal, hdirty, hcount'⟩ :=
      precopyRounds_spec hs hsized hcount ((s.totalPages.toNat + 9999) / 10000)
    have hle : s.dirty.length ≤ s.totalPages.toNat := by
      rw [MigrationSession.dirty, Bitmap.length_positions]
      exact Bitmap.card_ones_le _ _
    rw [List.drop_of_length_le (by omega)] at hdirty
    refine ⟨h', s', hrun, hs', UInt64.toNat_inj.mp (by rw [hcount', hdirty]; rfl), fun k hk => ?_⟩
    by_contra hbit
    have hmem : k ∈ s'.dirty := by
      rw [MigrationSession.dirty, htotal]
      exact Bitmap.mem_positions.mpr ⟨hk, Bool.not_eq_false _ ▸ hbit⟩
    rw [hdirty] at hmem
    cases hmem

/-- A session for three pages, the first and the last of which are dirty. -/
def threePages : MigrationSession :=
  { vm := 16384, totalPages := 3, dirtyPages := [5], dirtyPageCount := 2 }

theorem precopy_copies_first_three_pages : ∃ h copied s', h = (bootHost 1 .intel).setSession 4096
      (some threePages) ∧ (migrationPrecopy (some 4096)).run h =
        some ((.ok, copied), h.setSession 4096 (some s')) ∧ PrecopyRound threePages s' := by
  have hsized : threePages.Sized := fun i hi => by
    have hlt := UInt64.lt_iff_toNat_lt.mp hi
    change i.toNat < 3 at hlt
    change i.toNat / 64 < 1
    omega
  obtain ⟨⟨copied, s', hrun, hround, -⟩, -⟩ :=
    precopy_copies_first (setSession_self (bootHost 1 .intel) 4096 _) hsized (by decide)
  exact ⟨_, copied, s', rfl, hrun, hround⟩

end NexusVM
