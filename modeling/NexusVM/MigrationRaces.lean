import NexusVM.Lib.Fair
import NexusVM.MigrationThreads

/-!
# When a mark is lost

* **`racing_threads_return`**: under a fair schedule every call of the threads returns;
* `copyPage_runs`, `precopyPages_runs`, `precopyPages_pass`: the page loop undisturbed;
* `exists_lost`: a schedule that loses a mark;
* **`mark_lost_iff`**: when there is one.
-/

namespace NexusVM.Racing

open Threads

variable {s : MigrationSession} {T : Type}

/-! ## Progress -/

section Progress

theorem orderly_setState (state : MigrationState) : (setState state).Orderly none := ⟨rfl, rfl, rfl⟩

theorem orderly_precopyPages (is : List UInt64) (n : UInt64) : (precopyPages is n).Orderly none := by
  induction is generalizing n with
  | nil => rfl
  | cons i is ih =>
    by_cases hn : n < 10000
    · rw [precopyPages_cons i is hn]
      intro word
      change Code.Orderly none (if _ then _ else _)
      split_ifs
      · exact Code.Orderly.bind (fun _ _ _ => rfl) fun _ => ih (n + 1)
      · exact ih n
    · rw [precopyPages, if_neg hn]
      rfl

theorem orderly_call (call : SessionCall) : (call.code s).Orderly none := by
  cases call with
  | precopy =>
    refine Code.Orderly.bind (orderly_setState _) fun _ => ?_
    refine Code.Orderly.bind (orderly_precopyPages _ _) fun _ => ?_
    refine Code.Orderly.bind (fun _ _ _ _ => rfl) fun _ dirtyPageCount => ?_
    change Code.Orderly none (if _ then _ else _)
    split_ifs
    · exact orderly_setState _
    · intro iteration
      change Code.Orderly none (if _ then _ else _)
      split_ifs
      · exact orderly_setState _
      · rfl
  | track q =>
    change (migrationTrackDirtyPage s q).Orderly none
    unfold migrationTrackDirtyPage
    split_ifs
    · rfl
    · refine ⟨rfl, fun word => ?_⟩
      change Code.Orderly _ ((if Has word q then Code.ret () else markPage q) >>= fun _ => spinlockUnlock)
      split_ifs
      · exact ⟨rfl, rfl⟩
      · exact fun _ _ => ⟨rfl, rfl⟩

/-- **Every call returns** if the threads get their turns again and again: the loop that works without the lock
holds nobody up. -/
theorem racing_threads_return [Finite T] [DecidableEq T] (s : MigrationSession) (progs : T → List SessionCall)
    {σ : ℕ → T} (hσ : FairSchedule σ) : ∃ N, ∀ n, N ≤ n → ((threads s progs).after σ n).Done := by
  refine orderly_done hσ (fun t => ?_) fun _ => rfl
  change (runCalls s (progs t)).Orderly none
  induction progs t with
  | nil => rfl
  | cons call calls ih => exact Code.Orderly.bind (orderly_call call) fun _ => ih

theorem racing_threads_return_two_pages : ∃ N, ∀ n, N ≤ n →
    ((threads twoPages (raceOf 1)).after (fun n => decide (n % 2 = 0)) n).Done := by
  refine racing_threads_return twoPages (raceOf 1) fun t n => ?_
  cases t
  · exact ⟨2 * n + 1, by omega, by simp⟩
  · exact ⟨2 * n, by omega, by simp⟩

end Progress

/-! ## Undisturbed -/

section Undisturbed

variable {m m' : Field → UInt64} {p q i n : UInt64} {pre is r : List UInt64}

instance (m : Field → UInt64) (p : UInt64) : Decidable (Dirty m p) := inferInstanceAs (Decidable (Has _ _))

/-- All fields. -/
def Anywhere (_ : Field) : Prop := True

/-- Nothing has been done to any page. -/
structure Untouched (m m' : Field → UInt64) : Prop where
  dirty : ∀ p, Dirty m' p ↔ Dirty m p
  copied : ∀ p, Copied m' p ↔ Copied m p

theorem Untouched.trans {m'' : Field → UInt64} (h : Untouched m m') (h' : Untouched m' m'') : Untouched m m'' :=
  ⟨fun p => (h'.dirty p).trans (h.dirty p), fun p => (h'.copied p).trans (h.copied p)⟩

theorem untouched_update {x : Field} {v : UInt64} (hx : x.Quiet) : Untouched m (Function.update m x v) :=
  ⟨fun _ => dirty_update_quiet hx, fun _ => copied_update_quiet hx⟩

/-- Some code that leaves the pages alone. -/
def Idle (c : SessionCode Unit) : Prop := ∀ m, ∃ m', Runs Anywhere c m (.ret ()) m' ∧ Untouched m m'

theorem idle_update {x : Field} (y : Field) (f : UInt64 → UInt64) (hx : x.Quiet) :
    Idle (load y >>= fun v => store x (f v)) := fun _ =>
  ⟨_, .load trivial (.store trivial (.refl _ _)), untouched_update hx⟩

theorem Idle.seq {c d : SessionCode Unit} (hc : Idle c) (hd : Idle d) : Idle (c >>= fun _ => d) := fun m => by
  obtain ⟨m₁, hrun₁, hsame₁⟩ := hc m
  obtain ⟨m₂, hrun₂, hsame₂⟩ := hd m₁
  exact ⟨m₂, hrun₁.seq hrun₂, hsame₁.trans hsame₂⟩

theorem idle_countPage : Idle countPage :=
  (idle_update (x := .transferredPages) _ (· + 1) trivial).seq (idle_update (x := .dirtyPageCount) _ (· - 1) trivial)

theorem idle_updateStats : Idle updateStats :=
  (idle_update (x := .iteration) _ (· + 1) trivial).seq <|
    (idle_update (x := .statsDirtyPages) _ id trivial).seq <|
      (idle_update (x := .statsTransferredPages) _ id trivial).seq <|
        idle_update (x := .statsRemainingPages) _ id trivial

/-- What copying the page `i` does to the pages. -/
structure CopiedPage (i : UInt64) (m m' : Field → UInt64) : Prop where
  dirty : ∀ p, Dirty m' p ↔ Dirty m p ∧ p ≠ i
  copied : ∀ p, Copied m' p ↔ p = i ∨ Copied m p

/-- **A page is copied.** -/
theorem copyPage_runs (i : UInt64) (m : Field → UInt64) :
    ∃ m', Runs Anywhere (copyPage i) m (.ret ()) m' ∧ CopiedPage i m m' := by
  obtain ⟨m', hrun, hsame⟩ := idle_countPage (Function.update (Function.update m (.copied i) 1) (.word (i / 64))
    (m (.word (i / 64)) &&& ~~~ Bitmap.mask i))
  refine ⟨m', .store trivial (.load trivial (.store trivial hrun)), fun p => ?_, fun p => ?_⟩
  · rw [hsame.dirty, dirty_update_word]
    split_ifs with hp
    · rw [has_and_not_mask hp, Dirty, hp]
    · have hpi : p ≠ i := fun h => hp (by rw [h])
      rw [dirty_update_copied]
      exact (and_iff_left hpi).symm
  · rw [hsame.copied, copied_update_word, copied_update_copied]

/-- Pages that are not marked are left as they are. -/
structure Quiet (m m' : Field → UInt64) : Prop where
  clean : ∀ p, ¬ Dirty m p → ¬ Dirty m' p
  copied : ∀ p, ¬ Dirty m p → (Copied m' p ↔ Copied m p)

theorem Quiet.refl (m : Field → UInt64) : Quiet m m := ⟨fun _ => id, fun _ _ => Iff.rfl⟩

theorem Quiet.trans {m'' : Field → UInt64} (h : Quiet m m') (h' : Quiet m' m'') : Quiet m m'' :=
  ⟨fun p hp => h'.clean p (h.clean p hp), fun p hp => (h'.copied p (h.clean p hp)).trans (h.copied p hp)⟩

theorem CopiedPage.quiet (h : CopiedPage i m m') (hi : Dirty m i) : Quiet m m' := by
  refine ⟨fun p hp hp' => hp ((h.dirty p).mp hp').1, fun p hp => ?_⟩
  rw [h.copied, or_iff_right]
  rintro rfl
  exact hp hi

theorem Untouched.quiet (h : Untouched m m') : Quiet m m' :=
  ⟨fun p hp hp' => hp ((h.dirty p).mp hp'), fun p _ => h.copied p⟩

theorem precopyPages_copy (hn : n < 10000) (hi : Dirty m i) : Runs Anywhere (precopyPages (i :: is) n) m
    (copyPage i >>= fun _ => precopyPages is (n + 1)) m := by
  rw [precopyPages_cons i is hn]
  refine .load trivial ?_
  rw [if_pos (show Has (m (.word (i / 64))) i from hi)]
  exact .refl _ _

theorem precopyPages_skip (hn : n < 10000) (hi : ¬ Dirty m i) :
    Runs Anywhere (precopyPages (i :: is) n) m (precopyPages is n) m := by
  rw [precopyPages_cons i is hn]
  refine .load trivial ?_
  rw [if_neg (show ¬ Has (m (.word (i / 64))) i from hi)]
  exact .refl _ _

/-- **The page loop** leaves the pages that are not marked. -/
theorem precopyPages_runs (is : List UInt64) (n : UInt64) (m : Field → UInt64) :
    ∃ m', Runs Anywhere (precopyPages is n) m (.ret ()) m' ∧ Quiet m m' := by
  induction is generalizing n m with
  | nil => exact ⟨m, .refl _ _, .refl m⟩
  | cons i is ih =>
    by_cases hn : n < 10000
    · by_cases hi : Dirty m i
      · obtain ⟨m₁, hcopy, hpage⟩ := copyPage_runs i m
        obtain ⟨m₂, hrest, hquiet⟩ := ih (n + 1) m₁
        exact ⟨m₂, (precopyPages_copy hn hi).trans (hcopy.seq hrest), (hpage.quiet hi).trans hquiet⟩
      · obtain ⟨m₂, hrest, hquiet⟩ := ih n m
        exact ⟨m₂, (precopyPages_skip hn hi).trans hrest, hquiet⟩
    · rw [precopyPages, if_neg hn]
      exact ⟨m, .refl _ _, .refl m⟩

/-- **The page loop comes to the pages behind `pre`** after it has copied those of `pre` that are marked. -/
theorem precopyPages_pass (hnodup : pre.Nodup) (hlt : n.toNat + pre.countP (fun p => decide (Dirty m p)) < 10000) :
    ∃ m' n', Runs Anywhere (precopyPages (pre ++ r) n) m (precopyPages r n') m' ∧ n' < 10000 ∧ Quiet m m' ∧
      ∀ p, p ∉ pre → (Dirty m' p ↔ Dirty m p) := by
  induction pre generalizing n m with
  | nil => exact ⟨m, n, .refl _ _, UInt64.lt_iff_toNat_lt.mpr (by simpa using hlt), .refl m, fun _ _ => Iff.rfl⟩
  | cons i pre ih =>
    obtain ⟨hi, hnodup⟩ := List.nodup_cons.mp hnodup
    have hn : n < 10000 := UInt64.lt_iff_toNat_lt.mpr (by change n.toNat < 10000; omega)
    by_cases hdirty : Dirty m i
    · rw [List.countP_cons_of_pos (by simpa using hdirty)] at hlt
      obtain ⟨m₁, hcopy, hpage⟩ := copyPage_runs i m
      have hsame : pre.countP (fun p => decide (Dirty m₁ p)) = pre.countP fun p => decide (Dirty m p) := by
        refine List.countP_congr fun p hp => ?_
        rw [decide_eq_true_iff, decide_eq_true_iff, hpage.dirty]
        exact and_iff_left fun h => hi (h ▸ hp)
      have hsucc : (n + 1).toNat = n.toNat + 1 := by
        rw [UInt64.toNat_add, UInt64.toNat_one, Nat.mod_eq_of_lt (by omega)]
      obtain ⟨m', n', hrun, hn', hquiet, hothers⟩ := ih (n := n + 1) (m := m₁) hnodup (by rw [hsame, hsucc]; omega)
      refine ⟨m', n', (precopyPages_copy hn hdirty).trans (hcopy.seq hrun), hn', (hpage.quiet hdirty).trans hquiet,
        fun p hp => ?_⟩
      rw [List.mem_cons, not_or] at hp
      rw [hothers p hp.2, hpage.dirty]
      exact and_iff_left hp.1
    · rw [List.countP_cons_of_neg (by simpa using hdirty)] at hlt
      obtain ⟨m', n', hrun, hn', hquiet, hothers⟩ := ih (n := n) (m := m) hnodup hlt
      exact ⟨m', n', (precopyPages_skip hn hdirty).trans hrun, hn', hquiet,
        fun p hp => hothers p fun h => hp (List.mem_cons_of_mem _ h)⟩

end Undisturbed

/-! ## Races -/

section Races

variable {c : Config Unit Field UInt64 Bool Unit} {m m' : Field → UInt64} {p q i n : UInt64} {pre post : List UInt64}

theorem frames_split {total : UInt64} (h : pre ++ i :: post = frames total) :
    pre = (List.range i.toNat).map UInt64.ofNat ∧ i < total := by
  have hmem : i ∈ frames total := h ▸ List.mem_append_right pre List.mem_cons_self
  have hlen : (pre ++ i :: post).length = total.toNat := by rw [h, frames, List.length_map, List.length_range]
  rw [List.length_append, List.length_cons] at hlen
  have htake : pre = (List.range pre.length).map UInt64.ofNat := by
    have := congrArg (List.take pre.length) h
    rwa [List.take_left, frames, ← List.map_take, List.take_range, min_eq_left (by omega)] at this
  have hget := congrArg (fun xs => xs[pre.length]?) h
  simp only [List.getElem?_append_right le_rfl, Nat.sub_self, List.getElem?_cons_zero, frames, List.getElem?_map,
    List.getElem?_range (show pre.length < total.toNat by omega), Option.map_some, Option.some.injEq] at hget
  have hi : i.toNat = pre.length := by
    have := total.toNat_lt
    rw [hget, UInt64.toNat_ofNat', Nat.mod_eq_of_lt (by omega)]
  exact ⟨by rw [hi]; exact htake, mem_frames.mp hmem⟩

theorem countP_frames {w : List UInt64} (i : UInt64) :
    ((List.range i.toNat).map UInt64.ofNat).countP (Bitmap.test w) = (Bitmap.ones w i.toNat).card := by
  rw [List.countP_map, ← Bitmap.length_positions, Bitmap.positions, List.countP_eq_length_filter]
  congr 1
  refine List.filter_congr fun k hk => ?_
  have hk := List.mem_range.mp hk
  have := i.toNat_lt
  rw [Function.comp_apply, Bitmap.test_eq, UInt64.toNat_ofNat', Nat.mod_eq_of_lt (by omega)]

/-- A page that no thread has marked or copied. -/
def Lost (m : Field → UInt64) (q : UInt64) : Prop := ¬ Dirty m q ∧ ¬ Copied m q

theorem Quiet.lost (h : Quiet m m') (hq : Lost m q) : Lost m' q :=
  ⟨h.clean q hq.1, fun hc => hq.2 ((h.copied q hq.1).mp hc)⟩

/-- `migration_track_dirty_page` undisturbed. -/
theorem trackPage_runs (q : UInt64) (m : Field → UInt64) :
    ∃ m', Runs Anywhere (trackPage q) m (.ret ()) m' ∧ ∀ p, Copied m' p ↔ Copied m p := by
  rw [trackPage_eq]
  by_cases hword : Has (m (.word (q / 64))) q
  · refine ⟨m, .load trivial ?_, fun p => Iff.rfl⟩
    rw [if_pos hword]
    exact .refl _ _
  · obtain ⟨m', hrun, hsame⟩ := idle_update (x := .dirtyPageCount) .dirtyPageCount (· + 1) trivial
      (Function.update m (.word (q / 64)) (m (.word (q / 64)) ||| Bitmap.mask q))
    refine ⟨m', .load trivial ?_, fun p => (hsame.copied p).trans (copied_update_word _)⟩
    rw [if_neg hword, markPage_eq]
    exact .load trivial (.store trivial hrun)

theorem checkConverged_runs (s : MigrationSession) (m : Field → UInt64) :
    Runs Anywhere (checkConverged s) m (setState .stopAndCopy) m ∨ Runs Anywhere (checkConverged s) m (.ret ()) m := by
  have hload : Runs Anywhere (checkConverged s) m (if m .dirtyPageCount < 100 then setState .stopAndCopy
      else load .iteration >>= fun iteration =>
        if iteration > s.config.maxConvergenceIterations.toUInt64 then setState .stopAndCopy else .ret ()) m :=
    .load trivial (.refl _ _)
  split_ifs at hload
  · exact .inl hload
  · have hload' : Runs Anywhere (checkConverged s) m (if m .iteration > s.config.maxConvergenceIterations.toUInt64
        then setState .stopAndCopy else .ret ()) m := hload.trans (.load trivial (.refl _ _))
    split_ifs at hload'
    · exact .inl hload'
    · exact .inr hload'

theorem checkConverged_moves (hcode : c.code true = (checkConverged s >>= fun _ => .ret ()))
    (hfree : c.taken () = false) : ∃ c', Moves true c c' ∧ c'.code true = .ret () ∧ Untouched c.mem c'.mem := by
  rcases checkConverged_runs s c.mem with hrun | hrun
  · obtain ⟨d, hmoves, hd, hm⟩ := (hrun.bind fun _ => .ret ()).moves hcode rfl
    obtain ⟨c', hmoves', hc', hm'⟩ := Runs.locked (D := Anywhere) (.store trivial (.refl _ _)) hd
      (by rw [hmoves.taken, hfree])
    refine ⟨c', hmoves.trans hmoves', hc', ?_⟩
    rw [hm', hm]
    exact untouched_update (x := .state) trivial
  · obtain ⟨c', hmoves, hc', hm⟩ := (hrun.bind fun _ => .ret ()).moves hcode rfl
    exact ⟨c', hmoves, hc', fun p => by rw [hm], fun p => by rw [hm]⟩

/-- What a round does after its page loop. -/
def endRound (s : MigrationSession) : SessionCode Unit := do
  updateStats
  checkConverged s

/-- The thread is about to clear the bit of the page `p` in the word that it has read. -/
theorem precopyPages_reaches (hpages : pre ++ p :: post = frames s.totalPages) (hp : Dirty m p)
    (hlt : pre.countP (fun i => decide (Dirty m i)) < 10000) (hpq : p ≠ q) (hq : Lost m q) :
    ∃ n m', Runs Anywhere (precopyPages (frames s.totalPages) 0) m
      (.store (.word (p / 64)) (m' (.word (p / 64)) &&& ~~~ Bitmap.mask p)
        (countPage >>= fun _ => precopyPages post n)) m' ∧ Lost m' q := by
  have hnodup : (pre ++ p :: post).Nodup := hpages ▸ nodup_frames _
  have hpre := List.nodup_append.mp hnodup
  obtain ⟨m₁, n, hrun, hn, hquiet, hothers⟩ := precopyPages_pass (r := p :: post) (n := 0) hpre.1
    (by simpa using hlt)
  have hnot : p ∉ pre := fun hmem => hpre.2.2 p hmem p List.mem_cons_self rfl
  have hdirty : Dirty m₁ p := (hothers p hnot).mpr hp
  rw [← hpages]
  refine ⟨n + 1, Function.update m₁ (.copied p) 1, ?_, ?_⟩
  · refine hrun.trans ((precopyPages_copy hn hdirty).trans ?_)
    exact .store trivial (.load trivial (.refl _ _))
  · have hlost := hquiet.lost hq
    refine ⟨fun h => hlost.1 ((dirty_update_copied p).mp h), fun h => ?_⟩
    rcases (copied_update_copied p).mp h with h | h
    · exact hpq h.symm
    · exact hlost.2 h

/-- **The schedule that loses the mark**: it is made after the word has been read, and before it is written. -/
theorem exists_lost (hq : q < s.totalPages) (hclean : Bitmap.test s.dirtyPages q = false) (hp : p < s.totalPages)
    (hword : p / 64 = q / 64) (hdirty : Bitmap.test s.dirtyPages p = true)
    (hlt : (Bitmap.ones s.dirtyPages p.toNat).card < 10000) : ∃ sched,
      ((threads s (raceOf q)).run sched).Done ∧ Lost ((threads s (raceOf q)).run sched).mem q := by
  obtain ⟨pre, post, hpages⟩ := List.append_of_mem (mem_frames.mpr hp)
  have hpq : p ≠ q := by
    rintro rfl
    rw [hdirty] at hclean
    cases hclean
  -- the round begins
  let m₁ := Function.update (fields s) .state (stateWord .precopy)
  have hsame : Untouched (fields s) m₁ := untouched_update (x := .state) trivial
  have hlost₁ : Lost m₁ q := by
    refine hsame.quiet.lost ⟨?_, not_copied_fields s q⟩
    rw [dirty_fields, hclean]
    exact Bool.false_ne_true
  have hdecide : (fun i => decide (Dirty m₁ i)) = Bitmap.test s.dirtyPages := by
    funext i
    rw [Bool.eq_iff_iff, decide_eq_true_iff, hsame.dirty, dirty_fields]
  have hbegin : Runs Anywhere (.store .state (stateWord .precopy)
      (.unlock () ((precopyPages (frames s.totalPages) 0 >>= fun _ => endRound s) >>= fun _ => .ret ())))
      (fields s) (.unlock () ((precopyPages (frames s.totalPages) 0 >>= fun _ => endRound s) >>= fun _ => .ret ()))
      m₁ := .store trivial (.refl _ _)
  obtain ⟨c₁, hmoves₁, hc₁, hm₁⟩ := Runs.locked (c := threads s (raceOf q)) (t := true) hbegin rfl rfl
  -- it comes to the page `p`
  have hcount : pre.countP (fun i => decide (Dirty m₁ i)) < 10000 := by
    rwa [hdecide, (frames_split hpages.symm).1, countP_frames]
  obtain ⟨n, m₂, hreach, hlost₂⟩ := precopyPages_reaches hpages.symm
    ((hsame.dirty p).mpr ((dirty_fields s p).mpr hdirty)) hcount hpq hlost₁
  obtain ⟨c₂, hmoves₂, hc₂, hm₂⟩ := ((hreach.bind fun _ => endRound s).bind fun _ => .ret ()).moves hc₁ hm₁
  have hmain := hmoves₁.trans hmoves₂
  -- the page `q` is marked meanwhile
  obtain ⟨m₃, htrack, hcopied⟩ := trackPage_runs q m₂
  have hcode₂ : c₂.code false = .lock () ((trackPage q >>= fun _ => spinlockUnlock) >>= fun _ => .ret ()) := by
    rw [hmain.others false (by simp)]
    change (migrationTrackDirtyPage s q >>= fun _ => .ret ()) = _
    rw [migrationTrackDirtyPage, if_neg (UInt64.not_le.mpr hq)]
    rfl
  have hmark : Runs Anywhere ((trackPage q >>= fun _ => spinlockUnlock) >>= fun _ => .ret ()) c₂.mem
      (.unlock () (.ret ())) m₃ := by
    rw [hm₂]
    exact (htrack.bind fun _ => spinlockUnlock).bind fun _ => .ret ()
  obtain ⟨c₃, hmoves₃, hc₃, hm₃⟩ := hmark.locked hcode₂ (by rw [hmain.taken]; rfl)
  -- and the word is written
  let m₄ := Function.update m₃ (.word (p / 64)) (m₂ (.word (p / 64)) &&& ~~~ Bitmap.mask p)
  have hlost₄ : Lost m₄ q := by
    refine ⟨fun h => ?_, fun h => hlost₂.2 ((hcopied q).mp ((copied_update_word _).mp h))⟩
    rw [dirty_update_word, if_pos hword.symm, has_and_not_mask hword.symm] at h
    rw [Lost, Dirty, ← hword] at hlost₂
    exact hlost₂.1 h.1
  obtain ⟨m₅, hcounted, hquiet₅⟩ := idle_countPage m₄
  obtain ⟨m₆, hpost, hquiet₆⟩ := precopyPages_runs post n m₅
  obtain ⟨m₇, hstats, hquiet₇⟩ := idle_updateStats m₆
  have hend : Runs Anywhere (c₃.code true) m₃ (checkConverged s >>= fun _ => .ret ()) m₇ := by
    rw [hmoves₃.others true (by simp), hc₂]
    refine .store trivial ?_
    refine (((hcounted.seq hpost).bind fun _ => endRound s).trans ?_).bind fun _ => .ret ()
    exact hstats.bind fun _ => checkConverged s
  obtain ⟨c₄, hmoves₄, hc₄, hm₄⟩ := hend.moves rfl hm₃
  obtain ⟨c₅, hmoves₅, hc₅, hsame₅⟩ := checkConverged_moves hc₄ (by
    rw [hmoves₄.taken, hmoves₃.taken, hmain.taken]
    rfl)
  obtain ⟨⟨n₁, hn₁⟩, -, -⟩ := hmain
  obtain ⟨⟨n₂, hn₂⟩, -, -⟩ := hmoves₃
  obtain ⟨⟨n₃, hn₃⟩, -, hothers⟩ := hmoves₄.trans hmoves₅
  refine ⟨List.replicate n₁ true ++ List.replicate n₂ false ++ List.replicate n₃ true, ?_⟩
  rw [Config.run_append, Config.run_append, hn₁, hn₂, hn₃]
  refine ⟨fun t => ⟨(), ?_⟩, ?_⟩
  · cases t
    · rw [hothers false (by simp), hc₃]
    · exact hc₅
  · refine hsame₅.quiet.lost ?_
    rw [hm₄]
    exact hquiet₇.quiet.lost (hquiet₆.lost (hquiet₅.quiet.lost hlost₄))

/-- **When a mark can be lost.** One thread makes a round of precopy while another marks the page `q`, which is not
marked. Some schedule leaves the page neither marked nor copied if and only if the round copies another page of
the same word of the bitmap. -/
theorem mark_lost_iff (hq : q < s.totalPages) (hclean : Bitmap.test s.dirtyPages q = false) :
    (∃ sched, ((threads s (raceOf q)).run sched).Done ∧ ¬ Dirty ((threads s (raceOf q)).run sched).mem q ∧
      ¬ Copied ((threads s (raceOf q)).run sched).mem q) ↔
    ∃ p, p < s.totalPages ∧ p / 64 = q / 64 ∧ Bitmap.test s.dirtyPages p = true ∧
      (Bitmap.ones s.dirtyPages p.toNat).card < 10000 := by
  constructor
  · rintro ⟨sched, hdone, hdirty, hcopied⟩
    let D := Bitmap.test s.dirtyPages
    let S := fun p => D p = true ∨ p = q
    let C := fun p => p = q ∨ p < s.totalPages ∧ D p = true ∧ (Bitmap.ones s.dirtyPages p.toNat).card < 10000
    have haccount : Account D S C (fields s) := by
      refine ⟨fun p hp => .inl ((dirty_fields s p).mpr hp), fun p hp => .inl ((dirty_fields s p).mp hp),
        fun p hp => absurd hp (not_copied_fields s p)⟩
    have hC : Turn D s True S C := by
      intro pre i post hpages hi hcount
      obtain ⟨hpre, hlt⟩ := frames_split hpages
      have hcount := hcount trivial
      rw [hpre, countP_frames] at hcount
      exact hi.symm.imp_right fun hD => ⟨hlt, hD, hcount⟩
    have hsafe : ∀ t, (runCalls s (raceOf q t)).Safe (guarantee D S C true) t
        (fun _ _ m => Account D S C m ∧ (t = false → Kept q m)) ∅ (fields s) := by
      rintro (_ | _)
      · refine ((safe_migrationTrackDirtyPage lasting_account (fun m => id) (.inr rfl) haccount).mono ?_).bind
        intro _ H m hm
        exact .ret (lasting_account.and lasting_kept).knows.stable ⟨hm.1, hm.2 hq⟩ fun m hm => ⟨hm.1, fun _ => hm.2⟩
      · refine ((safe_migrationPrecopy lasting_account (fun m => id) hC ⟨haccount, fun p _ =>
          not_copied_fields s p⟩).mono ?_).bind
        intro _ H m hm
        exact .ret lasting_account.knows.stable hm fun m hm => ⟨hm, fun h => by cases h⟩
    obtain ⟨held, htogether, ha⟩ := together_run lasting_account (c := threads s (raceOf q)) haccount hsafe sched
    obtain ⟨_, hret⟩ := hdone false
    obtain hmarked | ⟨p, hword, hp⟩ := (htogether.ret hret).2 rfl
    · exact absurd hmarked hdirty
    · rcases ha.chosen p hp with rfl | ⟨hlt, hD, hcount⟩
      · exact absurd hp hcopied
      · exact ⟨p, hlt, hword, hD, hcount⟩
  · rintro ⟨p, hp, hword, hdirty, hcount⟩
    exact exists_lost hq hclean hp hword hdirty hcount

theorem mark_lost_iff_two_pages : ∃ sched, ((threads twoPages (raceOf 1)).run sched).Done ∧
    ¬ Dirty ((threads twoPages (raceOf 1)).run sched).mem 1 ∧
    ¬ Copied ((threads twoPages (raceOf 1)).run sched).mem 1 :=
  (mark_lost_iff (s := twoPages) (q := 1) (by decide) (by decide)).mpr ⟨0, by decide, by decide, by decide, by decide⟩

end Races

end NexusVM.Racing
