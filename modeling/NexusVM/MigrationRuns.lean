import NexusVM.Migration
import NexusVM.Runs

/-!
# Runs of a migration

* `Versions`: the version of each frame, and the last version that was copied;
* `MigrationOp`, `migrationRun`: guest writes and rounds of copying, with their versions;
* `Tracked`, `Tracked.write`, `Tracked.precopy`: a frame with a clear bit was copied as it is;
* **`no_update_lost`**: after the last round every frame was copied in its latest version;
* **`stop_and_copy_stops_iff`**: when that round runs without a running vCPU.
-/

namespace NexusVM

open Prog

variable {h h' h₁ : Host} {a p : Addr} {v : Nexusvm} {s s' : MigrationSession}

/-! ## Versions -/

/-- How often each frame was written, and what of it was copied last. -/
structure Versions where
  version : UInt64 → ℕ
  sent : UInt64 → Option ℕ

/-- A guest write to a frame. -/
def Versions.write (g : Versions) (frame : UInt64) : Versions :=
  { g with version := Function.update g.version frame (g.version frame + 1) }

/-- Some frames are copied as they are. -/
def Versions.copy (g : Versions) (copied : List UInt64) : Versions :=
  { g with sent := fun i => if i ∈ copied then some (g.version i) else g.sent i }

/-- A guest write to a frame with the call that tracks it, or a round of copying. -/
inductive MigrationOp
  | write (frame : UInt64)
  | precopy

/-- The call of an operation on the session at `p`, with the frames that it copies. -/
def MigrationOp.run (p : Addr) : MigrationOp → HostM (List UInt64)
  | .write frame => do
    migrationTrackDirtyPage (some p) frame
    return []
  | .precopy => do return (← migrationPrecopy (some p)).2

/-- The versions after an operation and the copies that it made. -/
def MigrationOp.versions (g : Versions) (copied : List UInt64) : MigrationOp → Versions
  | .write frame => (g.write frame).copy copied
  | .precopy => g.copy copied

/-- A run of operations, from the versions `g` on. -/
def migrationRun (p : Addr) : List MigrationOp → Versions → HostM Versions
  | [], g => return g
  | op :: ops, g => do
    let copied ← op.run p
    migrationRun p ops (op.versions g copied)

/-! ## Sessions -/

theorem setSession_self (h : Host) (p : Addr) (s : Option MigrationSession) :
    (h.setSession p s).sessions p = s :=
  Function.update_self _ _ _

/-- What no call of a session changes but its creation and its end. -/
structure SameSession (s s' : MigrationSession) : Prop where
  vm : s'.vm = s.vm
  config : s'.config = s.config
  connection : s'.connection = s.connection
  totalPages : s'.totalPages = s.totalPages
  length : s'.dirtyPages.length = s.dirtyPages.length

theorem SameSession.refl (s : MigrationSession) : SameSession s s := ⟨rfl, rfl, rfl, rfl, rfl⟩

theorem SameSession.trans {s'' : MigrationSession} (e : SameSession s s') (e' : SameSession s' s'') :
    SameSession s s'' :=
  ⟨e'.1.trans e.1, e'.2.trans e.2, e'.3.trans e.3, e'.4.trans e.4, e'.5.trans e.5⟩

theorem mem_frames {n i : UInt64} : i ∈ frames n ↔ i < n := by
  rw [frames, List.mem_map, UInt64.lt_iff_toNat_lt]
  constructor
  · rintro ⟨k, hk, rfl⟩
    rw [List.mem_range] at hk
    have := n.toNat_lt
    rwa [UInt64.toNat_ofNat', Nat.mod_eq_of_lt (by omega)]
  · intro hi
    exact ⟨i.toNat, List.mem_range.mpr hi, UInt64.ofNat_toNat⟩

/-- Each frame has a word in the bitmap. -/
def MigrationSession.Sized (s : MigrationSession) : Prop :=
  ∀ i < s.totalPages, i.toNat / 64 < s.dirtyPages.length

theorem trackDirtyPage_same (s : MigrationSession) (frame : UInt64) :
    SameSession s (s.trackDirtyPage frame) := by
  unfold MigrationSession.trackDirtyPage
  split_ifs
  · exact SameSession.refl s
  · exact SameSession.refl s
  · exact ⟨rfl, rfl, rfl, rfl, Bitmap.length_set _ _⟩

/-- A tracked frame is dirty, and so is every frame that was. -/
theorem test_trackDirtyPage (hs : s.Sized) {frame i : UInt64} (hi : i < s.totalPages) :
    Bitmap.test (s.trackDirtyPage frame).dirtyPages i =
      (Bitmap.test s.dirtyPages i || decide (frame = i)) := by
  unfold MigrationSession.trackDirtyPage
  split_ifs with hge hdirty
  · have hne : frame ≠ i := by
      rintro rfl
      exact UInt64.not_le.mpr hi hge
    rw [decide_eq_false hne, Bool.or_false]
  · by_cases hf : frame = i
    · subst hf
      rw [hdirty, Bool.true_or]
    · rw [decide_eq_false hf, Bool.or_false]
  · exact Bitmap.test_set (hs frame (UInt64.not_le.mp hge))

theorem precopyPages_same {is : List UInt64} {k : UInt64} :
    SameSession s (precopyPages is k s).1 := by
  induction is generalizing k s with
  | nil => exact SameSession.refl s
  | cons x is ih =>
    rw [precopyPages]
    split_ifs with hcap hdirty
    · have hsame := ih (k := k + 1) (s := { s with
        dirtyPages := Bitmap.clear s.dirtyPages x
        transferredPages := s.transferredPages + 1
        dirtyPageCount := s.dirtyPageCount - 1 })
      exact ⟨hsame.1, hsame.2, hsame.3, hsame.4, hsame.5.trans (Bitmap.length_clear _ _)⟩
    · exact ih
    · exact SameSession.refl s

theorem precopyPages_bit {is : List UInt64} {k : UInt64}
    (his : ∀ i ∈ is, i.toNat / 64 < s.dirtyPages.length) (j : ℕ) :
    Bitmap.bit (precopyPages is k s).1.dirtyPages j =
      (Bitmap.bit s.dirtyPages j && !decide (j ∈ (precopyPages is k s).2.map UInt64.toNat)) := by
  induction is generalizing k s with
  | nil => simp [precopyPages]
  | cons x is ih =>
    obtain ⟨hxlt, his⟩ := List.forall_mem_cons.mp his
    rw [precopyPages]
    split_ifs with hcap hdirty
    · have hbit := ih (k := k + 1) (s := { s with
        dirtyPages := Bitmap.clear s.dirtyPages x
        transferredPages := s.transferredPages + 1
        dirtyPageCount := s.dirtyPageCount - 1 }) fun i hi => by rw [Bitmap.length_clear]; exact his i hi
      rw [hbit, Bitmap.bit_clear hxlt, Bool.and_assoc]
      congr 1
      rw [← Bool.not_or]
      simp [eq_comm]
    · exact ih his
    · simp

/-- **The page loop of a round** clears the bits of the frames that it copies, and no others. -/
theorem precopyPages_test {is : List UInt64} {k : UInt64}
    (his : ∀ i ∈ is, i.toNat / 64 < s.dirtyPages.length) (i : UInt64) :
    Bitmap.test (precopyPages is k s).1.dirtyPages i =
      (Bitmap.test s.dirtyPages i && !decide (i ∈ (precopyPages is k s).2)) := by
  have hinj : Function.Injective UInt64.toNat := fun _ _ => UInt64.toNat_inj.mp
  rw [Bitmap.test_eq, Bitmap.test_eq, precopyPages_bit his]
  simp only [List.mem_map_of_injective hinj]

/-- **A round** changes the phase, the bitmap and the counters only. -/
theorem precopy_same (s : MigrationSession) : SameSession s s.precopy.1 := by
  have hpages : SameSession { s with state := .precopy }
      (precopyPages (frames s.totalPages) 0 { s with state := .precopy }).1 := precopyPages_same
  unfold MigrationSession.precopy
  generalize precopyPages (frames s.totalPages) 0 { s with state := .precopy } = r at hpages
  obtain ⟨s', copied⟩ := r
  dsimp only at hpages ⊢
  split_ifs
  · exact ⟨hpages.1, hpages.2, hpages.3, hpages.4, hpages.5⟩
  · exact ⟨hpages.1, hpages.2, hpages.3, hpages.4, hpages.5⟩

/-- **A round** clears the bits of the frames that it copies, and no others. -/
theorem precopy_test (hs : s.Sized) (i : UInt64) : Bitmap.test s.precopy.1.dirtyPages i =
    (Bitmap.test s.dirtyPages i && !decide (i ∈ s.precopy.2)) := by
  have hin : ∀ i ∈ frames s.totalPages, i.toNat / 64 < s.dirtyPages.length := fun i hi =>
    hs i (mem_frames.mp hi)
  have hpages := precopyPages_test (s := { s with state := .precopy }) (k := 0) hin i
  unfold MigrationSession.precopy
  generalize precopyPages (frames s.totalPages) 0 { s with state := .precopy } = r at hpages
  obtain ⟨s', copied⟩ := r
  dsimp only at hpages ⊢
  split_ifs <;> exact hpages

/-! ## The invariant -/

/-- Every frame of the session that is not dirty was copied in its current version. -/
structure Tracked (s : MigrationSession) (g : Versions) : Prop where
  sized : s.Sized
  clean : ∀ i < s.totalPages, Bitmap.test s.dirtyPages i = false → g.sent i = some (g.version i)

theorem SameSession.sized (e : SameSession s s') (hs : s.Sized) : s'.Sized := by
  intro i hi
  rw [e.totalPages] at hi
  rw [e.length]
  exact hs i hi

/-- **A guest write makes its frame dirty.** -/
theorem Tracked.write {g : Versions} (ht : Tracked s g) (frame : UInt64) :
    Tracked (s.trackDirtyPage frame) (g.write frame) := by
  have hsame := trackDirtyPage_same s frame
  refine ⟨hsame.sized ht.sized, fun i hi hclean => ?_⟩
  rw [hsame.totalPages] at hi
  rw [test_trackDirtyPage ht.sized hi, Bool.or_eq_false_iff, decide_eq_false_iff_not] at hclean
  have hversion : (g.write frame).version i = g.version i :=
    Function.update_of_ne (Ne.symm hclean.2) _ _
  rw [hversion]
  exact ht.clean i hi hclean.1

/-- **A round copies what it clears.** -/
theorem Tracked.precopy {g : Versions} (ht : Tracked s g) :
    Tracked s.precopy.1 (g.copy s.precopy.2) := by
  have hsame := precopy_same s
  refine ⟨hsame.sized ht.sized, fun i hi hclean => ?_⟩
  rw [hsame.totalPages] at hi
  by_cases hcopied : i ∈ s.precopy.2
  · exact if_pos hcopied
  · rw [precopy_test ht.sized, decide_eq_false hcopied, Bool.not_false, Bool.and_true] at hclean
    exact (if_neg hcopied).trans (ht.clean i hi hclean)

/-! ## Calls -/

section Rules

@[simp] theorem wp_getSession {Q : MigrationSession → Host → Prop} :
    wp (getSession p) Q h ↔ ∃ s, h.sessions p = some s ∧ Q s h := wp_fetch

@[simp] theorem wp_putSession {Q : Unit → Host → Prop} :
    wp (putSession p s) Q h ↔ Q () (h.setSession p (some s)) := wp_modify _

@[simp] theorem wlp_getSession {Q : MigrationSession → Host → Prop} :
    wlp (getSession p) Q h ↔ ∀ s, h.sessions p = some s → Q s h := wlp_fetch

@[simp] theorem wlp_putSession {Q : Unit → Host → Prop} :
    wlp (putSession p s) Q h ↔ Q () (h.setSession p (some s)) := wlp_modify _

end Rules

/-- **An operation of a migration** changes its session and nothing else. -/
theorem migrationOp_spec (hs : h.sessions p = some s) {g : Versions} (ht : Tracked s g)
    (op : MigrationOp) : wp (op.run p) (fun copied h' => ∃ s', SameSession s s' ∧
      h' = h.setSession p (some s') ∧ Tracked s' (op.versions g copied)) h := by
  cases op with
  | write frame =>
    simp only [MigrationOp.run, migrationTrackDirtyPage, wp_bind, wp_getSession, wp_putSession,
      wp_pure]
    refine ⟨s, hs, _, trackDirtyPage_same s frame, rfl, ?_⟩
    have hnone : (g.write frame).copy [] = g.write frame := by
      simp [Versions.copy]
    rw [MigrationOp.versions, hnone]
    exact ht.write frame
  | precopy =>
    simp only [MigrationOp.run, migrationPrecopy, wp_bind, wp_getSession, wp_putSession, wp_pure]
    exact ⟨s, hs, _, precopy_same s, rfl, ht.precopy⟩

theorem migrationRun_spec (hs : h.sessions p = some s) {g : Versions} (ht : Tracked s g)
    (ops : List MigrationOp) : wp (migrationRun p ops g) (fun g' h' => ∃ s', SameSession s s' ∧
      h' = h.setSession p (some s') ∧ Tracked s' g') h := by
  induction ops generalizing h s g with
  | nil =>
    rw [migrationRun, wp_pure]
    refine ⟨s, SameSession.refl s, ?_, ht⟩
    rw [Host.setSession, ← hs, Function.update_eq_self]
  | cons op ops ih =>
    rw [migrationRun, wp_bind]
    refine wp_mono (migrationOp_spec hs ht op) ?_
    rintro copied _ ⟨s₁, hsame, rfl, ht₁⟩
    refine wp_mono (ih (h := h.setSession p (some s₁)) (Function.update_self _ _ _) ht₁) ?_
    rintro g' _ ⟨s', hsame', rfl, ht'⟩
    refine ⟨s', hsame.trans hsame', ?_, ht'⟩
    simp only [Host.setSession, Function.update_idem]

/-- The session that `migration_start` sets up, with its bitmap at `d`. -/
def startSession (a : Addr) (config : MigrationConfig) (v : Nexusvm) (d : Addr) :
    MigrationSession where
  vm := a
  config := config
  state := .initiated
  isSource := true
  totalPages := v.memorySize / PAGE_SIZE
  dirtyTable := some d
  dirtyPages := Bitmap.setAll (List.replicate ((v.memorySize / PAGE_SIZE + 63) / 64).toNat 0)
    (v.memorySize / PAGE_SIZE).toNat
  dirtyPageCount := v.memorySize / PAGE_SIZE

/-- **`migration_start`** sets up a session, and makes the VM a migrating one. -/
theorem migrationStart_session (hv : h.vms a = some v) (config : MigrationConfig) :
    wp (migrationStart (some a) (some config)) (fun r h' => ∀ p, r = .ok p → ∃ m d,
      h' = ((h.setMem m).setSession p (some (startSession a config v d))).setVm a
        (some { v with state := .migrating })) h := by
  simp only [migrationStart, wp_bind]
  refine wp_mono (calloc_spec _ _ _ _) ?_
  rintro (- | p) _ ⟨m₁, rfl, -⟩
  · rw [wp_pure]
    simp
  simp only [wp_bind, wp_getVm]
  refine ⟨v, hv, wp_mono (calloc_spec _ _ _ _) ?_⟩
  rintro (- | d) _ ⟨m₂, rfl, -⟩
  · simp only [wp_bind]
    refine wp_mono (freeBuffer_spec _ _ _) ?_
    intros
    rw [wp_pure]
    simp
  simp only [wp_bind, wp_putSession, wp_getVm, wp_putVm, wp_pure]
  refine ⟨v, hv, ?_⟩
  rintro _ ⟨⟩
  exact ⟨m₂, d, rfl⟩

/-- The words of the bitmap of a VM: one for every 64 pages. -/
theorem words_toNat (v : Nexusvm) : ((v.memorySize / PAGE_SIZE + 63) / 64).toNat =
    ((v.memorySize / PAGE_SIZE).toNat + 63) / 64 := by
  have hpages : (v.memorySize / PAGE_SIZE).toNat ≤ 2 ^ 52 := by
    rw [UInt64.toNat_div, show PAGE_SIZE.toNat = 4096 from rfl]
    have := v.memorySize.toNat_lt
    omega
  rw [UInt64.toNat_div, UInt64.toNat_add, show (63 : UInt64).toNat = 63 from rfl,
    show (64 : UInt64).toNat = 64 from rfl, Nat.mod_eq_of_lt (by omega)]

/-- The session that `migration_start` sets up for a VM. -/
structure NewSession (a : Addr) (v : Nexusvm) (s : MigrationSession) : Prop where
  vm : s.vm = a
  connection : s.connection = none
  totalPages : s.totalPages = v.memorySize / PAGE_SIZE
  sized : s.Sized
  dirty : ∀ i < s.totalPages, Bitmap.test s.dirtyPages i = true

theorem newSession_startSession (a : Addr) (config : MigrationConfig) (v : Nexusvm) (d : Addr) :
    NewSession a v (startSession a config v d) := by
  refine ⟨rfl, rfl, rfl, fun i hi => ?_, fun i hi => ?_⟩
  · have hi' : i.toNat < (v.memorySize / PAGE_SIZE).toNat := UInt64.lt_iff_toNat_lt.mp hi
    rw [startSession, Bitmap.length_setAll, List.length_replicate, words_toNat]
    omega
  · exact Bitmap.test_setAll (by rw [List.length_replicate, words_toNat])
      (v.memorySize / PAGE_SIZE).toNat_lt (UInt64.lt_iff_toNat_lt.mp hi)

/-- **`migration_start`** makes every page dirty and the VM a migrating one. -/
theorem migrationStart_spec (hv : h.vms a = some v) (config : MigrationConfig) :
    wp (migrationStart (some a) (some config)) (fun r h' => ∀ p, r = .ok p → ∃ m s,
      NewSession a v s ∧ h' = ((h.setMem m).setSession p (some s)).setVm a
        (some { v with state := .migrating })) h := by
  refine wp_mono (migrationStart_session hv config) fun r h' hr p hp => ?_
  obtain ⟨m, d, rfl⟩ := hr p hp
  exact ⟨m, _, newSession_startSession a config v d, rfl⟩

/-- The page loop of the last round copies the dirty frames, and counts them. -/
theorem stopAndCopyPages_spec (hs : h.sessions p = some s) (is : List UInt64) :
    wp (stopAndCopyPages p is) (fun copied h' => copied = is.filter (Bitmap.test s.dirtyPages ·) ∧
      h' = h.setSession p (some { s with
        transferredPages := s.transferredPages + UInt64.ofNat copied.length })) h := by
  induction is generalizing h s with
  | nil =>
    rw [stopAndCopyPages, wp_pure]
    refine ⟨rfl, ?_⟩
    simp only [List.length_nil, show UInt64.ofNat 0 = 0 from rfl, UInt64.add_zero]
    rw [Host.setSession, ← hs, Function.update_eq_self]
  | cons i is ih =>
    simp only [stopAndCopyPages, wp_bind, wp_getSession]
    refine ⟨s, hs, wp_ite (fun hd => ?_) fun hd => ?_⟩
    · simp only [wp_bind, wp_putSession]
      refine wp_mono (ih (s := { s with transferredPages := s.transferredPages + 1 })
        (Function.update_self _ _ _)) ?_
      rintro copied _ ⟨rfl, rfl⟩
      rw [wp_pure]
      refine ⟨(List.filter_cons_of_pos hd).symm, ?_⟩
      rw [List.length_cons, UInt64.ofNat_add, ← UInt64.add_comm (UInt64.ofNat 1), ← UInt64.add_assoc]
      simp only [Host.setSession, Function.update_idem]
      rfl
    · refine wp_mono (ih hs) ?_
      rintro copied _ ⟨rfl, rfl⟩
      exact ⟨(List.filter_cons_of_neg hd).symm, rfl⟩

/-- **The VM is not paused.** `vm_pause` refuses a VM that is migrating. -/
theorem stopGuest_spec (hs : h.sessions p = some s) (hv : h.vms s.vm = some v)
    (hstate : v.state = .migrating) :
    wp (stopGuest p) (fun _ h' => h' = h.setSession p (some { s with state := .stopAndCopy })) h := by
  simp only [stopGuest, vmPause, wp_bind, wp_getSession, wp_putSession, wp_discard, wp_getVm]
  refine ⟨s, hs, v, hv, wp_ite (fun _ => ?_) fun hrun => ?_⟩
  · rw [wp_pure]
  · rw [hstate] at hrun
    exact absurd hrun (by decide)

/-- **`migration_stop_and_copy`** returns and has copied every dirty frame. -/
theorem migrationStopAndCopy_spec (hs : h.sessions p = some s) (hv : h.vms s.vm = some v)
    (hstate : v.state = .migrating) (hconn : s.connection = none) :
    wp (migrationStopAndCopy (some p)) (fun r _ =>
      r.2 = (frames s.totalPages).filter (Bitmap.test s.dirtyPages ·)) h := by
  simp only [migrationStopAndCopy, wp_bind]
  refine wp_mono (stopGuest_spec hs hv hstate) ?_
  rintro _ _ rfl
  simp only [wp_getSession]
  refine ⟨_, Function.update_self _ _ _, wp_mono (stopAndCopyPages_spec (h := h.setSession p _)
    (Function.update_self _ _ _) _) ?_⟩
  rintro copied _ ⟨rfl, rfl⟩
  refine ⟨_, Function.update_self _ _ _, ?_⟩
  simp only [migrationSendVmState, hconn, wp_pure]
  refine wp_ite (fun _ => ?_) fun hok => ?_
  · rw [wp_pure]
  · exact absurd (by decide) hok

/-! ## Runs -/

theorem migration_run (hv : h.vms a = some v) {config : MigrationConfig}
    (hstart : (migrationStart (some a) (some config)).run h = some (.ok p, h₁))
    (ops : List MigrationOp) (g : Versions) : ∃ g' h₂ s, (migrationRun p ops g).run h₁ = some (g', h₂) ∧
      h₂.sessions p = some s ∧ s.vm = a ∧ s.connection = none ∧
      s.totalPages = v.memorySize / PAGE_SIZE ∧ Tracked s g' ∧
      h₂.vms a = some { v with state := .migrating } ∧ h₂.vcpus = h.vcpus := by
  obtain ⟨m, s, hnew, rfl⟩ := wp_run (migrationStart_spec hv config) hstart p rfl
  have ht : Tracked s g := ⟨hnew.sized, fun i hi hclean => by
    rw [hnew.dirty i hi] at hclean
    cases hclean⟩
  obtain ⟨g', h₂, hrun, s', hsame, rfl, ht'⟩ := migrationRun_spec
    (h := ((h.setMem m).setSession p (some s)).setVm a (some { v with state := .migrating }))
    (Function.update_self _ _ _) ht ops
  exact ⟨g', _, s', hrun, Function.update_self _ _ _, hsame.vm.trans hnew.vm,
    hsame.connection.trans hnew.connection, hsame.totalPages.trans hnew.totalPages, ht',
    Function.update_self _ _ _, rfl⟩

/-- **No update is lost.** After `migration_start` every sequence of guest writes, each followed by
its tracking call, and of precopy rounds returns, and leaves every frame of the VM that is not
dirty copied in its current version. The page loop of `migration_stop_and_copy` then brings every
frame to its latest version. -/
theorem no_update_lost (hv : h.vms a = some v) {config : MigrationConfig}
    (hstart : (migrationStart (some a) (some config)).run h = some (.ok p, h₁))
    (ops : List MigrationOp) (g₀ : Versions) : ∃ g h₂ s r copied h₃,
      (migrationRun p ops g₀).run h₁ = some (g, h₂) ∧ h₂.sessions p = some s ∧
      s.totalPages = v.memorySize / PAGE_SIZE ∧
      (∀ i < s.totalPages, Bitmap.test s.dirtyPages i = false → g.sent i = some (g.version i)) ∧
      (migrationStopAndCopy (some p)).run h₂ = some ((r, copied), h₃) ∧
      ∀ i < s.totalPages, (g.copy copied).sent i = some ((g.copy copied).version i) := by
  obtain ⟨g, h₂, s, hrun, hs, rfl, hconn, htotal, ht, hvm, -⟩ := migration_run hv hstart ops g₀
  obtain ⟨⟨r, copied⟩, h₃, hstop, hcopied⟩ := migrationStopAndCopy_spec hs hvm rfl hconn
  refine ⟨g, h₂, s, r, copied, h₃, hrun, hs, htotal, ht.clean, hstop, fun i hi => ?_⟩
  by_cases hd : Bitmap.test s.dirtyPages i = true
  · have hmem : i ∈ copied := by
      rw [show copied = _ from hcopied]
      exact List.mem_filter.mpr ⟨mem_frames.mpr hi, hd⟩
    exact if_pos hmem
  · have hmem : i ∉ copied := by
      rw [show copied = _ from hcopied]
      exact fun hc => hd (List.mem_filter.mp hc).2
    rw [Bool.not_eq_true] at hd
    exact (if_neg hmem).trans (ht.clean i hi hd)

theorem migration_start_two_pages : ∃ h v h₁, (runOps HvOp.run
      [.create { vcpuCount := 1, memorySize := 8192 }, .lifecycle .start 16384]).run
        (bootHost 1 .intel) = some ((), h) ∧
      h.vms 16384 = some v ∧ v.state = .running ∧ v.vcpus = [81920] ∧
      (h.vcpus 81920).map Nexusvcpu.running = some true ∧ v.memorySize = 8192 ∧
      (migrationStart (some 16384) (some {})).run h = some (.ok 196608, h₁) := by
  have hres : ((runOps HvOp.run [.create { vcpuCount := 1, memorySize := 8192 },
      .lifecycle .start 16384]).run (bootHost 1 .intel)).any (fun p =>
        (p.2.vms 16384).any (fun v => v.state = .running && v.vcpus = [81920] &&
          v.memorySize = 8192) &&
        (p.2.vcpus 81920).map Nexusvcpu.running = some true &&
        ((migrationStart (some 16384) (some {})).run p.2).any fun q =>
          q.1.toOption = some 196608) = true := by decide +kernel
  obtain ⟨⟨⟨⟩, h⟩, hrun, hres⟩ := (Option.any_eq_true _ _).mp hres
  simp only [Bool.and_eq_true, Option.any_eq_true, decide_eq_true_eq] at hres
  obtain ⟨⟨⟨v, hv, ⟨hstate, hvcpus⟩, hmem⟩, hrunning⟩, ⟨r, h₁⟩, hstart, hr⟩ := hres
  cases r with
  | error e => cases hr
  | ok p =>
    cases hr
    exact ⟨h, v, h₁, hrun, hv, hstate, hvcpus, hrunning, hmem, hstart⟩

theorem no_update_lost_two_pages : ∃ h v h₁ g h₂ s r copied h₃, h.vms 16384 = some v ∧
      (migrationStart (some 16384) (some {})).run h = some (.ok 196608, h₁) ∧
      (migrationRun 196608 [.write 1, .precopy, .write 0] ⟨fun _ => 0, fun _ => none⟩).run h₁ =
        some (g, h₂) ∧ h₂.sessions 196608 = some s ∧ s.totalPages = 2 ∧
      (migrationStopAndCopy (some 196608)).run h₂ = some ((r, copied), h₃) ∧
      ∀ i < s.totalPages, (g.copy copied).sent i = some ((g.copy copied).version i) := by
  obtain ⟨h, v, h₁, -, hv, -, -, -, hmem, hstart⟩ := migration_start_two_pages
  obtain ⟨g, h₂, s, r, copied, h₃, hrun, hs, htotal, -, hstop, hsent⟩ :=
    no_update_lost hv hstart [.write 1, .precopy, .write 0] ⟨fun _ => 0, fun _ => none⟩
  rw [hmem] at htotal
  exact ⟨h, v, h₁, g, h₂, s, r, copied, h₃, hv, hstart, hrun, hs, htotal, hstop, hsent⟩

/-- **When the guest is stopped.** After `migration_start` on a VM in any state and every sequence
of precopy and tracking calls, no vCPU of the VM runs at any moment of the page loop of
`migration_stop_and_copy` just if none ran in the first place: the VM is migrating then, and
`vm_pause` refuses it. -/
theorem stop_and_copy_stops_iff (hv : h.vms a = some v) {config : MigrationConfig}
    (hstart : (migrationStart (some a) (some config)).run h = some (.ok p, h₁))
    (ops : List MigrationOp) (g₀ : Versions) : ∃ g h₂ h₃,
      (migrationRun p ops g₀).run h₁ = some (g, h₂) ∧ (stopGuest p).run h₂ = some ((), h₃) ∧
      ((∀ n copied h₄, (stopAndCopyPages p ((frames (v.memorySize / PAGE_SIZE)).take n)).run h₃ =
          some (copied, h₄) →
        ∀ c ∈ v.vcpus, ∀ u, h₄.vcpus c = some u → u.running = false) ↔
      ∀ c ∈ v.vcpus, ∀ u, h.vcpus c = some u → u.running = false) := by
  obtain ⟨g, h₂, s, hrun, hs, rfl, -, -, -, hvm, hvcpus⟩ := migration_run hv hstart ops g₀
  obtain ⟨⟨⟩, _, hstop, rfl⟩ := stopGuest_spec hs hvm rfl
  refine ⟨g, h₂, _, hrun, hstop, ?_, ?_⟩
  · intro hloop c hc u hu
    refine hloop 0 [] _ rfl c hc u ?_
    rw [Host.setSession_vcpus, hvcpus]
    exact hu
  · intro hnone n copied h₄ hpages c hc u hu
    obtain ⟨-, rfl⟩ := wp_run (stopAndCopyPages_spec (h := h₂.setSession p _)
      (Function.update_self _ _ _) _) hpages
    rw [Host.setSession_vcpus, Host.setSession_vcpus, hvcpus] at hu
    exact hnone c hc u hu

/-- A VM that has not been started: its vCPU does not run while its pages are copied. -/
theorem stop_and_copy_stops_iff_two_pages : ∃ h v h₁ g h₂ h₃,
      (runOps HvOp.run [.create { vcpuCount := 1, memorySize := 8192 }]).run (bootHost 1 .intel) =
        some ((), h) ∧ h.vms 16384 = some v ∧ v.vcpus = [81920] ∧
      (migrationStart (some 16384) (some {})).run h = some (.ok 180224, h₁) ∧
      (migrationRun 180224 [.precopy] ⟨fun _ => 0, fun _ => none⟩).run h₁ = some (g, h₂) ∧
      (stopGuest 180224).run h₂ = some ((), h₃) ∧
      ∀ n copied h₄, (stopAndCopyPages 180224 ((frames (v.memorySize / PAGE_SIZE)).take n)).run h₃ =
          some (copied, h₄) → ∀ c ∈ v.vcpus, ∀ u, h₄.vcpus c = some u → u.running = false := by
  have hres : ((runOps HvOp.run [.create { vcpuCount := 1, memorySize := 8192 }]).run
      (bootHost 1 .intel)).any (fun p => (p.2.vms 16384).any (fun v => v.vcpus = [81920]) &&
        (p.2.vcpus 81920).map Nexusvcpu.running = some false &&
        ((migrationStart (some 16384) (some {})).run p.2).any fun q =>
          q.1.toOption = some 180224) = true := by decide +kernel
  obtain ⟨⟨⟨⟩, h⟩, hcreate, hres⟩ := (Option.any_eq_true _ _).mp hres
  simp only [Bool.and_eq_true, Option.any_eq_true, decide_eq_true_eq] at hres
  obtain ⟨⟨⟨v, hv, hvcpus⟩, hrunning⟩, ⟨r, h₁⟩, hstart, hr⟩ := hres
  obtain rfl : r = .ok 180224 := by
    cases r <;> cases hr
    rfl
  obtain ⟨g, h₂, h₃, hrun, hstop, hiff⟩ :=
    stop_and_copy_stops_iff hv hstart [.precopy] ⟨fun _ => 0, fun _ => none⟩
  refine ⟨h, v, h₁, g, h₂, h₃, hcreate, hv, hvcpus, hstart, hrun, hstop, hiff.mpr fun c hc u hu => ?_⟩
  rw [hvcpus, List.mem_singleton] at hc
  rw [hc] at hu
  rw [hu] at hrunning
  exact Option.some.inj hrunning

/-- **The guest is not stopped.** A VM that runs is migrated; its vCPU still runs in the page loop
of `migration_stop_and_copy`. -/
theorem stop_and_copy_leaves_guest_running : ∃ h v h₁ g h₂ h₃ u, (runOps HvOp.run
      [.create { vcpuCount := 1, memorySize := 8192 }, .lifecycle .start 16384]).run
        (bootHost 1 .intel) = some ((), h) ∧
      h.vms 16384 = some v ∧ v.state = .running ∧
      (migrationStart (some 16384) (some {})).run h = some (.ok 196608, h₁) ∧
      (migrationRun 196608 [.precopy] ⟨fun _ => 0, fun _ => none⟩).run h₁ = some (g, h₂) ∧
      (stopGuest 196608).run h₂ = some ((), h₃) ∧
      (stopAndCopyPages 196608 ((frames (v.memorySize / PAGE_SIZE)).take 0)).run h₃ = some ([], h₃) ∧
      81920 ∈ v.vcpus ∧ h₃.vcpus 81920 = some u ∧ u.running = true := by
  obtain ⟨h, v, h₁, hrun, hv, hstate, hvcpus, hrunning, -, hstart⟩ := migration_start_two_pages
  obtain ⟨g, h₂, s, hops, hs, hsvm, -, -, -, hvm, hold⟩ :=
    migration_run hv hstart [.precopy] ⟨fun _ => 0, fun _ => none⟩
  rw [← hsvm] at hvm
  obtain ⟨⟨⟩, _, hstop, rfl⟩ := stopGuest_spec hs hvm rfl
  obtain ⟨u, hu, hur⟩ := Option.map_eq_some_iff.mp hrunning
  refine ⟨h, v, h₁, g, h₂, _, u, hrun, hv, hstate, hstart, hops, hstop, rfl, ?_, ?_, hur⟩
  · rw [hvcpus]
    exact List.mem_singleton_self _
  · rw [Host.setSession_vcpus, hold]
    exact hu

end NexusVM
