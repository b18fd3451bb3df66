import NexusVM.Lib.Purge
import NexusVM.MigrationRuns

/-!
# The order of the calls of a migration

* `MigrationCall`: all calls on migration sessions, with what they return;
* `Unconnected`: no session has a connection; kept by every call;
* `CompletesAfterCopy`: a session is completed only after its last round was a success;
* **`completes_after_copy_iff`**: of the runs from the start on, the ones that complete none.
-/

namespace NexusVM

open Prog

variable {h : Host} {a p : Addr} {s : MigrationSession}

/-- A call on migration sessions. -/
inductive MigrationCall
  | start (vm : Option Addr) (config : Option MigrationConfig)
  | precopy (session : Option Addr)
  | trackDirtyPage (session : Option Addr) (pageFrame : UInt64)
  | stopAndCopy (session : Option Addr)
  | complete (session : Option Addr)
  | cancel (session : Option Addr)

/-- What a call returns: its result, if it has one, and the session that it starts. -/
structure MigrationCall.Outcome where
  result : Option Result := none
  session : Option Addr := none
deriving DecidableEq

def MigrationCall.run : MigrationCall → HostM Outcome
  | .start vm config => do
    match ← migrationStart vm config with
    | .error result => return { result := some result }
    | .ok session => return { result := some .ok, session := some session }
  | .precopy session => do return { result := some (← migrationPrecopy session).1 }
  | .trackDirtyPage session pageFrame => do
    migrationTrackDirtyPage session pageFrame
    return {}
  | .stopAndCopy session => do return { result := some (← migrationStopAndCopy session).1 }
  | .complete session => do return { result := some (← migrationComplete session) }
  | .cancel session => do return { result := some (← migrationCancel session) }

/-- Whenever a session is completed, an earlier last round on it was a success, and since then no page
of it was tracked and no other session was started in its place. -/
def CompletesAfterCopy (calls : List MigrationCall) (outcomes : List MigrationCall.Outcome) : Prop :=
  ∀ (i : ℕ) (p : Addr), calls[i]? = some (MigrationCall.complete (some p)) →
    (outcomes[i]?.bind MigrationCall.Outcome.result) = some .ok →
    ∃ j : ℕ, j < i ∧ calls[j]? = some (MigrationCall.stopAndCopy (some p)) ∧
      (outcomes[j]?.bind MigrationCall.Outcome.result) = some .ok ∧
      ∀ k : ℕ, j < k → k < i → (∀ frame : UInt64, calls[k]? ≠ some (MigrationCall.trackDirtyPage (some p) frame)) ∧
        (outcomes[k]?.bind MigrationCall.Outcome.session) ≠ some p

/-! ## Sessions without connections -/

/-- No session has a connection. -/
def Unconnected (h : Host) : Prop := ∀ p s, h.sessions p = some s → s.connection = none

theorem Unconnected.setSession (hu : Unconnected h) (hs : s.connection = none) :
    Unconnected (h.setSession p (some s)) := by
  intro q t ht
  by_cases hq : q = p
  · subst hq
    rw [Host.setSession_sessions, Function.update_self] at ht
    cases ht
    exact hs
  · rw [Host.setSession_sessions, Function.update_of_ne hq] at ht
    exact hu q t ht

theorem Unconnected.endSession (hu : Unconnected h) : Unconnected (h.setSession p none) := by
  intro q t ht
  by_cases hq : q = p
  · subst hq
    rw [Host.setSession_sessions, Function.update_self] at ht
    cases ht
  · rw [Host.setSession_sessions, Function.update_of_ne hq] at ht
    exact hu q t ht

/-! ## Calls -/

theorem wlp_calloc_sessions {kind : BlockKind} {count size : ℕ} (hu : Unconnected h) :
    wlp (calloc kind count size) (fun _ h' => Unconnected h') h := by
  refine wlp_mono (calloc_spec _ _ _ _).wlp ?_
  rintro o _ ⟨m, rfl, -⟩
  exact hu

theorem wlp_freeBuffer_sessions {kind : BlockKind} {o : Option Addr} (hu : Unconnected h) :
    wlp (freeBuffer kind o) (fun _ h' => Unconnected h') h := by
  cases o with
  | none =>
    rw [freeBuffer, wlp_pure]
    exact hu
  | some a =>
    rw [freeBuffer, wlp_onMem, freeBlock, wlp_modify]
    exact hu

theorem wlp_freeSession (hu : Unconnected h) :
    wlp (freeSession p) (fun _ h' => Unconnected h') h := by
  rw [freeSession, wlp_bind, wlp_onMem, freeBlock, wlp_modify, wlp_modify]
  exact Unconnected.endSession (h := h.setMem _) hu

theorem wlp_resumeMigrating (hu : Unconnected h) :
    wlp (resumeMigrating a) (fun _ h' => Unconnected h') h := by
  rw [resumeMigrating, wlp_bind, wlp_getVm]
  intro v hv
  refine wlp_ite (fun _ => ?_) fun _ => ?_
  · rw [wlp_putVm]
    exact hu
  · rw [wlp_pure]
    exact hu

theorem wlp_vmPause (hu : Unconnected h) (vm : Option Addr) :
    wlp (vmPause vm) (fun _ h' => Unconnected h') h := by
  cases vm with
  | none =>
    rw [vmPause, wlp_pure]
    exact hu
  | some a =>
    rw [vmPause, wlp_bind, wlp_getVm]
    intro v hv
    refine wlp_ite (fun _ => ?_) fun _ => ?_
    · rw [wlp_pure]
      exact hu
    rw [wlp_bind]
    refine wlp_mono (wlp_forEach _ (fun _ h' => Unconnected h') _ ?_ hu) ?_
    · intro _ c _ h₁ _ hu₁
      rw [wlp_bind, wlp_getVcpu]
      intro u hc
      refine wlp_ite (fun _ => ?_) fun _ => ?_
      · rw [wlp_putVcpu]
        exact hu₁
      · rw [wlp_pure]
        exact hu₁
    · intro _ h₁ hu₁
      simp only [wlp_bind, wlp_getVm, wlp_putVm, wlp_pure]
      exact fun _ _ => hu₁

theorem wlp_stopAndCopyPages (hu : Unconnected h) (is : List UInt64) :
    wlp (stopAndCopyPages p is) (fun _ h' => Unconnected h') h := by
  induction is generalizing h with
  | nil =>
    rw [stopAndCopyPages, wlp_pure]
    exact hu
  | cons i is ih =>
    simp only [stopAndCopyPages, wlp_bind, wlp_getSession]
    intro s hs
    refine wlp_ite (fun _ => ?_) fun _ => ih hu
    simp only [wlp_bind, wlp_putSession, wlp_pure]
    exact ih (hu.setSession (hu p s hs))

/-- **The last round is never a success**: the state of the VM is sent through no connection. -/
theorem migrationStopAndCopy_fails (hu : Unconnected h) (session : Option Addr) :
    wlp (migrationStopAndCopy session) (fun r h' => r.1 ≠ .ok ∧ Unconnected h') h := by
  cases session with
  | none =>
    rw [migrationStopAndCopy, wlp_pure]
    exact ⟨by simp, hu⟩
  | some p =>
    simp only [migrationStopAndCopy, stopGuest, wlp_bind, wlp_getSession, wlp_putSession, wlp_discard]
    intro s hs
    refine wlp_mono (wlp_vmPause (hu.setSession ?_) _) ?_
    · exact hu p s hs
    intro _ h₁ hu₁ s₁ hs₁
    refine wlp_mono (wlp_stopAndCopyPages hu₁ _) ?_
    intro copied h₂ hu₂ s₂ hs₂
    simp only [hu₂ p s₂ hs₂, migrationSendVmState, wlp_pure]
    refine wlp_ite (fun _ => ?_) fun hok => absurd (by decide) hok
    rw [wlp_pure]
    exact ⟨by simp, hu₂⟩

theorem migrationStart_unconnected (hu : Unconnected h) (vm : Option Addr) (config : Option MigrationConfig) :
    wlp (migrationStart vm config) (fun _ h' => Unconnected h') h := by
  cases vm with
  | none =>
    simp only [migrationStart, wlp_pure]
    exact hu
  | some a =>
  cases config with
  | none =>
    simp only [migrationStart, wlp_pure]
    exact hu
  | some config =>
  simp only [migrationStart, wlp_bind]
  refine wlp_mono (wlp_calloc_sessions hu) ?_
  rintro (- | p) h₁ hu₁
  · rwa [wlp_pure]
  simp only [wlp_bind, wlp_getVm]
  intro v hv
  refine wlp_mono (wlp_calloc_sessions hu₁) ?_
  rintro (- | d) h₂ hu₂
  · rw [wlp_bind]
    refine wlp_mono (wlp_freeBuffer_sessions hu₂) fun _ h₃ hu₃ => ?_
    rwa [wlp_pure]
  · simp only [wlp_bind, wlp_putSession, wlp_getVm, wlp_putVm, wlp_pure]
    exact fun _ _ => hu₂.setSession rfl

theorem migrationPrecopy_unconnected (hu : Unconnected h) (session : Option Addr) :
    wlp (migrationPrecopy session) (fun _ h' => Unconnected h') h := by
  cases session with
  | none =>
    simp only [migrationPrecopy, wlp_pure]
    exact hu
  | some p =>
    simp only [migrationPrecopy, wlp_bind, wlp_getSession, wlp_putSession, wlp_pure]
    exact fun s hs => hu.setSession ((precopy_same s).connection.trans (hu p s hs))

theorem migrationTrackDirtyPage_unconnected (hu : Unconnected h) (session : Option Addr) (pageFrame : UInt64) :
    wlp (migrationTrackDirtyPage session pageFrame) (fun _ h' => Unconnected h') h := by
  cases session with
  | none =>
    simp only [migrationTrackDirtyPage, wlp_pure]
    exact hu
  | some p =>
    simp only [migrationTrackDirtyPage, wlp_bind, wlp_getSession, wlp_putSession]
    exact fun s hs => hu.setSession ((trackDirtyPage_same s pageFrame).connection.trans (hu p s hs))

theorem migrationComplete_unconnected (hu : Unconnected h) (session : Option Addr) :
    wlp (migrationComplete session) (fun r h' => (session.isSome → r = .ok) ∧ Unconnected h') h := by
  cases session with
  | none =>
    simp only [migrationComplete, wlp_pure]
    exact ⟨by simp, hu⟩
  | some p =>
    simp only [migrationComplete, wlp_bind, wlp_getSession, wlp_putSession, wlp_pure]
    intro s hs
    refine wlp_mono (wlp_resumeMigrating
      (hu.setSession (s := { s with state := .completed }) (hu p s hs))) fun _ h₁ hu₁ => ?_
    refine wlp_mono (wlp_freeBuffer_sessions hu₁) fun _ h₂ hu₂ => ?_
    exact wlp_mono (wlp_freeSession hu₂) fun _ h₃ hu₃ => ⟨fun _ => trivial, hu₃⟩

theorem migrationCancel_unconnected (hu : Unconnected h) (session : Option Addr) :
    wlp (migrationCancel session) (fun _ h' => Unconnected h') h := by
  cases session with
  | none =>
    simp only [migrationCancel, wlp_pure]
    exact hu
  | some p =>
    simp only [migrationCancel, wlp_bind, wlp_getSession, wlp_putSession, wlp_pure]
    intro s hs
    refine wlp_mono (wlp_resumeMigrating
      (hu.setSession (s := { s with state := .cancelled }) (hu p s hs))) fun _ h₁ hu₁ => ?_
    refine wlp_mono (Q := fun _ h' => Unconnected h') (wlp_ite (fun _ => (wlp_pure _).mpr hu₁)
      fun _ => (wlp_pure _).mpr hu₁) fun _ h₂ hu₂ => ?_
    refine wlp_mono (wlp_freeBuffer_sessions hu₂) fun _ h₃ hu₃ => ?_
    exact wlp_freeSession hu₃

/-- **What every call keeps**, and that it is no successful last round. -/
theorem migrationCall_spec (call : MigrationCall) (h : Host) (hu : Unconnected h) :
    wlp call.run (fun r h' => ((∀ session, call = .complete session → session.isSome →
        r.result = some .ok) ∧ ∀ session, call = .stopAndCopy session → r.result ≠ some .ok) ∧
      Unconnected h') h := by
  cases call with
  | start vm config =>
    simp only [MigrationCall.run, wlp_bind]
    refine wlp_mono (migrationStart_unconnected hu vm config) fun r h' hu' => ?_
    cases r with
    | error result =>
      rw [wlp_pure]
      exact ⟨⟨by simp, by simp⟩, hu'⟩
    | ok session =>
      rw [wlp_pure]
      exact ⟨⟨by simp, by simp⟩, hu'⟩
  | precopy session =>
    simp only [MigrationCall.run, wlp_bind, wlp_pure]
    exact wlp_mono (migrationPrecopy_unconnected hu session) fun _ _ hu' => ⟨⟨by simp, by simp⟩, hu'⟩
  | trackDirtyPage session pageFrame =>
    simp only [MigrationCall.run, wlp_bind, wlp_pure]
    exact wlp_mono (migrationTrackDirtyPage_unconnected hu session pageFrame)
      fun _ _ hu' => ⟨⟨by simp, by simp⟩, hu'⟩
  | stopAndCopy session =>
    simp only [MigrationCall.run, wlp_bind]
    refine wlp_mono (migrationStopAndCopy_fails hu session) fun r h' hr => ?_
    rw [wlp_pure]
    exact ⟨⟨by simp, fun _ _ hok => hr.1 (Option.some.inj hok)⟩, hr.2⟩
  | complete session =>
    simp only [MigrationCall.run, wlp_bind, wlp_pure]
    refine wlp_mono (migrationComplete_unconnected hu session) fun r h' hr => ⟨⟨?_, by simp⟩, hr.2⟩
    rintro _ ⟨⟩ hsome
    exact congrArg some (hr.1 hsome)
  | cancel session =>
    simp only [MigrationCall.run, wlp_bind, wlp_pure]
    exact wlp_mono (migrationCancel_unconnected hu session) fun _ _ hu' => ⟨⟨by simp, by simp⟩, hu'⟩

/-! ## Runs -/

/-- **When a migration is completed after its last round.** In every run of calls that returns, from
a state without sessions on, `migration_complete` is preceded as it should be just if it is never
called on a session: it asks for no phase, and no call of `migration_stop_and_copy` is a success. -/
theorem completes_after_copy_iff (hnone : ∀ p, h.sessions p = none) {calls : List MigrationCall}
    {outcomes : List MigrationCall.Outcome} {h' : Host}
    (hrun : (traceOps MigrationCall.run calls).run h = some (outcomes, h')) :
    CompletesAfterCopy calls outcomes ↔ ∀ p, MigrationCall.complete (some p) ∉ calls := by
  have hu : Unconnected h := fun p s hs => by
    rw [hnone p] at hs
    cases hs
  have hall := wlp_traceOps_forall₂ migrationCall_spec hu outcomes h' hrun
  have hlen := hall.length_eq
  have hget : ∀ (i : ℕ) (call : MigrationCall), calls[i]? = some call →
      ∃ r : MigrationCall.Outcome, outcomes[i]? = some r ∧
        (∀ session : Option Addr, call = MigrationCall.complete session → session.isSome →
          r.result = some Result.ok) ∧
        ∀ session : Option Addr, call = MigrationCall.stopAndCopy session →
          r.result ≠ some Result.ok := by
    intro i call hi
    obtain ⟨hlt, rfl⟩ := List.getElem?_eq_some_iff.mp hi
    refine ⟨outcomes.get ⟨i, hlen ▸ hlt⟩, List.getElem?_eq_getElem _, ?_⟩
    exact hall.get hlt (hlen ▸ hlt)
  constructor
  · intro hafter p hmem
    obtain ⟨i, hi⟩ := List.mem_iff_getElem?.mp hmem
    obtain ⟨r, hr, hok, -⟩ := hget i _ hi
    obtain ⟨j, -, hj, hjok, -⟩ := hafter i p hi (by
      rw [hr]
      exact hok _ rfl rfl)
    obtain ⟨r', hr', -, hfail⟩ := hget j _ hj
    rw [hr'] at hjok
    exact hfail _ rfl hjok
  · intro hno i p hi
    exact absurd (List.mem_of_getElem? hi) (hno p)

/-- A migration that runs through all its rounds and is then completed. -/
theorem completes_after_copy_iff_all_rounds : ∃ outcomes h',
      (traceOps MigrationCall.run [.start (some 8192) (some {}), .precopy (some 16384),
        .stopAndCopy (some 16384), .complete (some 16384)]).run
          ((bootHost 1 .intel).setVm 8192 (some { memorySize := 8192 })) = some (outcomes, h') ∧
      ¬ CompletesAfterCopy [.start (some 8192) (some {}), .precopy (some 16384),
        .stopAndCopy (some 16384), .complete (some 16384)] outcomes := by
  have hres : ((traceOps MigrationCall.run [.start (some 8192) (some {}), .precopy (some 16384),
      .stopAndCopy (some 16384), .complete (some 16384)]).run
        ((bootHost 1 .intel).setVm 8192 (some { memorySize := 8192 }))).isSome = true := by
    decide +kernel
  obtain ⟨⟨outcomes, h'⟩, hrun⟩ := Option.isSome_iff_exists.mp hres
  refine ⟨outcomes, h', hrun, fun hafter => ?_⟩
  exact (completes_after_copy_iff (fun _ => rfl) hrun).mp hafter 16384 (by simp)

/-- **A migration is completed at once.** Nothing was copied, both pages are dirty, and the call of
`migration_complete` returns `NEXUSVM_OK`. -/
theorem complete_before_copy : ∃ h h₁ s h', (runOps HvOp.run
      [.create { vcpuCount := 1, memorySize := 8192 }, .lifecycle .start 16384]).run
        (bootHost 1 .intel) = some ((), h) ∧
      (traceOps MigrationCall.run [.start (some 16384) (some {})]).run h =
        some ([⟨some .ok, some 196608⟩], h₁) ∧
      h₁.sessions 196608 = some s ∧ s.dirtyPageCount = 2 ∧ s.transferredPages = 0 ∧
      (traceOps MigrationCall.run [.start (some 16384) (some {}), .complete (some 196608)]).run h =
        some ([⟨some .ok, some 196608⟩, ⟨some .ok, none⟩], h') ∧
      ¬ CompletesAfterCopy [.start (some 16384) (some {}), .complete (some 196608)]
        [⟨some .ok, some 196608⟩, ⟨some .ok, none⟩] := by
  have hres : ((runOps HvOp.run [.create { vcpuCount := 1, memorySize := 8192 },
      .lifecycle .start 16384]).run (bootHost 1 .intel)).any (fun p =>
        ((traceOps MigrationCall.run [.start (some 16384) (some {})]).run p.2).any (fun q =>
          q.1 = [⟨some .ok, some 196608⟩] && (q.2.sessions 196608).any fun s =>
            s.dirtyPageCount = 2 && s.transferredPages = 0) &&
        ((traceOps MigrationCall.run [.start (some 16384) (some {}), .complete (some 196608)]).run
          p.2).any fun q => q.1 = [⟨some .ok, some 196608⟩, ⟨some .ok, none⟩]) = true := by
    decide +kernel
  obtain ⟨⟨⟨⟩, h⟩, hrun, hres⟩ := (Option.any_eq_true _ _).mp hres
  simp only [Bool.and_eq_true, Option.any_eq_true, decide_eq_true_eq] at hres
  obtain ⟨⟨⟨r₁, h₁⟩, hstart, hr₁, s, hs, hcount, hcopied⟩, ⟨r, h'⟩, hcomplete, hr⟩ := hres
  cases hr₁
  cases hr
  refine ⟨h, h₁, s, h', hrun, hstart, hs, hcount, hcopied, hcomplete, fun hafter => ?_⟩
  obtain ⟨j, hj, hcopy, -⟩ := hafter 1 196608 rfl rfl
  obtain rfl : j = 0 := by omega
  cases hcopy

end NexusVM
