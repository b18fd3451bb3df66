import NexusVM.Lib.Bitmap
import NexusVM.Vm

/-!
# Live migration

The functions of `migration/migration.c` on the source side. No page is copied by them: where the
source says that a page would be copied, the model reports its frame. The lock of a session
protects straight-line code and is not modelled.

* `migrationStart`, `migrationTrackDirtyPage`: a session, with every page dirty, and its bitmap;
* `migrationComplete`, `migrationCancel`: its two ends, whatever its phase;
* `precopyPages`, `migrationPrecopy`: a round, which clears the bits of at most 10000 pages;
* `stopGuest`, `stopAndCopyPages`, `migrationStopAndCopy`: the last round.
-/

namespace NexusVM

/-! ## Sessions -/

/-- The values of a loop variable that runs from 0 up to `n`. -/
def frames (n : UInt64) : List UInt64 := (List.range n.toNat).map UInt64.ofNat

/-- `migration_start` -/
def migrationStart (vm : Option Addr) (config : Option MigrationConfig) :
    HostM (Except Result Addr) := do
  match vm, config with
  | some a, some config =>
    match ← calloc .session 1 sizeofMigrationSession with
    | none => return .error .errNoMemory
    | some p =>
      let v ← getVm a
      let totalPages := v.memorySize / PAGE_SIZE
      match ← calloc .dirtyPages ((totalPages + 63) / 64).toNat 8 with
      | none =>
        freeBuffer .session (some p)
        return .error .errNoMemory
      | some dirtyTable =>
        putSession p {
          vm := a
          config := config
          state := .initiated
          isSource := true
          totalPages := totalPages
          dirtyTable := some dirtyTable
          dirtyPages := Bitmap.setAll (List.replicate ((totalPages + 63) / 64).toNat 0) totalPages.toNat
          dirtyPageCount := totalPages }
        putVm a { ← getVm a with state := .migrating }
        return .ok p
  | _, _ => return .error .errInvalidParam

/-- `free` of a session -/
def freeSession (p : Addr) : HostM Unit := do
  onMem (freeBlock .session p)
  modify fun h => h.setSession p none

/-- The end of a migration for its VM: it runs again if it is still migrating. -/
def resumeMigrating (vm : Addr) : HostM Unit := do
  let v ← getVm vm
  Prog.when (v.state = .migrating) (putVm vm { v with state := .running })

/-- `migration_complete` -/
def migrationComplete (session : Option Addr) : HostM Result := do
  match session with
  | none => return .errInvalidParam
  | some p =>
    let s ← getSession p
    putSession p { s with state := .completed }
    resumeMigrating s.vm
    freeBuffer .dirtyPages s.dirtyTable
    freeSession p
    return .ok

/-- `migration_disconnect`, a stub. -/
def migrationDisconnect (_connection : Option Addr) : HostM Unit := return ()

/-- `migration_cancel` -/
def migrationCancel (session : Option Addr) : HostM Result := do
  match session with
  | none => return .errInvalidParam
  | some p =>
    let s ← getSession p
    putSession p { s with state := .cancelled }
    resumeMigrating s.vm
    Prog.when s.connection.isSome (migrationDisconnect s.connection)
    freeBuffer .dirtyPages s.dirtyTable
    freeSession p
    return .ok

/-- What `migration_track_dirty_page` does to a session. -/
def MigrationSession.trackDirtyPage (s : MigrationSession) (pageFrame : UInt64) : MigrationSession :=
  if pageFrame ≥ s.totalPages then s
  else if Bitmap.test s.dirtyPages pageFrame then s
  else { s with
    dirtyPages := Bitmap.set s.dirtyPages pageFrame
    dirtyPageCount := s.dirtyPageCount + 1 }

/-- `migration_track_dirty_page` -/
def migrationTrackDirtyPage (session : Option Addr) (pageFrame : UInt64) : HostM Unit := do
  match session with
  | none => return ()
  | some p => putSession p ((← getSession p).trackDirtyPage pageFrame)

/-! ## Rounds -/

/-- The page loop of `migration_precopy`: the session after it, and the frames that it copies. -/
def precopyPages : List UInt64 → UInt64 → MigrationSession → MigrationSession × List UInt64
  | [], _, s => (s, [])
  | i :: is, pagesThisIteration, s =>
    if pagesThisIteration < 10000 then
      if Bitmap.test s.dirtyPages i then
        let (s, copied) := precopyPages is (pagesThisIteration + 1) { s with
          dirtyPages := Bitmap.clear s.dirtyPages i
          transferredPages := s.transferredPages + 1
          dirtyPageCount := s.dirtyPageCount - 1 }
        (s, i :: copied)
      else precopyPages is pagesThisIteration s
    else (s, [])

/-- What `migration_precopy` does to a session, and the frames that it copies. -/
def MigrationSession.precopy (s : MigrationSession) : MigrationSession × List UInt64 :=
  let (s, copied) := precopyPages (frames s.totalPages) 0 { s with state := .precopy }
  let s := { s with iteration := s.iteration + 1 }
  let s := { s with stats := { s.stats with
    dirtyPages := s.dirtyPageCount
    transferredPages := s.transferredPages
    remainingPages := s.dirtyPageCount } }
  if s.dirtyPageCount < 100 ∨ s.iteration > s.config.maxConvergenceIterations.toUInt64 then
    ({ s with state := .stopAndCopy }, copied)
  else (s, copied)

/-- `migration_precopy`, with the frames that it copies. -/
def migrationPrecopy (session : Option Addr) : HostM (Result × List UInt64) := do
  match session with
  | none => return (.errInvalidParam, [])
  | some p =>
    let (s, copied) := (← getSession p).precopy
    putSession p s
    return (.ok, copied)

/-- What `migration_stop_and_copy` does before its page loop. -/
def stopGuest (p : Addr) : HostM Unit := do
  let s ← getSession p
  putSession p { s with state := .stopAndCopy }
  discard (vmPause (some s.vm))

/-- The page loop of `migration_stop_and_copy`, with the frames that it copies. -/
def stopAndCopyPages (p : Addr) : List UInt64 → HostM (List UInt64)
  | [] => return []
  | i :: is => do
    let s ← getSession p
    if Bitmap.test s.dirtyPages i then
      putSession p { s with transferredPages := s.transferredPages + 1 }
      let copied ← stopAndCopyPages p is
      return i :: copied
    else stopAndCopyPages p is

/-- `migration_send`, a stub: whether it takes so many bytes. -/
def migrationSend (size : UInt64) : Result := if size = 0 then .errInvalidParam else .ok

/-- `migration_serialize_vm_state`: the buffer and its size, or an error. -/
def migrationSerializeVmState (vm : Addr) : HostM (Except Result (Addr × UInt64)) := do
  let v ← getVm vm
  let stateSize := sizeofVmConfig + sizeofCpuState * v.vcpuCount.toNat +
    sizeofSchedEntity * v.vcpuCount.toNat
  match ← onMem (alignedAlloc .stateBuffer 16 stateSize) with
  | none => return .error .errNoMemory
  | some buffer =>
    -- the state of each vCPU is read
    Prog.forEach (fun c => discard (getVcpu c)) v.vcpus
    return .ok (buffer, UInt64.ofNat stateSize)

/-- `migration_send_vm_state` -/
def migrationSendVmState (connection vm : Option Addr) : HostM Result := do
  match connection, vm with
  | some _, some a =>
    match ← migrationSerializeVmState a with
    | .error result => return result
    | .ok (buffer, size) =>
      -- the header before it is not empty, so it is never refused
      let result := migrationSend size
      freeBuffer .stateBuffer (some buffer)
      return result
  | _, _ => return .errInvalidParam

/-- `migration_stop_and_copy`, with the frames that it copies. -/
def migrationStopAndCopy (session : Option Addr) : HostM (Result × List UInt64) := do
  match session with
  | none => return (.errInvalidParam, [])
  | some p =>
    stopGuest p
    let s ← getSession p
    let copied ← stopAndCopyPages p (frames s.totalPages)
    let s ← getSession p
    let result ← migrationSendVmState s.connection (some s.vm)
    if result ≠ .ok then return (result, copied)
    putSession p { ← getSession p with state := .transfer }
    return (.ok, copied)

end NexusVM
