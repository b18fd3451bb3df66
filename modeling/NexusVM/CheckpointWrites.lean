import NexusVM.Lib.Logged
import NexusVM.CheckpointRestore

/-!
# Which checkpoints succeed

The result of `checkpoint_create` and what has been written, whatever the answers to its calls are.

* `checkpointCreateLogged`, `checkpointCreateLogged_erases`: the writer, with a log of its writes;
* `stateWrites`, `deviceWrites`, `regionWrites`, `checkpointWrites`: the writes of each section;
* `Completes`: the answers with which `checkpoint_create` succeeds;
* `checkpointCreateLogged_spec`, `checkpointCreate_outcome`: its result and its log;
* **`checkpoint_create_reports_iff`**: when a success means that everything was written;
* **`snapshot_keeps_lifecycle_iff`**: when a snapshot leaves the VM in the state it was in.
-/

namespace NexusVM

open Prog Stdio

variable {h h' : Host} {a : Addr} {v : Nexusvm} {f : ℕ} {path : String} {timestamp : UInt64}

/-! ## The writer with a log -/

/-- What was to be written, and whether it was. -/
abbrev WriteLog := List (List UInt8 × Result)

/-- A program with a log of writes. -/
abbrev LoggedM (α : Type) := Prog (Host × WriteLog) α

/-- `checkpointWrite` -/
def checkpointWriteLogged (f : ℕ) (data : List UInt8) : LoggedM Result := do
  let result ← lift (checkpointWrite f data)
  note (data, result)
  return result

/-- `writeVcpus` -/
def writeVcpusLogged (f : ℕ) : List Addr → LoggedM Result
  | [] => return .ok
  | c :: cs => do
    let u ← lift (getVcpu c)
    let result ← checkpointWriteLogged f (cpuStateCodec.encode u.cpuState)
    if result ≠ .ok then return result
    writeVcpusLogged f cs

/-- `writeState` -/
def writeStateLogged (f : ℕ) (v : Nexusvm) (timestamp : UInt64) : LoggedM Result := do
  let vmName ← lift (Prog.fetch fun _ => strncpy (List.replicate 64 0) v.name 63)
  let result ← checkpointWriteLogged f
    (checkpointHeaderCodec.encode (checkpointHeader v timestamp vmName))
  if result ≠ .ok then return result
  let result ← checkpointWriteLogged f (vmConfigCodec.encode v.config)
  if result ≠ .ok then return result
  writeVcpusLogged f v.vcpus

/-- `writeDevices` -/
def writeDevicesLogged (f : ℕ) (v : Nexusvm) : LoggedM Unit := do
  match ← lift (checkpointSaveDeviceState v) with
  | .error _ => return ()
  | .ok (buffer, data) =>
    let result ← checkpointWriteLogged f (Codec.u64.encode (UInt64.ofNat data.length))
    Prog.when (result = .ok) (discard (checkpointWriteLogged f data))
    lift (freeBuffer .deviceState (some buffer))

/-- `saveRegion` -/
def saveRegionLogged (vm : Addr) (f : ℕ) (region : MemoryRegion) : LoggedM Unit := do
  let _ ← checkpointWriteLogged f (regionRecordCodec.encode region.record)
  Prog.when (region.type = .ram ∧ region.size > 0) do
    let hostPhys ← lift (vmGpaToHpa (some vm) region.guestPhys)
    Prog.when (hostPhys ≠ INVALID_PHYS_ADDR) do
      let data ← lift (readRam hostPhys.toNat region.size.toNat)
      let _ ← checkpointWriteLogged f data

/-- `checkpointSaveMemory` -/
def checkpointSaveMemoryLogged (vm : Option Addr) (path : String) : LoggedM Result := do
  match vm with
  | none => return .errInvalidParam
  | some a =>
    match ← lift (onDisk (fopen path .append)) with
    | none => return .errGeneric
    | some f =>
      let v ← lift (getVm a)
      lift (Prog.require (v.memoryRegionCount.toNat ≤ v.memoryRegions.length))
      Prog.forEach (saveRegionLogged a f) (v.memoryRegions.take v.memoryRegionCount.toNat)
      lift (onDisk (fclose f))
      return .ok

/-- `checkpointCreate` -/
def checkpointCreateLogged (vm : Option Addr) (path : Option String) (timestamp : UInt64) :
    LoggedM Result := do
  match vm, path with
  | some a, some path =>
    match ← lift (onDisk (fopen path .write)) with
    | none => return .errGeneric
    | some f =>
      let v ← lift (getVm a)
      let result ← writeStateLogged f v timestamp
      if result ≠ .ok then
        lift (onDisk (fclose f))
        return result
      writeDevicesLogged f v
      let result ← checkpointSaveMemoryLogged (some a) path
      lift (onDisk (fclose f))
      return result
  | _, _ => return .errInvalidParam

theorem checkpointWriteLogged_erases (f : ℕ) (data : List UInt8) :
    Erases (checkpointWriteLogged f data) (checkpointWrite f data) := by
  have hlift : Erases (lift (checkpointWrite f data) : LoggedM Result) (checkpointWrite f data) := .lift _
  have h := hlift.bind fun result => .note_pure (data, result) result
  rwa [bind_pure] at h

theorem writeVcpusLogged_erases (f : ℕ) (cs : List Addr) :
    Erases (writeVcpusLogged f cs) (writeVcpus f cs) := by
  induction cs with
  | nil => exact .pure _
  | cons c cs ih =>
    exact (Erases.lift _).bind fun _ => (checkpointWriteLogged_erases _ _).bind fun _ =>
      (Erases.pure _).ite ih

theorem writeStateLogged_erases (f : ℕ) (v : Nexusvm) (timestamp : UInt64) :
    Erases (writeStateLogged f v timestamp) (writeState f v timestamp) :=
  (Erases.lift _).bind fun _ => (checkpointWriteLogged_erases _ _).bind fun _ =>
    (Erases.pure _).ite ((checkpointWriteLogged_erases _ _).bind fun _ =>
      (Erases.pure _).ite (writeVcpusLogged_erases _ _))

theorem writeDevicesLogged_erases (f : ℕ) (v : Nexusvm) :
    Erases (writeDevicesLogged f v) (writeDevices f v) := by
  refine (Erases.lift _).bind fun o => ?_
  rcases o with _ | ⟨buffer, data⟩
  · exact .pure _
  · exact (checkpointWriteLogged_erases _ _).bind fun _ =>
      (checkpointWriteLogged_erases _ _).discard.when.bind fun _ => .lift _

theorem saveRegionLogged_erases (vm : Addr) (f : ℕ) (region : MemoryRegion) :
    Erases (saveRegionLogged vm f region) (saveRegion vm f region) :=
  (checkpointWriteLogged_erases _ _).bind fun _ => ((Erases.lift _).bind fun _ =>
    ((Erases.lift _).bind fun _ => (checkpointWriteLogged_erases _ _).bind fun _ => .pure _).when).when

theorem checkpointSaveMemoryLogged_erases (vm : Option Addr) (path : String) :
    Erases (checkpointSaveMemoryLogged vm path) (checkpointSaveMemory vm path) := by
  cases vm with
  | none => exact .pure _
  | some a =>
    refine (Erases.lift _).bind fun o => ?_
    cases o with
    | none => exact .pure _
    | some f =>
      exact (Erases.lift _).bind fun v => (Erases.lift _).bind fun _ =>
        (Erases.forEach (saveRegionLogged_erases a f) _).bind fun _ => (Erases.lift _).bind fun _ =>
          .pure _

/-- **The writer with a log is the writer.** -/
theorem checkpointCreateLogged_erases (vm : Option Addr) (path : Option String) (timestamp : UInt64) :
    Erases (checkpointCreateLogged vm path timestamp) (checkpointCreate vm path timestamp) := by
  rcases vm with _ | a
  · exact .pure _
  · rcases path with _ | path
    · exact .pure _
    · refine (Erases.lift _).bind fun o => ?_
      cases o with
      | none => exact .pure _
      | some f =>
        exact (Erases.lift _).bind fun v => (writeStateLogged_erases f v timestamp).bind fun _ =>
          ((Erases.lift _).bind fun _ => .pure _).ite ((writeDevicesLogged_erases f v).bind fun _ =>
            (checkpointSaveMemoryLogged_erases _ _).bind fun _ => (Erases.lift _).bind fun _ => .pure _)

/-! ## The writes of each section -/

/-- What describes the devices. -/
def Nexusvm.deviceData (v : Nexusvm) : List UInt8 :=
  Codec.u32.encode v.assignedDeviceCount ++ pciConfigCodec.encodeList v.assignedDevices

/-- The header, the configuration and each vCPU. -/
def stateWrites (h : Host) (v : Nexusvm) (header : CheckpointHeader) : List (List UInt8) :=
  checkpointHeaderCodec.encode header :: vmConfigCodec.encode v.config ::
    (h.cpuStates v.vcpus).map cpuStateCodec.encode

/-- The size of the device section and what it holds. -/
def deviceWrites (v : Nexusvm) : List (List UInt8) :=
  [Codec.u64.encode (UInt64.ofNat v.deviceSize), v.deviceData]

/-- The record of a region, and what is in the region if it is mapped memory. -/
def regionWrites (h : Host) (a : Addr) (r : MemoryRegion) : List (List UInt8) :=
  regionRecordCodec.encode r.record :: if regionData h a r = [] then [] else [regionData h a r]

/-- Every write of every section. -/
def checkpointWrites (h : Host) (a : Addr) (v : Nexusvm) (header : CheckpointHeader) :
    List (List UInt8) :=
  stateWrites h v header ++ (deviceWrites v ++ v.regions.flatMap (regionWrites h a))

/-- A log of writes all of which were whole. -/
def allWritten (ws : List (List UInt8)) : WriteLog := ws.map fun w => (w, .ok)

/-- What the log says about these writes, made from call `k` on. -/
def writeOutcomes (d : Disk) : ℕ → List (List UInt8) → WriteLog
  | _, [] => []
  | k, w :: ws => (w, if w.length ≤ d.accepts k w.length then .ok else .errGeneric) ::
      writeOutcomes d (k + 1) ws

section Outcomes

variable {d d' : Disk} {k : ℕ} {ws : List (List UInt8)}

theorem length_writeOutcomes : (writeOutcomes d k ws).length = ws.length := by
  induction ws generalizing k with
  | nil => rfl
  | cons w ws ih => rw [writeOutcomes, List.length_cons, ih, List.length_cons]

theorem writeOutcomes_append {ws' : List (List UInt8)} : writeOutcomes d k (ws ++ ws') =
    writeOutcomes d k ws ++ writeOutcomes d (k + ws.length) ws' := by
  induction ws generalizing k with
  | nil => rfl
  | cons w ws ih =>
    rw [List.cons_append, writeOutcomes, writeOutcomes, ih, List.cons_append, List.length_cons,
      Nat.add_assoc, Nat.add_comm 1]

theorem writeOutcomes_congr (ha : d'.accepts = d.accepts) :
    writeOutcomes d' k ws = writeOutcomes d k ws := by
  induction ws generalizing k with
  | nil => rfl
  | cons w ws ih => rw [writeOutcomes, writeOutcomes, ha, ih]

theorem writeOutcomes_eq_iff : writeOutcomes d k ws = allWritten ws ↔
    d.AcceptsFrom k (ws.map List.length) := by
  induction ws generalizing k with
  | nil => exact iff_of_true rfl trivial
  | cons w ws ih =>
    rw [writeOutcomes, allWritten, List.map_cons, List.map_cons, Disk.AcceptsFrom, List.cons.injEq,
      Prod.mk.injEq, ← ih]
    refine and_congr ?_ Iff.rfl
    rw [and_iff_right rfl]
    by_cases hw : w.length ≤ d.accepts k w.length
    · exact iff_of_true (if_pos hw) hw
    · rw [if_neg hw]
      exact iff_of_false (by simp) hw

end Outcomes

/-! ## One write -/

/-- These writes were made, whatever their results, and nothing of the guest has changed. -/
structure Wrote (ws : List (List UInt8)) (s s' : Host × WriteLog) : Prop where
  log : s'.2 = s.2 ++ writeOutcomes s.1.disk s.1.disk.calls ws
  same : SameGuest s.1 s'.1
  after : s.1.disk.After ws.length s'.1.disk

variable {s s' s'' : Host × WriteLog}

theorem Wrote.nil (s : Host × WriteLog) : Wrote [] s s :=
  ⟨(List.append_nil _).symm, .refl _, .refl _⟩

theorem Wrote.append {ws ws' : List (List UInt8)} (hw : Wrote ws s s') (hw' : Wrote ws' s' s'') :
    Wrote (ws ++ ws') s s'' := by
  refine ⟨?_, hw.same.trans hw'.same, ?_⟩
  · rw [hw'.log, hw.log, hw.after.calls, writeOutcomes_congr hw.after.accepts, List.append_assoc,
      writeOutcomes_append]
  · rw [List.length_append]
    exact hw.after.trans hw'.after

/-- Writes that end with the first that is short: only the disk has changed, and a success means that
all of them were whole. -/
structure Writing (ws : List (List UInt8)) (r : Result) (s s' : Host × WriteLog) : Prop where
  rest : s'.1 = s.1.setDisk s'.1.disk
  ok_iff : r = .ok ↔ s.1.disk.AcceptsFrom s.1.disk.calls (ws.map List.length)
  wrote : r = .ok → Wrote ws s s'

variable {w : List UInt8} {ws : List (List UInt8)} {r r' : Result}

theorem Writing.stop (hw : Writing [w] r s s') (hr : r ≠ .ok) : Writing (w :: ws) r s s' := by
  refine ⟨hw.rest, iff_of_false hr fun hall => hr (hw.ok_iff.mpr ?_), fun hok => absurd hok hr⟩
  exact ⟨hall.1, trivial⟩

theorem Writing.cons (hw : Writing [w] .ok s s') (hw' : Writing ws r s' s'') :
    Writing (w :: ws) r s s'' := by
  have hfirst := hw.wrote rfl
  have hacc := hw.ok_iff.mp rfl
  refine ⟨?_, ?_, fun hr => hfirst.append (hw'.wrote hr)⟩
  · rw [hw'.rest, hw.rest]
    rfl
  · rw [hw'.ok_iff, hfirst.after.acceptsFrom, hfirst.after.calls, List.map_cons, Disk.AcceptsFrom]
    exact (and_iff_right hacc.1).symm

theorem checkpointWriteLogged_spec (data : List UInt8) :
    wlp (checkpointWriteLogged f data) (fun r s' => Wrote [data] s s' ∧ Writing [data] r s s') s := by
  obtain ⟨h, l⟩ := s
  rw [checkpointWriteLogged, wlp_bind, wlp_lift, checkpointWrite, wlp_bind, wlp_onDisk]
  refine wlp_mono (fwrite_after f data) ?_
  rintro n d ⟨hn, hafter⟩
  have hacc : h.disk.AcceptsFrom h.disk.calls [data.length] ↔
      data.length ≤ h.disk.accepts h.disk.calls data.length := and_iff_left trivial
  refine wlp_ite (fun hne => ?_) fun heq => ?_ <;> rw [wlp_pure, wlp_bind, wlp_note, wlp_pure]
  · have hshort := mt hn.mpr hne
    have hwrote : Wrote [data] (h, l) (h.setDisk d, l ++ [(data, .errGeneric)]) := by
      refine ⟨?_, SameGuest.setDisk h d, hafter⟩
      rw [writeOutcomes, writeOutcomes, if_neg hshort]
    exact ⟨hwrote, rfl, iff_of_false (by simp) (mt hacc.mp hshort), by simp⟩
  · have hwhole := hn.mp (not_not.mp heq)
    have hwrote : Wrote [data] (h, l) (h.setDisk d, l ++ [(data, .ok)]) := by
      refine ⟨?_, SameGuest.setDisk h d, hafter⟩
      rw [writeOutcomes, writeOutcomes, if_pos hwhole]
    exact ⟨hwrote, rfl, iff_of_true rfl (hacc.mpr hwhole), fun _ => hwrote⟩

/-- A relation between the states before and after writes to `f`. -/
structure WriteRel (f : ℕ) (W : List (List UInt8) → Host × WriteLog → Host × WriteLog → Prop) : Prop where
  nil : ∀ s, W [] s s
  append : ∀ {ws ws' s s' s''}, W ws s s' → W ws' s' s'' → W (ws ++ ws') s s''
  write : ∀ data s, wlp (checkpointWriteLogged f data) (fun _ s' => W [data] s s') s
  same : ∀ {ws s s'}, W ws s s' → SameGuest s.1 s'.1

theorem wrote_writeRel (f : ℕ) : WriteRel f Wrote where
  nil := Wrote.nil
  append := Wrote.append
  write data _ := wlp_mono (checkpointWriteLogged_spec data) fun _ _ hw => hw.1
  same := Wrote.same

/-! ## The header, the configuration and the vCPUs -/

theorem writeVcpusLogged_spec (cs : List Addr) :
    wlp (writeVcpusLogged f cs)
      (fun r s' => Writing ((s.1.cpuStates cs).map cpuStateCodec.encode) r s s') s := by
  induction cs generalizing s with
  | nil =>
    rw [writeVcpusLogged, wlp_pure]
    exact ⟨rfl, iff_of_true rfl trivial, fun _ => .nil s⟩
  | cons c cs ih =>
    obtain ⟨h, l⟩ := s
    rw [writeVcpusLogged, wlp_bind, wlp_lift, wlp_getVcpu]
    intro u hu
    rw [cpuStates_cons hu, List.map_cons, wlp_bind]
    refine wlp_mono (checkpointWriteLogged_spec _) ?_
    rintro r s₁ ⟨-, hw⟩
    refine wlp_ite (fun hr => ?_) fun hr => ?_
    · rw [wlp_pure]
      exact hw.stop hr
    · obtain rfl := not_not.mp hr
      refine wlp_mono ih fun r' s₂ hrest => ?_
      have hstates : s₁.1.cpuStates cs = h.cpuStates cs := by
        rw [hw.rest]
        rfl
      rw [hstates] at hrest
      exact hw.cons hrest

theorem writeStateLogged_spec :
    wlp (writeStateLogged f v timestamp) (fun r s' =>
      ∃ vmName, strncpy (List.replicate 64 0) v.name 63 = some vmName ∧
        Writing (stateWrites s.1 v (checkpointHeader v timestamp vmName)) r s s') s := by
  obtain ⟨h, l⟩ := s
  rw [writeStateLogged, wlp_bind, wlp_lift, wlp_fetch]
  intro vmName hname
  rw [wlp_bind]
  refine wlp_mono (checkpointWriteLogged_spec _) ?_
  rintro r s₁ ⟨-, hheader⟩
  refine wlp_ite (fun hr => ?_) fun hr => ?_
  · rw [wlp_pure]
    exact ⟨vmName, hname, hheader.stop hr⟩
  obtain rfl := not_not.mp hr
  rw [wlp_bind]
  refine wlp_mono (checkpointWriteLogged_spec _) ?_
  rintro r s₂ ⟨-, hconfig⟩
  refine wlp_ite (fun hr => ?_) fun hr => ?_
  · rw [wlp_pure]
    exact ⟨vmName, hname, hheader.cons (hconfig.stop hr)⟩
  obtain rfl := not_not.mp hr
  refine wlp_mono (writeVcpusLogged_spec _) fun r s₃ hvcpus => ?_
  have hstates : s₂.1.cpuStates v.vcpus = h.cpuStates v.vcpus := by
    rw [hconfig.rest, hheader.rest]
    rfl
  rw [hstates] at hvcpus
  exact ⟨vmName, hname, hheader.cons (hconfig.cons hvcpus)⟩

/-! ## The devices -/

/-- There is memory for the buffer. -/
def DeviceMemory (h : Host) (v : Nexusvm) : Prop := h.mem.heap.Serves .deviceState 16 v.deviceSize 1

instance : Decidable (DeviceMemory h v) :=
  inferInstanceAs (Decidable (h.mem.heap.Serves .deviceState 16 v.deviceSize 1))

/-- How many writes are tried for the devices, from call `k` on. -/
def deviceCalls (h : Host) (v : Nexusvm) (k : ℕ) : ℕ :=
  if DeviceMemory h v then if h.disk.AcceptsFrom k [Codec.u64.size] then 2 else 1 else 0

theorem checkpointSaveDeviceState_outcome :
    wlp (checkpointSaveDeviceState v) (fun o h' => match o with
      | .error _ => ¬ DeviceMemory h v ∧ h' = h.refuse
      | .ok (b, data) => DeviceMemory h v ∧ data = v.deviceData ∧ data.length = v.deviceSize ∧
        h' = h.grant ⟨.deviceState, b, v.deviceSize⟩) h := by
  rw [checkpointSaveDeviceState, wlp_bind]
  refine (wp_alignedAlloc_iff.mpr ⟨fun b hb hfits => ?_, fun hserves => ?_⟩).wlp
  · simp only [wlp_bind, wlp_require, wlp_pure]
    exact fun hlen => ⟨⟨b, hb, hfits, trivial⟩, rfl, length_deviceData hlen, rfl⟩
  · rw [wlp_pure]
    exact ⟨hserves, rfl⟩

/-- Nothing of the guest has changed since the buffer was taken, and it is given back. -/
theorem SameGuest.release {b : Addr} {n : ℕ} (hs : SameGuest (h.grant ⟨.deviceState, b, n⟩) h')
    (hheap : h'.mem.heap = (h.grant ⟨.deviceState, b, n⟩).mem.heap) :
    SameGuest h (h'.release .deviceState b) := by
  refine ⟨hs.vms, hs.vcpus, hs.tables, ?_, hs.ram, hs.abi⟩
  change (h'.mem.heap.release .deviceState b).live = _
  rw [hheap]
  exact release_grant_live h.mem.heap ⟨.deviceState, b, n⟩

/-- **The devices are written** just if there is memory for the buffer and neither write is short. -/
theorem writeDevicesLogged_spec :
    wlp (writeDevicesLogged f v) (fun _ s' => SameGuest s.1 s'.1 ∧
      s.1.disk.After (deviceCalls s.1 v s.1.disk.calls) s'.1.disk ∧
      ∃ log, s'.2 = s.2 ++ log ∧ (log = allWritten (deviceWrites v) ↔
        DeviceMemory s.1 v ∧ s.1.disk.AcceptsFrom s.1.disk.calls ((deviceWrites v).map List.length))) s := by
  obtain ⟨h, l⟩ := s
  rw [writeDevicesLogged, wlp_bind, wlp_lift]
  refine wlp_mono checkpointSaveDeviceState_outcome ?_
  rintro (result | ⟨b, data⟩) h₁ hres
  · obtain ⟨hmemory, rfl⟩ := hres
    rw [wlp_pure, deviceCalls, if_neg hmemory]
    exact ⟨⟨rfl, rfl, rfl, rfl, rfl, rfl⟩, .refl _, [], (List.append_nil _).symm,
      iff_of_false nofun fun hall => hmemory hall.1⟩
  · obtain ⟨hmemory, rfl, hlen, rfl⟩ := hres
    dsimp only
    rw [hlen, deviceCalls, if_pos hmemory, wlp_bind]
    generalize hg : h.grant ⟨.deviceState, b, v.deviceSize⟩ = g
    have hdisk : g.disk = h.disk := by
      rw [← hg]
      rfl
    refine wlp_mono (checkpointWriteLogged_spec _) ?_
    rintro r s₂ ⟨hsize, hsizing⟩
    have hok := hsizing.ok_iff
    rw [hdisk, List.map_singleton, Codec.length_encode] at hok
    rw [wlp_bind, wlp_when]
    refine ⟨fun hr => ?_, fun hr => ?_⟩
    · rw [wlp_discard]
      refine wlp_mono (checkpointWriteLogged_spec _) ?_
      rintro r' s₃ ⟨hdata, hwriting⟩
      have hboth := hsize.append hdata
      rw [wlp_lift]
      refine (wp_freeBuffer_some.mpr ?_).wlp
      refine ⟨?_, ?_, writeOutcomes h.disk h.disk.calls (deviceWrites v), ?_, ?_⟩
      · subst hg
        refine SameGuest.release hboth.same ?_
        rw [hwriting.rest, hsizing.rest]
        rfl
      · rw [if_pos (hok.mp hr), ← hdisk]
        exact hboth.after
      · rw [← hdisk]
        exact hboth.log
      · rw [writeOutcomes_eq_iff]
        exact (and_iff_right hmemory).symm
    · rw [wlp_lift]
      refine (wp_freeBuffer_some.mpr ?_).wlp
      have hshort := mt hok.mpr hr
      refine ⟨?_, ?_, writeOutcomes h.disk h.disk.calls [Codec.u64.encode (UInt64.ofNat v.deviceSize)],
        ?_, iff_of_false ?_ ?_⟩
      · subst hg
        refine SameGuest.release hsize.same ?_
        rw [hsizing.rest]
        rfl
      · rw [if_neg hshort, ← hdisk]
        exact hsize.after
      · rw [← hdisk]
        exact hsize.log
      · intro heq
        have hlength := congrArg List.length heq
        rw [length_writeOutcomes, allWritten, List.length_map] at hlength
        cases hlength
      · rw [deviceWrites, List.map_cons, Codec.length_encode]
        exact fun hall => hshort ⟨hall.2.1, trivial⟩

/-! ## The memory -/

theorem regionData_congr (hs : SameGuest h h') (a : Addr) (r : MemoryRegion) :
    regionData h' a r = regionData h a r := by
  simp only [regionData, translate_congr (hs.sameEpt a) (hs.symm.sameEpt a), Host.ramBytes, hs.ram]

theorem regionWrites_congr (hs : SameGuest h h') (a : Addr) (r : MemoryRegion) :
    regionWrites h' a r = regionWrites h a r := by
  simp only [regionWrites, regionData_congr hs]

section Regions

variable {W : List (List UInt8) → Host × WriteLog → Host × WriteLog → Prop} (hW : WriteRel f W)

include hW

/-- **A region is written**, as far as the answers allow. -/
theorem saveRegionLogged_writes (r : MemoryRegion) :
    wlp (saveRegionLogged a f r) (fun _ s' => W (regionWrites s.1 a r) s s') s := by
  rw [saveRegionLogged, wlp_bind]
  refine wlp_mono (hW.write _ _) fun _ s₁ hrecord => ?_
  -- in the state after the record the region is the same
  rw [regionWrites, ← regionData_congr (hW.same hrecord), wlp_when]
  refine ⟨fun hram => ?_, fun hram => ?_⟩
  · obtain ⟨h₁, l₁⟩ := s₁
    rw [wlp_bind, wlp_lift]
    intro hpa h₂ hrun
    obtain ⟨rfl, -⟩ := vmGpaToHpa_readsOnly a _ h₁ h₁ ((SameGuest.refl h₁).sameEpt a) hpa h₂ hrun
    have hdata : regionData h₂ a r = if hpa = INVALID_PHYS_ADDR then [] else
        h₂.ramBytes hpa.toNat r.size.toNat := by
      rw [regionData, if_pos hram, translate_of_run hrun]
      split_ifs <;> rfl
    rw [hdata, wlp_when]
    refine ⟨fun hvalid => ?_, fun hinvalid => ?_⟩
    · have hne : h₂.ramBytes hpa.toNat r.size.toNat ≠ [] := by
        rw [← List.length_pos_iff, length_ramBytes]
        exact UInt64.lt_iff_toNat_lt.mp hram.2
      rw [if_neg hvalid, if_neg hne, wlp_bind, wlp_lift, readRam, wlp_bind, wlp_get, wlp_pure, wlp_bind]
      refine wlp_mono (hW.write _ _) fun _ s₂ hcontent => ?_
      rw [wlp_pure]
      exact hW.append hrecord hcontent
    · rw [if_pos (not_not.mp hinvalid), if_pos rfl]
      exact hrecord
  · rw [regionData, if_neg hram, if_pos rfl]
    exact hrecord

/-- **All regions are written**, as far as the answers allow. -/
theorem saveRegionsLogged_writes (rs : List MemoryRegion) : wlp (forEach (saveRegionLogged a f) rs)
    (fun _ s' => W (rs.flatMap (regionWrites s.1 a)) s s') s := by
  refine wlp_forEach (saveRegionLogged a f) (fun pre s' => W (pre.flatMap (regionWrites s.1 a)) s s') rs
    (fun pre r post s₁ _ hI => ?_) (hW.nil s)
  rw [List.flatMap_append, List.flatMap_singleton]
  refine wlp_mono (saveRegionLogged_writes hW r) fun _ s₂ hregion => ?_
  rw [regionWrites_congr (hW.same hI)] at hregion
  exact hW.append hI hregion

end Regions

/-- **The regions are written**, as far as the answers allow, if the second stream is opened. -/
theorem checkpointSaveMemoryLogged_spec (hv : s.1.vms a = some v) :
    wlp (checkpointSaveMemoryLogged (some a) path) (fun r s' => SameGuest s.1 s'.1 ∧
      (r = .ok ↔ s.1.disk.opens s.1.disk.calls) ∧ (r = .ok → s'.2 = s.2 ++
        writeOutcomes s.1.disk (s.1.disk.calls + 1) (v.regions.flatMap (regionWrites s.1 a)))) s := by
  obtain ⟨h, l⟩ := s
  rw [checkpointSaveMemoryLogged, wlp_bind, wlp_lift, wlp_onDisk]
  refine wlp_mono (fopen_after path .append) ?_
  rintro o d ⟨hopens, hafter⟩
  have hopened := hopens nofun
  cases o with
  | none =>
    rw [wlp_pure]
    exact ⟨SameGuest.setDisk h d, iff_of_false nofun fun ho => absurd (hopened.mpr ho) (by simp), nofun⟩
  | some g =>
    rw [wlp_bind, wlp_lift, wlp_getVm]
    intro v' hv'
    obtain rfl : v = v' := Option.some.inj (hv.symm.trans hv')
    rw [wlp_bind, wlp_lift, wlp_require]
    intro _
    rw [wlp_bind]
    have hsame := SameGuest.setDisk h d
    refine wlp_mono (saveRegionsLogged_writes (wrote_writeRel g) v.regions) ?_
    rintro _ ⟨h₁, l₁⟩ hwrote
    rw [funext (regionWrites_congr hsame a)] at hwrote
    rw [wlp_bind, wlp_lift, wlp_onDisk]
    refine wlp_mono (fclose_after g) fun _ d₂ _ => ?_
    rw [wlp_pure]
    refine ⟨(hsame.trans hwrote.same).trans (SameGuest.setDisk h₁ d₂), iff_of_true rfl
      (hopened.mp rfl), fun _ => ?_⟩
    rw [hwrote.log]
    change l ++ writeOutcomes d d.calls _ = _
    rw [writeOutcomes_congr hafter.accepts, hafter.calls]

/-! ## The whole checkpoint -/

/-- How long the header, the configuration and the states of the vCPUs are. -/
def Nexusvm.stateSizes (v : Nexusvm) : List ℕ :=
  sizeofCheckpointHeader :: sizeofVmConfig :: List.replicate v.vcpus.length sizeofCpuState

/-- The number of the first call for the devices, if none before it fails. -/
def devicesAt (h : Host) (v : Nexusvm) : ℕ := h.disk.calls + 1 + v.stateSizes.length

/-- The answers with which `checkpoint_create` succeeds: the file can be opened, the header, the
configuration and the states of the vCPUs are accepted, and the file can be opened again. -/
structure Completes (h : Host) (v : Nexusvm) : Prop where
  opened : h.disk.opens h.disk.calls
  state : h.disk.AcceptsFrom (h.disk.calls + 1) v.stateSizes
  reopened : h.disk.opens (devicesAt h v + deviceCalls h v (devicesAt h v))

theorem completes_iff : Completes h v ↔ h.disk.opens h.disk.calls ∧
    h.disk.AcceptsFrom (h.disk.calls + 1) v.stateSizes ∧
      h.disk.opens (devicesAt h v + deviceCalls h v (devicesAt h v)) :=
  ⟨fun ⟨hf, hs, hg⟩ => ⟨hf, hs, hg⟩, fun ⟨hf, hs, hg⟩ => ⟨hf, hs, hg⟩⟩

instance : Decidable (Completes h v) := decidable_of_iff' _ completes_iff

/-- The answers with which the devices and the regions are written as well: there is memory for the
buffer, and the writes after the vCPUs are accepted. -/
def RestAccepted (h : Host) (a : Addr) (v : Nexusvm) : Prop :=
  DeviceMemory h v ∧ h.disk.AcceptsFrom (devicesAt h v) ((deviceWrites v).map List.length) ∧
    h.disk.AcceptsFrom (devicesAt h v + 3) ((v.regions.flatMap (regionWrites h a)).map List.length)

instance : Decidable (RestAccepted h a v) := inferInstanceAs (Decidable (_ ∧ _ ∧ _))

/-- The log says that every section was written. -/
def EverythingWritten (h : Host) (a : Addr) (v : Nexusvm) (timestamp : UInt64) (log : WriteLog) : Prop :=
  ∃ vmName, strncpy (List.replicate 64 0) v.name 63 = some vmName ∧
    log = allWritten (checkpointWrites h a v (checkpointHeader v timestamp vmName))

theorem map_length_stateWrites (h : Host) (v : Nexusvm) (header : CheckpointHeader) :
    (stateWrites h v header).map List.length = v.stateSizes := by
  rw [stateWrites, List.map_cons, List.map_cons, Codec.length_encode, Codec.length_encode, List.map_map,
    Nexusvm.stateSizes]
  refine congrArg (sizeofCheckpointHeader :: sizeofVmConfig :: ·) ?_
  rw [List.eq_replicate_iff, List.length_map, Host.cpuStates, List.length_map]
  refine ⟨rfl, fun n hn => ?_⟩
  obtain ⟨x, -, rfl⟩ := List.mem_map.mp hn
  exact cpuStateCodec.length_encode x

theorem deviceCalls_of_accepted {k : ℕ} (hmemory : DeviceMemory h v)
    (hacc : h.disk.AcceptsFrom k ((deviceWrites v).map List.length)) : deviceCalls h v k = 2 := by
  rw [deviceWrites, List.map_cons, Codec.length_encode] at hacc
  rw [deviceCalls, if_pos hmemory, if_pos ⟨hacc.1, trivial⟩]

theorem rest_written_iff {log : WriteLog}
    (hlog : log = allWritten (deviceWrites v) ↔ DeviceMemory h v ∧
      h.disk.AcceptsFrom (devicesAt h v) ((deviceWrites v).map List.length)) :
    log ++ writeOutcomes h.disk (devicesAt h v + deviceCalls h v (devicesAt h v) + 1)
        (v.regions.flatMap (regionWrites h a)) =
      allWritten (deviceWrites v ++ v.regions.flatMap (regionWrites h a)) ↔ RestAccepted h a v := by
  rw [allWritten, List.map_append]
  change _ = allWritten _ ++ allWritten _ ↔ _
  constructor
  · intro heq
    -- the part for the regions is as long as it should be, so the part for the devices is as well
    obtain ⟨hfirst, hsecond⟩ := List.append_inj' heq
      (by rw [length_writeOutcomes, allWritten, List.length_map])
    obtain ⟨hmemory, hacc⟩ := hlog.mp hfirst
    rw [deviceCalls_of_accepted hmemory hacc, writeOutcomes_eq_iff] at hsecond
    exact ⟨hmemory, hacc, hsecond⟩
  · rintro ⟨hmemory, hacc, hregions⟩
    rw [hlog.mpr ⟨hmemory, hacc⟩, deviceCalls_of_accepted hmemory hacc,
      writeOutcomes_eq_iff.mpr hregions]

/-- **The result of `checkpoint_create` and its log.** -/
theorem checkpointCreateLogged_spec (hv : h.vms a = some v) :
    wlp (checkpointCreateLogged (some a) (some path) timestamp) (fun r s' => SameGuest h s'.1 ∧
      (r = .ok ↔ Completes h v) ∧
        (r = .ok → (EverythingWritten h a v timestamp s'.2 ↔ RestAccepted h a v))) (h, []) := by
  rw [checkpointCreateLogged, wlp_bind, wlp_lift, wlp_onDisk]
  refine wlp_mono (fopen_after path .write) ?_
  rintro o d ⟨hopens, hafter⟩
  have hopened := hopens nofun
  have hsame := SameGuest.setDisk h d
  cases o with
  | none =>
    rw [wlp_pure]
    refine ⟨hsame, iff_of_false nofun fun hc => ?_, nofun⟩
    exact absurd (hopened.mpr hc.opened) (by simp)
  | some f =>
    rw [wlp_bind, wlp_lift, wlp_getVm]
    intro v' hv'
    obtain rfl : v = v' := Option.some.inj (hv.symm.trans hv')
    rw [wlp_bind]
    refine wlp_mono writeStateLogged_spec ?_
    rintro r ⟨h₁, l₁⟩ ⟨vmName, hname, hstate⟩
    have hrest : h₁ = (h.setDisk d).setDisk h₁.disk := hstate.rest
    have hacc : r = .ok ↔ h.disk.AcceptsFrom (h.disk.calls + 1) v.stateSizes := by
      rw [hstate.ok_iff, map_length_stateWrites, ← hafter.calls]
      exact hafter.acceptsFrom
    refine wlp_ite (fun hr => ?_) fun hr => ?_
    · rw [wlp_bind, wlp_lift, wlp_onDisk]
      refine wlp_mono (fclose_after f) fun _ d₂ _ => ?_
      rw [wlp_pure]
      refine ⟨?_, iff_of_false hr fun hc => hr (hacc.mpr hc.state), fun hok => absurd hok hr⟩
      rw [hrest]
      exact SameGuest.setDisk h _
    · obtain rfl := not_not.mp hr
      have hwrote := hstate.wrote rfl
      have hafter₁ := hafter.trans hwrote.after
      have hsame₁ := hsame.trans hwrote.same
      have hcalls : h₁.disk.calls = devicesAt h v := by
        rw [hafter₁.calls, devicesAt, ← map_length_stateWrites h v (checkpointHeader v timestamp vmName),
          List.length_map, Nat.add_assoc]
        rfl
      have hmemory : DeviceMemory h₁ v ↔ DeviceMemory h v := by
        rw [hrest]
        rfl
      have hdevices : deviceCalls h₁ v (devicesAt h v) = deviceCalls h v (devicesAt h v) := by
        simp only [deviceCalls, hmemory, hafter₁.acceptsFrom]
      rw [wlp_bind]
      refine wlp_mono writeDevicesLogged_spec ?_
      rintro _ ⟨h₂, l₂⟩ ⟨hsame₂, hafter₂, log, hlog, hlogged⟩
      dsimp only at hsame₂ hafter₂ hlog hlogged
      rw [hcalls, hmemory, hafter₁.acceptsFrom] at hlogged
      rw [hcalls, hdevices] at hafter₂
      rw [wlp_bind]
      have hsame' := hsame₁.trans hsame₂
      refine wlp_mono (checkpointSaveMemoryLogged_spec (s := (h₂, l₂)) (v := v)
        (by rw [hsame'.vms]; exact hv)) ?_
      rintro r ⟨h₃, l₃⟩ ⟨hsame₃, hopens₃, hlog₃⟩
      rw [wlp_bind, wlp_lift, wlp_onDisk]
      refine wlp_mono (fclose_after f) fun _ d₄ _ => ?_
      rw [wlp_pure]
      have hat := hafter₁.trans hafter₂
      have hcalls₂ : h₂.disk.calls = devicesAt h v + deviceCalls h v (devicesAt h v) := by
        rw [hafter₂.calls, hcalls]
      refine ⟨(hsame'.trans hsame₃).trans (SameGuest.setDisk h₃ d₄), ?_, fun hr => ?_⟩
      · dsimp only at hopens₃
        rw [hopens₃, hat.opens, hcalls₂]
        exact ⟨fun ho => ⟨hopened.mp rfl, hacc.mp rfl, ho⟩, Completes.reopened⟩
      · have hlog₁ : l₁ = allWritten (stateWrites h v (checkpointHeader v timestamp vmName)) := by
          have hfirst := hwrote.log
          rw [writeOutcomes_eq_iff.mpr (hstate.ok_iff.mp rfl)] at hfirst
          exact hfirst
        have hregions : (v.regions.flatMap (regionWrites h₂ a)) = v.regions.flatMap (regionWrites h a) := by
          rw [funext (regionWrites_congr hsame' a)]
        have hl₃ := hlog₃ hr
        dsimp only at hl₃
        rw [hcalls₂, hregions, writeOutcomes_congr hat.accepts, hlog, hlog₁, List.append_assoc] at hl₃
        dsimp only
        rw [← rest_written_iff hlogged, hl₃]
        constructor
        · rintro ⟨vmName', hname', heq⟩
          obtain rfl := Option.some.inj (hname.symm.trans hname')
          rw [checkpointWrites, allWritten, allWritten, List.map_append] at heq
          exact List.append_cancel_left heq
        · intro heq
          refine ⟨vmName, hname, ?_⟩
          rw [heq, checkpointWrites, allWritten, allWritten, allWritten]
          exact List.map_append.symm

/-- **Which checkpoints succeed.** -/
theorem checkpointCreate_outcome (hv : h.vms a = some v) :
    wlp (checkpointCreate (some a) (some path) timestamp)
      (fun r h' => SameGuest h h' ∧ (r = .ok ↔ Completes h v)) h := by
  intro r h' hrun
  obtain ⟨log, hlogged⟩ := (checkpointCreateLogged_erases _ _ _).exists_log hrun []
  obtain ⟨hsame, hok, -⟩ := checkpointCreateLogged_spec hv _ _ hlogged
  exact ⟨hsame, hok⟩

/-! ## Success and what was written -/

/-- **A success means that everything was written** just if one of the answers makes the call fail, or
there is memory for the devices and all that comes after the vCPUs is accepted. -/
theorem checkpoint_create_reports_iff {path : Option String} {r : Result} (hv : h.vms a = some v)
    (hrun : (checkpointCreate (some a) path timestamp).run h = some (r, h')) :
    ∃ log, (checkpointCreateLogged (some a) path timestamp).run (h, []) = some (r, (h', log)) ∧
      ((r = .ok → EverythingWritten h a v timestamp log) ↔
        (path.isSome → Completes h v → RestAccepted h a v)) := by
  obtain ⟨log, hlogged⟩ := (checkpointCreateLogged_erases _ _ _).exists_log hrun []
  refine ⟨log, hlogged, ?_⟩
  cases path with
  | none =>
    cases hrun
    exact iff_of_true nofun nofun
  | some path =>
    obtain ⟨-, hok, hall⟩ := checkpointCreateLogged_spec hv _ _ hlogged
    constructor
    · exact fun hreport _ hcompletes => (hall (hok.mpr hcompletes)).mp (hreport (hok.mpr hcompletes))
    · exact fun hrest hr => (hall hr).mpr (hrest rfl (hok.mp hr))

/-- The VM of `oneVcpuHost`. -/
def oneVcpuVm : Nexusvm where
  vcpus := [16384]
  vcpuCount := 1
  memoryRegions := [{ size := 4096 }]
  memoryRegionCount := 1

theorem checkpoint_create_reports_iff_one_vcpu : ∃ h' log,
    (checkpointCreateLogged (some 8192) (some "vm.ckpt") 0).run (oneVcpuHost, []) =
      some (.ok, (h', log)) ∧
      ((Result.ok = .ok → EverythingWritten oneVcpuHost 8192 oneVcpuVm 0 log) ↔
        ((some "vm.ckpt").isSome → Completes oneVcpuHost oneVcpuVm →
          RestAccepted oneVcpuHost 8192 oneVcpuVm)) := by
  have hres : ((checkpointCreate (some 8192) (some "vm.ckpt") 0).run oneVcpuHost).any
      (fun p => p.1 = .ok) = true := by decide +kernel
  obtain ⟨⟨r, h'⟩, hrun, hr⟩ := (Option.any_eq_true _ _).mp hres
  obtain rfl := of_decide_eq_true hr
  exact ⟨h', checkpoint_create_reports_iff (h := oneVcpuHost) rfl hrun⟩

/-- A disk that is full after the device section. -/
def fillingHost : Host :=
  (bootHost 1 .intel).setDisk
    { (bootHost 1 .intel).disk with accepts := fun k n => if k < 7 then n else 0 }

/-- **A success that is none.** Neither the record of the region nor what is in it fits on the disk. -/
theorem full_disk_reported_ok : ∃ h₀ h h' v log,
    (runOps HvOp.run [.create { vcpuCount := 1, memoryRegionCount := 1 }]).run fillingHost =
      some ((), h₀) ∧
      (vmAllocMemory (some 16384) 0 16 .ram).run h₀ = some (.ok, h) ∧ h.vms 16384 = some v ∧
      (checkpointCreate (some 16384) (some "vm.ckpt") 0).run h = some (.ok, h') ∧
      (checkpointCreateLogged (some 16384) (some "vm.ckpt") 0).run (h, []) = some (.ok, (h', log)) ∧
      ¬ EverythingWritten h 16384 v 0 log := by
  have hres : ((runOps HvOp.run [.create { vcpuCount := 1, memoryRegionCount := 1 }]).run
      fillingHost).any (fun p => ((vmAllocMemory (some 16384) 0 16 .ram).run p.2).any fun q =>
        q.1 = .ok && (q.2.vms 16384).isSome &&
          ((checkpointCreateLogged (some 16384) (some "vm.ckpt") 0).run (q.2, [])).any fun c =>
            c.1 = .ok && c.2.2.any fun e => e.2 = .errGeneric) = true := by decide +kernel
  obtain ⟨⟨⟨⟩, h₀⟩, hvm, hres⟩ := (Option.any_eq_true _ _).mp hres
  simp only [Bool.and_eq_true, Option.any_eq_true, List.any_eq_true, decide_eq_true_eq,
    Option.isSome_iff_exists] at hres
  obtain ⟨⟨r, h⟩, halloc, ⟨rfl, v, hv⟩, ⟨c, h', log⟩, hlogged, rfl, e, he, hfailed⟩ := hres
  refine ⟨h₀, h, h', v, log, hvm, halloc, hv, (checkpointCreateLogged_erases _ _ _).run_of_log hlogged,
    hlogged, ?_⟩
  rintro ⟨vmName, -, heq⟩
  dsimp only at he
  rw [heq, allWritten, List.mem_map] at he
  obtain ⟨w, -, rfl⟩ := he
  cases hfailed

/-! ## Snapshots -/

/-- Every VM is in the state it was in, and every vCPU runs just if it did. -/
structure SameLifecycle (h h' : Host) : Prop where
  states : ∀ a, (h'.vms a).map Nexusvm.state = (h.vms a).map Nexusvm.state
  running : ∀ c, (h'.vcpus c).map Nexusvcpu.running = (h.vcpus c).map Nexusvcpu.running

/-- **What a snapshot makes of the state**: running after a success, suspended after a failure. -/
theorem snapshotCreate_outcome (hv : h.vms a = some v) :
    wlp (snapshotCreate (some a) (some path) timestamp) (fun _ h' => h'.vcpus = h.vcpus ∧
      h'.vms = Function.update h.vms a
        (some { v with state := if Completes h v then .running else .suspended })) h := by
  rw [snapshotCreate, wlp_bind, wlp_getVm]
  intro v' hv'
  obtain rfl : v = v' := Option.some.inj (hv.symm.trans hv')
  rw [wlp_bind, wlp_putVm, wlp_bind]
  have hself : (h.setVm a (some { v with state := .suspended })).vms a =
      some { v with state := .suspended } := Function.update_self _ _ _
  refine wlp_mono (checkpointCreate_outcome hself) ?_
  rintro r h₁ ⟨hsame, hok⟩
  -- neither the disk nor the heap has changed with the state
  have hcompletes : Completes (h.setVm a (some { v with state := .suspended }))
      { v with state := .suspended } ↔ Completes h v := by
    rw [completes_iff, completes_iff]
    rfl
  rw [hcompletes] at hok
  rw [wlp_bind, wlp_when]
  refine ⟨fun hr => ?_, fun hr => ?_⟩
  · rw [wlp_bind, wlp_getVm]
    intro w hw
    rw [hsame.vms, hself] at hw
    cases hw
    rw [wlp_putVm, wlp_pure, if_pos (hok.mp hr)]
    refine ⟨hsame.vcpus, ?_⟩
    rw [Host.setVm_vms, hsame.vms, Host.setVm_vms, Function.update_idem]
  · rw [wlp_pure, if_neg (mt hok.mpr hr)]
    exact ⟨hsame.vcpus, hsame.vms⟩

theorem snapshotCreate_null {vm : Option Addr} {path : Option String} (hnull : vm = none ∨ path = none) :
    (snapshotCreate vm path timestamp).run h = some (.errInvalidParam, h) := by
  rcases vm with _ | a <;> rcases path with _ | path
  · rfl
  · rfl
  · rfl
  · rcases hnull with hvm | hpath
    · cases hvm
    · cases hpath

/-- **A snapshot leaves the VM in the state it was in** just if that was running and the checkpoint
succeeds, or suspended and it fails. -/
theorem snapshot_keeps_lifecycle_iff {vm : Option Addr} {path : Option String} {r : Result}
    (hrun : (snapshotCreate vm path timestamp).run h = some (r, h')) :
    SameLifecycle h h' ↔ ∀ a v, vm = some a → path.isSome → h.vms a = some v →
      v.state = if Completes h v then .running else .suspended := by
  have hsame : SameLifecycle h h := ⟨fun _ => rfl, fun _ => rfl⟩
  by_cases hnull : vm = none ∨ path = none
  · rw [snapshotCreate_null hnull] at hrun
    cases hrun
    refine iff_of_true hsame ?_
    rintro a v rfl hpath
    rcases hnull with hvm | rfl
    · cases hvm
    · cases hpath
  obtain ⟨hvm, hpath⟩ := not_or.mp hnull
  obtain ⟨a, rfl⟩ := Option.ne_none_iff_exists'.mp hvm
  obtain ⟨path, rfl⟩ := Option.ne_none_iff_exists'.mp hpath
  cases hv : h.vms a with
  | none =>
    -- there is no such VM
    have hdead : wlp (snapshotCreate (some a) (some path) timestamp) (fun _ _ => False) h := by
      rw [snapshotCreate, wlp_bind, wlp_getVm]
      intro v hv'
      rw [hv] at hv'
      cases hv'
    exact absurd hrun (hdead r h')
  | some v =>
    obtain ⟨hvcpus, hvms⟩ := snapshotCreate_outcome hv _ _ hrun
    constructor
    · rintro ⟨hstates, -⟩ a' v' ha' - hv'
      cases ha'
      obtain rfl : v = v' := Option.some.inj (hv.symm.trans hv')
      have hstate := hstates a
      rw [hvms, Function.update_self, hv, Option.map_some, Option.map_some] at hstate
      exact (Option.some.inj hstate).symm
    · intro hstate
      refine ⟨fun b => ?_, fun c => by rw [hvcpus]⟩
      rw [hvms]
      by_cases hba : b = a
      · rw [hba, Function.update_self, hv, Option.map_some, Option.map_some, hstate a v rfl rfl hv]
      · rw [Function.update_of_ne hba]

theorem snapshot_keeps_lifecycle_iff_one_vcpu : ∃ h',
    (snapshotCreate (some 8192) (some "vm.snap") 0).run oneVcpuHost = some (.ok, h') ∧
      (SameLifecycle oneVcpuHost h' ↔ ∀ a v, some 8192 = some a → (some "vm.snap").isSome →
        oneVcpuHost.vms a = some v → v.state = if Completes oneVcpuHost v then .running else .suspended) := by
  have hres : ((snapshotCreate (some 8192) (some "vm.snap") 0).run oneVcpuHost).any
      (fun p => p.1 = .ok) = true := by decide +kernel
  obtain ⟨⟨r, h'⟩, hrun, hr⟩ := (Option.any_eq_true _ _).mp hres
  obtain rfl := of_decide_eq_true hr
  exact ⟨h', hrun, snapshot_keeps_lifecycle_iff hrun⟩

/-- **A snapshot starts a VM.** It was created and never started, and is running afterwards. -/
theorem snapshot_starts_vm : ∃ h h', (runOps HvOp.run [.create { vcpuCount := 1, memoryRegionCount := 1 }]).run
    (bootHost 1 .intel) = some ((), h) ∧
      (snapshotCreate (some 16384) (some "vm.snap") 0).run h = some (.ok, h') ∧ ¬ SameLifecycle h h' := by
  have hres : ((runOps HvOp.run [.create { vcpuCount := 1, memoryRegionCount := 1 }]).run
      (bootHost 1 .intel)).any (fun p => ((snapshotCreate (some 16384) (some "vm.snap") 0).run p.2).any
        fun q => q.1 = .ok && (p.2.vms 16384).any fun v => v.state = .initialized &&
          (q.2.vms 16384).any fun w => w.state = .running) = true := by decide +kernel
  obtain ⟨⟨⟨⟩, h⟩, hvm, hres⟩ := (Option.any_eq_true _ _).mp hres
  simp only [Bool.and_eq_true, Option.any_eq_true, decide_eq_true_eq] at hres
  obtain ⟨⟨r, h'⟩, hrun, rfl, v, hv, hbefore, w, hw, hafter⟩ := hres
  refine ⟨h, h', hvm, hrun, fun hsame => ?_⟩
  have hstate := hsame.states 16384
  rw [hv, hw, Option.map_some, Option.map_some, hbefore, hafter] at hstate
  cases hstate

end NexusVM
