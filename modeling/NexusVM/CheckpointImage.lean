import NexusVM.Checkpoint
import NexusVM.Isolation

/-!
# What a checkpoint holds

The file that `checkpoint_create` leaves where no write is short and the bytes reach the file in the
order in which they are written.

* `Host.cpuStates`, `Host.deviceSection`, `regionImage`, `checkpointImage`: the sections;
* `Writes`, `SameGuest`: a stream at the end of its file, and what no function here changes;
* `saveRegion_spec`, `writeState_spec`, `writeDevices_spec`, `checkpointSaveMemory_spec`: each section;
* **`checkpointCreate_spec`**: the whole file.
-/

namespace NexusVM

open Prog Stdio

variable {h h' : Host} {a : Addr} {v : Nexusvm} {f : ℕ} {path : String} {file : List UInt8}

/-! ## Sections -/

/-- The states of some vCPUs. -/
def Host.cpuStates (h : Host) (cs : List Addr) : List CpuState :=
  cs.map fun c => (((h.vcpus c).map Nexusvcpu.cpuState).getD {})

/-- What the devices take. -/
def Nexusvm.deviceSize (v : Nexusvm) : ℕ := 4 + 64 * v.assignedDeviceCount.toNat

/-- The device section: empty where there is no memory for the buffer. -/
def Host.deviceSection (h : Host) (v : Nexusvm) : List UInt8 :=
  match h.mem.heap.answer h.mem.heap.asked with
  | none => []
  | some b =>
    if h.mem.heap.Fits 16 ⟨.deviceState, b, v.deviceSize⟩ then
      Codec.u64.encode (UInt64.ofNat v.deviceSize) ++ (Codec.u32.encode v.assignedDeviceCount ++
        pciConfigCodec.encodeList v.assignedDevices)
    else []

/-- The bytes of host memory from `p` on. -/
def Host.ramBytes (h : Host) (p n : ℕ) : List UInt8 := (List.range n).map fun k => h.mem.ram (p + k)

theorem length_ramBytes (h : Host) (p n : ℕ) : (h.ramBytes p n).length = n := by
  rw [Host.ramBytes, List.length_map, List.length_range]

/-- What is in a region, if it is mapped memory. -/
def regionData (h : Host) (a : Addr) (r : MemoryRegion) : List UInt8 :=
  if r.type = .ram ∧ r.size > 0 then
    match h.translate a r.guestPhys with
    | none => []
    | some hpa => h.ramBytes hpa.toNat r.size.toNat
  else []

/-- A region: its record, and what is in it. -/
def regionImage (h : Host) (a : Addr) (r : MemoryRegion) : List UInt8 :=
  regionRecordCodec.encode r.record ++ regionData h a r

/-- The configuration and the states of the vCPUs. -/
def stateImage (h : Host) (v : Nexusvm) : List UInt8 :=
  vmConfigCodec.encode v.config ++ cpuStateCodec.encodeList (h.cpuStates v.vcpus)

theorem length_stateImage (h : Host) (v : Nexusvm) :
    (stateImage h v).length = sizeofVmConfig + v.vcpus.length * sizeofCpuState := by
  rw [stateImage, List.length_append, Codec.length_encode, Codec.length_encodeList, Host.cpuStates,
    List.length_map]
  rfl

/-- The whole file. -/
def checkpointImage (h : Host) (a : Addr) (v : Nexusvm) (header : CheckpointHeader) : List UInt8 :=
  checkpointHeaderCodec.encode header ++ stateImage h v ++ h.deviceSection v ++
    v.regions.flatMap (regionImage h a)

/-! ## What stays -/

/-- Neither VMs nor vCPUs nor their memory have changed. -/
structure SameGuest (h h' : Host) : Prop where
  vms : h'.vms = h.vms
  vcpus : h'.vcpus = h.vcpus
  tables : h'.mem.tables = h.mem.tables
  live : h'.mem.heap.live = h.mem.heap.live
  ram : h'.mem.ram = h.mem.ram
  abi : h'.mem.abi = h.mem.abi

theorem SameGuest.refl (h : Host) : SameGuest h h := ⟨rfl, rfl, rfl, rfl, rfl, rfl⟩

theorem SameGuest.trans {h'' : Host} (s : SameGuest h h') (s' : SameGuest h' h'') : SameGuest h h'' :=
  ⟨s'.1.trans s.1, s'.2.trans s.2, s'.3.trans s.3, s'.4.trans s.4, s'.5.trans s.5, s'.6.trans s.6⟩

theorem SameGuest.symm (s : SameGuest h h') : SameGuest h' h :=
  ⟨s.1.symm, s.2.symm, s.3.symm, s.4.symm, s.5.symm, s.6.symm⟩

theorem setDisk_setDisk (h : Host) (d d' : Disk) : (h.setDisk d).setDisk d' = h.setDisk d' := rfl

theorem SameGuest.setDisk (h : Host) (d : Disk) : SameGuest h (h.setDisk d) :=
  ⟨rfl, rfl, rfl, rfl, rfl, rfl⟩

theorem SameGuest.sameEpt (s : SameGuest h h') (a : Addr) : SameEpt a h' h := by
  refine ⟨fun v hv => ⟨v, by rw [← s.vms]; exact hv, rfl⟩, ⟨s.tables.symm, s.abi.symm⟩, fun t ht => ?_⟩
  obtain ⟨b, hb, hrest⟩ := ht
  exact ⟨b, s.live ▸ hb, hrest⟩

theorem translate_of_run {gpa hpa : UInt64} {t : Host}
    (hrun : (vmGpaToHpa (some a) gpa).run h = some (hpa, t)) :
    h.translate a gpa = if hpa = INVALID_PHYS_ADDR then none else some hpa := by
  rw [Host.translate, hrun, Option.map_some, Option.filter_some]
  by_cases hinv : hpa = INVALID_PHYS_ADDR
  · rw [if_pos hinv, decide_eq_false (not_not.mpr hinv)]
    rfl
  · rw [if_neg hinv, decide_eq_true hinv]
    rfl

theorem translate_congr (hs : SameEpt a h h') (hs' : SameEpt a h' h) (gpa : UInt64) :
    h'.translate a gpa = h.translate a gpa := by
  cases hrun : (vmGpaToHpa (some a) gpa).run h' with
  | some p =>
    obtain ⟨hpa, t⟩ := p
    obtain ⟨-, hrun'⟩ := vmGpaToHpa_readsOnly a gpa h' h hs' hpa t hrun
    rw [translate_of_run hrun, translate_of_run hrun']
  | none =>
    cases hrun' : (vmGpaToHpa (some a) gpa).run h with
    | some p =>
      obtain ⟨hpa, t⟩ := p
      obtain ⟨-, hback⟩ := vmGpaToHpa_readsOnly a gpa h h' hs hpa t hrun'
      rw [hrun] at hback
      cases hback
    | none => rw [Host.translate, Host.translate, hrun, hrun']

theorem regionImage_congr (hs : SameEpt a h h') (hs' : SameEpt a h' h) (hram : h'.mem.ram = h.mem.ram)
    (r : MemoryRegion) : regionImage h' a r = regionImage h a r := by
  simp only [regionImage, regionData, translate_congr hs hs', Host.ramBytes, hram]

/-- The address of a region that is memory can be translated. -/
def Translated (h : Host) (a : Addr) (r : MemoryRegion) : Prop :=
  r.type = .ram ∧ r.size > 0 → ∃ hpa, (vmGpaToHpa (some a) r.guestPhys).run h = some (hpa, h)

theorem Translated.congr {r : MemoryRegion} (ht : Translated h a r) (hs : SameEpt a h h') :
    Translated h' a r := by
  intro hram
  obtain ⟨hpa, hrun⟩ := ht hram
  exact ⟨hpa, (vmGpaToHpa_readsOnly a _ h h' hs hpa h hrun).2⟩

/-! ## Writes -/

/-- Since `h₀` only the disk has changed, and on it only the stream `f`, which is now at the end of
`file`. -/
structure Writes (f : ℕ) (path : String) (file : List UInt8) (h₀ h : Host) : Prop where
  rest : h = h₀.setDisk h.disk
  atEnd : h.disk.AtEnd f path file
  others : ∀ s, s ≠ f → h.disk.streams s = h₀.disk.streams s

variable {h₀ : Host}

theorem Writes.sameGuest (hw : Writes f path file h₀ h) : SameGuest h₀ h := by
  rw [hw.rest]
  exact SameGuest.setDisk h₀ _

theorem checkpointWrite_spec (hw : Writes f path file h₀ h) (data : List UInt8) :
    wp (checkpointWrite f data) (fun r h' => r = .ok ∧ Writes f path (file ++ data) h₀ h') h := by
  rw [checkpointWrite, wp_bind, wp_onDisk]
  refine wp_mono (fwrite_atEnd hw.atEnd data) ?_
  rintro n d ⟨rfl, hend, hsame⟩
  rw [if_neg (not_not.mpr rfl), wp_pure]
  refine ⟨rfl, ?_, hend, fun s hs => (hsame.streams s hs).trans (hw.others s hs)⟩
  rw [hw.rest]
  rfl

/-- **A region is written.** -/
theorem saveRegion_spec (hw : Writes f path file h₀ h) (r : MemoryRegion) :
    wlp (saveRegion a f r) (fun _ h' => Translated h₀ a r ∧
      Writes f path (file ++ regionImage h₀ a r) h₀ h') h := by
  rw [saveRegion, wlp_bind]
  refine wlp_mono (checkpointWrite_spec hw _).wlp ?_
  rintro _ h₁ ⟨-, hw₁⟩
  rw [regionImage, ← List.append_assoc, wlp_when]
  refine ⟨fun hram => ?_, fun hram => ?_⟩
  · rw [wlp_bind]
    intro hpa t hrun
    obtain ⟨rfl, hrun₀⟩ := vmGpaToHpa_readsOnly a _ h₁ h₀ (hw₁.sameGuest.sameEpt a) hpa t hrun
    rw [regionData, if_pos hram, translate_of_run hrun₀, wlp_when]
    refine ⟨fun hvalid => ?_, fun hinvalid => ?_⟩
    · rw [if_neg hvalid, wlp_bind, readRam, wlp_bind, wlp_get, wlp_pure, wlp_bind]
      refine wlp_mono (checkpointWrite_spec hw₁ _).wlp ?_
      rintro _ h₂ ⟨-, hw₂⟩
      rw [wlp_pure]
      rw [hw₁.sameGuest.ram] at hw₂
      exact ⟨fun _ => ⟨hpa, hrun₀⟩, hw₂⟩
    · rw [if_pos (not_not.mp hinvalid), List.append_nil]
      exact ⟨fun _ => ⟨hpa, hrun₀⟩, hw₁⟩
  · rw [regionData, if_neg hram, List.append_nil]
    exact ⟨fun hram' => absurd hram' hram, hw₁⟩

theorem cpuStates_cons {c : Addr} {cs : List Addr} {u : Nexusvcpu} (hu : h.vcpus c = some u) :
    h.cpuStates (c :: cs) = u.cpuState :: h.cpuStates cs := by
  rw [Host.cpuStates, List.map_cons, hu]
  rfl

theorem writeVcpus_spec {cs : List Addr} (hw : Writes f path file h₀ h) :
    wlp (writeVcpus f cs) (fun r h' => r = .ok ∧ (∀ c ∈ cs, ∃ u, h₀.vcpus c = some u) ∧
      Writes f path (file ++ cpuStateCodec.encodeList (h₀.cpuStates cs)) h₀ h') h := by
  induction cs generalizing file h with
  | nil =>
    rw [writeVcpus, wlp_pure]
    exact ⟨rfl, nofun, by rw [Host.cpuStates, List.map_nil, Codec.encodeList_nil, List.append_nil]; exact hw⟩
  | cons c cs ih =>
    rw [writeVcpus, wlp_bind, wlp_getVcpu]
    intro u hu
    rw [hw.sameGuest.vcpus] at hu
    rw [wlp_bind]
    refine wlp_mono (checkpointWrite_spec hw _).wlp ?_
    rintro _ h₁ ⟨rfl, hw₁⟩
    rw [if_neg (not_not.mpr rfl)]
    refine wlp_mono (ih hw₁) ?_
    rintro r h₂ ⟨hr, hcs, hw₂⟩
    refine ⟨hr, List.forall_mem_cons.mpr ⟨⟨u, hu⟩, hcs⟩, ?_⟩
    rwa [cpuStates_cons hu, Codec.encodeList_cons, ← List.append_assoc]

/-- **The header, the configuration and the vCPUs are written.** -/
theorem writeState_spec {timestamp : UInt64} (hw : Writes f path [] h₀ h) :
    wlp (writeState f v timestamp) (fun r h' => r = .ok ∧ (∀ c ∈ v.vcpus, ∃ u, h₀.vcpus c = some u) ∧
      ∃ vmName, strncpy (List.replicate 64 0) v.name 63 = some vmName ∧
        Writes f path (checkpointHeaderCodec.encode (checkpointHeader v timestamp vmName) ++
          stateImage h₀ v) h₀ h') h := by
  rw [writeState, wlp_bind, wlp_fetch]
  intro vmName hname
  rw [wlp_bind]
  refine wlp_mono (checkpointWrite_spec hw _).wlp ?_
  rintro _ h₁ ⟨rfl, hw₁⟩
  rw [if_neg (not_not.mpr rfl), wlp_bind]
  refine wlp_mono (checkpointWrite_spec hw₁ _).wlp ?_
  rintro _ h₂ ⟨rfl, hw₂⟩
  rw [if_neg (not_not.mpr rfl)]
  refine wlp_mono (writeVcpus_spec hw₂) ?_
  rintro r h₃ ⟨hr, hcs, hw₃⟩
  rw [List.nil_append, List.append_assoc] at hw₃
  exact ⟨hr, hcs, vmName, hname, hw₃⟩

/-! ## Devices -/

theorem release_grant_live (heap : Heap BlockKind) (b : Block BlockKind) :
    ((heap.grant b).release b.kind b.base).live = heap.live := by
  have hfind : (heap.grant b).live.find? (fun c => c.kind = b.kind ∧ c.base = b.base) = some b := by
    rw [Heap.grant_live, List.find?_cons_of_pos]
    exact decide_eq_true ⟨rfl, rfl⟩
  rw [Heap.release, hfind, Heap.grant_live]
  exact List.erase_cons_head b heap.live

theorem length_deviceData (hlen : v.assignedDevices.length = v.assignedDeviceCount.toNat) :
    (Codec.u32.encode v.assignedDeviceCount ++
      pciConfigCodec.encodeList v.assignedDevices).length = v.deviceSize := by
  rw [List.length_append, Codec.length_encode, Codec.length_encodeList, hlen, Nexusvm.deviceSize,
    Nat.mul_comm 64]
  rfl

theorem checkpointSaveDeviceState_spec :
    wlp (checkpointSaveDeviceState v) (fun o h' => match o with
      | .error _ => h.deviceSection v = [] ∧ h' = h.refuse
      | .ok (b, data) => h.deviceSection v = Codec.u64.encode (UInt64.ofNat v.deviceSize) ++ data ∧
        data.length = v.deviceSize ∧ h' = h.grant ⟨.deviceState, b, v.deviceSize⟩) h := by
  rw [checkpointSaveDeviceState, wlp_bind]
  refine (wp_alignedAlloc_iff.mpr ⟨fun b hb hfits => ?_, fun hserves => ?_⟩).wlp
  · simp only [wlp_bind, wlp_require, wlp_pure]
    intro hlen
    refine ⟨?_, length_deviceData hlen, rfl⟩
    simp only [Host.deviceSection, hb]
    exact if_pos hfits
  · rw [wlp_pure]
    refine ⟨?_, rfl⟩
    unfold Host.deviceSection
    split
    · rfl
    · next b hb => exact if_neg fun hfits => hserves ⟨b, hb, hfits, trivial⟩

/-- **The devices are written**, if there is memory for the buffer. -/
theorem writeDevices_spec (hw : Writes f path file h₀ h) :
    wlp (writeDevices f v) (fun _ h' => SameGuest h₀ h' ∧
      h'.disk.AtEnd f path (file ++ h₀.deviceSection v)) h := by
  have hsection : h.deviceSection v = h₀.deviceSection v := by
    rw [hw.rest]
    rfl
  rw [writeDevices, wlp_bind, ← hsection]
  refine wlp_mono checkpointSaveDeviceState_spec ?_
  rintro (result | ⟨b, data⟩) h₁ hres
  · obtain ⟨hnil, rfl⟩ := hres
    rw [wlp_pure, hnil, List.append_nil]
    have hs := hw.sameGuest
    exact ⟨⟨hs.vms, hs.vcpus, hs.tables, hs.live, hs.ram, hs.abi⟩, hw.atEnd⟩
  · obtain ⟨heq, hlen, rfl⟩ := hres
    -- from here on the buffer is one of the live blocks
    generalize hg : h.grant ⟨.deviceState, b, v.deviceSize⟩ = g
    have hwg : Writes f path file g g := by
      rw [← hg]
      exact ⟨rfl, hw.atEnd, fun _ _ => rfl⟩
    rw [wlp_bind]
    refine wlp_mono (checkpointWrite_spec hwg _).wlp ?_
    rintro _ h₂ ⟨rfl, hw₂⟩
    rw [wlp_bind, wlp_when]
    refine ⟨fun _ => ?_, fun hne => absurd rfl hne⟩
    rw [wlp_discard]
    refine wlp_mono (checkpointWrite_spec hw₂ _).wlp ?_
    rintro _ h₃ ⟨-, hw₃⟩
    refine (wp_freeBuffer_some.mpr ?_).wlp
    have hs := hw.sameGuest
    have hs₃ := hw₃.sameGuest
    have hlive : (h₃.release .deviceState b).mem.heap.live = h.mem.heap.live := by
      rw [hw₃.rest, ← hg]
      exact release_grant_live h.mem.heap ⟨.deviceState, b, v.deviceSize⟩
    subst hg
    refine ⟨⟨hs₃.vms.trans hs.vms, hs₃.vcpus.trans hs.vcpus, hs₃.tables.trans hs.tables,
      hlive.trans hs.live, hs₃.ram.trans hs.ram, hs₃.abi.trans hs.abi⟩, ?_⟩
    rw [heq, ← List.append_assoc, ← hlen]
    exact hw₃.atEnd

/-! ## Memory -/

/-- **The regions are written** through a stream of their own; the other streams stay. -/
theorem checkpointSaveMemory_spec (hq : h.disk.Quiet) (hfile : h.disk.files path = some file) :
    wlp (checkpointSaveMemory (some a) path) (fun r h' => r = .ok →
      ∃ v, h.vms a = some v ∧ v.memoryRegionCount.toNat ≤ v.memoryRegions.length ∧
        (∀ r ∈ v.regions, Translated h a r) ∧ SameGuest h h' ∧ h'.disk.Quiet ∧
        h'.disk.files path = some (file ++ v.regions.flatMap (regionImage h a)) ∧
        ∀ s, s ≠ h.disk.opened → h'.disk.streams s = h.disk.streams s) h := by
  rw [checkpointSaveMemory, wlp_bind, wlp_onDisk]
  refine wlp_mono (fopen_append hq hfile).wlp ?_
  intro o d hopen
  cases o with
  | none =>
    rw [wlp_pure]
    exact nofun
  | some g =>
    obtain ⟨hend, hg, hothers⟩ := hopen g rfl
    have hw : Writes g path file h (h.setDisk d) := ⟨rfl, hend, hothers⟩
    rw [wlp_bind, wlp_getVm]
    intro v hv
    rw [wlp_bind, wlp_require]
    intro hle
    rw [wlp_bind]
    refine wlp_mono (wlp_forEach (saveRegion a g) (fun pre h' => (∀ r ∈ pre, Translated h a r) ∧
      Writes g path (file ++ pre.flatMap (regionImage h a)) h h') v.regions
      (fun pre r post h' _ hI => ?_) ?_) ?_
    · obtain ⟨htr, hw'⟩ := hI
      rw [List.flatMap_append, List.flatMap_singleton, ← List.append_assoc]
      refine wlp_mono (saveRegion_spec hw' r) ?_
      rintro _ h'' ⟨htr', hw''⟩
      exact ⟨List.forall_mem_append.mpr ⟨htr, List.forall_mem_singleton.mpr htr'⟩, hw''⟩
    · rw [List.flatMap_nil, List.append_nil]
      exact ⟨nofun, hw⟩
    rintro _ h₁ ⟨htr, hw₁⟩
    obtain ⟨st, hst, -⟩ := hw₁.atEnd.stream
    rw [wlp_bind, wlp_onDisk]
    refine wlp_mono (fclose_quiet hw₁.atEnd.quiet hst).wlp ?_
    rintro _ d₂ ⟨hq₂, hfiles, hsame⟩
    rw [wlp_pure]
    refine fun _ => ⟨v, hv, hle, htr, hw₁.sameGuest.trans (SameGuest.setDisk h₁ d₂), hq₂, ?_, fun s hs => ?_⟩
    · exact (congrFun hfiles path).trans hw₁.atEnd.files
    · rw [← hg] at hs
      exact (hsame.streams s hs).trans (hw₁.others s hs)

/-! ## The whole file -/

/-- **What `checkpoint_create` leaves in the file** when it succeeds. -/
theorem checkpointCreate_spec {timestamp : UInt64} (hq : h.disk.Quiet) :
    wlp (checkpointCreate (some a) (some path) timestamp) (fun r h' => r = .ok →
      ∃ v vmName, h.vms a = some v ∧ strncpy (List.replicate 64 0) v.name 63 = some vmName ∧
        v.memoryRegionCount.toNat ≤ v.memoryRegions.length ∧
        (∀ c ∈ v.vcpus, ∃ u, h.vcpus c = some u) ∧ (∀ r ∈ v.regions, Translated h a r) ∧
        SameGuest h h' ∧ h'.disk.Quiet ∧
        h'.disk.files path = some (checkpointImage h a v (checkpointHeader v timestamp vmName))) h := by
  rw [checkpointCreate, wlp_bind, wlp_onDisk]
  refine wlp_mono (fopen_write hq path).wlp ?_
  intro o d hopen
  cases o with
  | none =>
    rw [wlp_pure]
    exact nofun
  | some f =>
    have hw : Writes f path [] (h.setDisk d) (h.setDisk d) := ⟨rfl, hopen f rfl, fun _ _ => rfl⟩
    rw [wlp_bind, wlp_getVm]
    intro v hv
    rw [wlp_bind]
    refine wlp_mono (writeState_spec hw) ?_
    rintro _ h₂ ⟨rfl, hcs, vmName, hname, hw₂⟩
    rw [if_neg (not_not.mpr rfl), wlp_bind]
    refine wlp_mono (writeDevices_spec hw₂) ?_
    rintro _ h₃ ⟨hs₃, hend₃⟩
    rw [wlp_bind]
    refine wlp_mono (checkpointSaveMemory_spec hend₃.quiet hend₃.files) ?_
    intro r h₄ hsave
    rw [wlp_bind, wlp_onDisk]
    by_cases hr : r = .ok
    · obtain ⟨v', hv', hle, htr, hs₄, hq₄, hfile₄, hothers⟩ := hsave hr
      have hs : SameGuest h h₃ := (SameGuest.setDisk h d).trans hs₃
      rw [hs.vms, show h.vms a = some v from hv] at hv'
      cases hv'
      -- the first stream is still open
      obtain ⟨st, hst, -⟩ := hend₃.stream
      rw [← hothers f hend₃.lt.ne] at hst
      refine wlp_mono (fclose_quiet hq₄ hst).wlp ?_
      rintro _ d₅ ⟨hq₅, hfiles, -⟩
      rw [wlp_pure]
      refine fun _ => ⟨v, vmName, hv, hname, hle, hcs,
        fun r hr => (htr r hr).congr (hs.sameEpt a), (hs.trans hs₄).trans (SameGuest.setDisk h₄ d₅),
        hq₅, (congrFun hfiles path).trans (hfile₄.trans ?_)⟩
      rw [funext (regionImage_congr (hs.symm.sameEpt a) (hs.sameEpt a) hs.ram)]
      rfl
    · intro _ d₅ _
      rw [wlp_pure]
      exact fun hok => absurd hok hr

end NexusVM
