import NexusVM.SnapshotReaders

/-!
# Restoring a snapshot

* `SnapshotOf`, `snapshotCreate_spec`: what a snapshot leaves behind;
* `misreadSize`, `SeeksRight`, `misreadSize_eq`: what `checkpoint_restore_memory` takes for the size of
  the device section, and when that leads to the regions all the same;
* `RegionsLaid`: how the memory of a VM should lie;
* **`snapshot_restores`**: where both hold, a restore gives everything back.
-/

namespace NexusVM

open Prog Stdio

variable {h h₁ h₂ h' : Host} {a : Addr} {v w : Nexusvm} {f pos : ℕ} {path : String}
  {file : List UInt8}

/-! ## Snapshots -/

/-- The state after a snapshot of the VM at `a`. -/
structure SnapshotOf (h : Host) (a : Addr) (v : Nexusvm) (path : String) (h₁ : Host) : Prop where
  vms : h₁.vms = Function.update h.vms a (some { v with state := .running })
  vcpus : h₁.vcpus = h.vcpus
  tables : h₁.mem.tables = h.mem.tables ∧ h₁.mem.abi = h.mem.abi
  live : h₁.mem.heap.live = h.mem.heap.live
  ram : h₁.mem.ram = h.mem.ram
  room : v.memoryRegionCount.toNat ≤ v.memoryRegions.length
  exist : ∀ c ∈ v.vcpus, ∃ u, h.vcpus c = some u
  translated : ∀ r ∈ v.regions, Translated h a r
  quiet : h₁.disk.Quiet
  file : ∃ header, h₁.disk.files path = some (checkpointImage h a v header)

theorem sameEpt_setVm (hv : h.vms a = some v) (hroot : w.eptRoot = v.eptRoot) :
    SameEpt a h (h.setVm a (some w)) ∧ SameEpt a (h.setVm a (some w)) h := by
  refine ⟨⟨fun v' hv' => ?_, ⟨rfl, rfl⟩, fun _ => id⟩, ⟨fun w' hw' => ?_, ⟨rfl, rfl⟩, fun _ => id⟩⟩
  · rw [hv] at hv'
    cases hv'
    exact ⟨w, Function.update_self _ _ _, hroot⟩
  · rw [Host.setVm_vms, Function.update_self] at hw'
    cases hw'
    exact ⟨v, hv, hroot.symm⟩

theorem snapshotCreate_spec {timestamp : UInt64} (hq : h.disk.Quiet) (hv : h.vms a = some v) :
    wlp (snapshotCreate (some a) (some path) timestamp)
      (fun r h₁ => r = .ok → SnapshotOf h a v path h₁) h := by
  rw [snapshotCreate, wlp_bind, wlp_getVm]
  intro v' hv'
  rw [hv] at hv'
  cases hv'
  rw [wlp_bind, wlp_putVm, wlp_bind]
  obtain ⟨hs, hs'⟩ := sameEpt_setVm (w := { v with state := .suspended }) hv rfl
  refine wlp_mono (checkpointCreate_spec (h := h.setVm a (some { v with state := .suspended })) hq) ?_
  intro r h₁ hcreate
  rw [wlp_bind, wlp_when]
  refine ⟨fun hr => ?_, fun hr => ?_⟩
  · obtain ⟨v', vmName, hv', -, hle, hcs, htr, hsame, hq₁, hfile⟩ := hcreate hr
    rw [Host.setVm_vms, Function.update_self] at hv'
    cases hv'
    rw [wlp_bind, wlp_getVm]
    intro w hw
    rw [hsame.vms, Host.setVm_vms, Function.update_self] at hw
    cases hw
    rw [wlp_putVm, wlp_pure]
    refine fun _ => ⟨?_, hsame.vcpus, ⟨hsame.tables, hsame.abi⟩, hsame.live, hsame.ram, hle, hcs,
      fun r hr => (htr r hr).congr hs', hq₁,
      checkpointHeader { v with state := .suspended } timestamp vmName, ?_⟩
    · rw [Host.setVm_vms, hsame.vms, Host.setVm_vms, Function.update_idem]
    · refine hfile.trans ?_
      rw [checkpointImage, funext (regionImage_congr hs hs' rfl)]
      rfl
  · rw [wlp_pure]
    exact fun hok => absurd hok hr

/-! ## Where the second reader looks -/

/-- What `checkpoint_restore_memory` takes for the size of the device section: the base of the task register
of the last vCPU, or what lies in the same place of the configuration where there is none. -/
def misreadSize (h : Host) (v : Nexusvm) : UInt64 :=
  match v.vcpus.getLast? with
  | some c => (((h.vcpus c).map Nexusvcpu.cpuState).getD {}).tr.base
  | none => Codec.u64.decode (((vmConfigCodec.encode v.config).drop (sizeofVmConfig - sizeofCheckpointHeader)).take
      Codec.u64.size)

/-- There is nothing to restore, or the seek by this number leads to the first region. -/
def SeeksRight (h : Host) (v : Nexusvm) : Prop :=
  v.memoryRegionCount = 0 ∨ Codec.u64.size + seekOffset (misreadSize h v) =
    sizeofCheckpointHeader + (h.deviceSection v).length

open Codec in
/-- Where the base of the task register lies in the state of a vCPU. -/
theorem encode_cpuState (x : CpuState) : ∃ before after,
    cpuStateCodec.encode x = before ++ (u64.encode x.tr.base ++ after) ∧
      before.length + sizeofCheckpointHeader = sizeofCpuState := by
  refine ⟨guestGprsCodec.encode x.gprs ++ (guestControlRegsCodec.encode x.cr ++
    (guestDebugRegsCodec.encode x.dr ++ (guestMsrsCodec.encode x.msrs ++
    (segmentRegCodec.encodeList [x.cs, x.ds, x.es, x.fs, x.gs, x.ss] ++
    (u16.encode x.tr.selector ++ (pad 6).encode ()))))), u32.encode x.tr.limit ++
    (u32.encode x.tr.attributes ++ (segmentRegCodec.encodeList [x.ldt, x.gdtBase, x.idtBase] ++
    u64.encodeList [x.gdtrLimit, x.idtrLimit, x.pendingExceptions, x.activeEvents,
      x.interruptibilityState])), ?_, ?_⟩
  · have hsplit : [x.cs, x.ds, x.es, x.fs, x.gs, x.ss, x.tr, x.ldt, x.gdtBase, x.idtBase] =
        [x.cs, x.ds, x.es, x.fs, x.gs, x.ss] ++ x.tr :: [x.ldt, x.gdtBase, x.idtBase] := rfl
    change _ ++ (_ ++ (_ ++ (_ ++ (segmentRegCodec.encodeList [x.cs, x.ds, x.es, x.fs, x.gs, x.ss,
      x.tr, x.ldt, x.gdtBase, x.idtBase] ++ _)))) = _
    rw [hsplit, encodeList_append, encodeList_cons]
    change _ ++ (_ ++ (_ ++ (_ ++ ((_ ++ ((u16.encode x.tr.selector ++ ((pad 6).encode () ++
      (u64.encode x.tr.base ++ (u32.encode x.tr.limit ++ u32.encode x.tr.attributes)))) ++ _)) ++
      _)))) = _
    simp only [List.append_assoc]
    rfl
  · simp only [List.length_append, length_encode, length_encodeList]
    rfl

/-- **The size is misread** a header's length before the end of the states. -/
theorem misreadSize_eq (h : Host) (v : Nexusvm) :
    Codec.u64.decode (((stateImage h v).drop ((stateImage h v).length - sizeofCheckpointHeader)).take
      Codec.u64.size) = misreadSize h v := by
  rw [misreadSize]
  cases hlast : v.vcpus.getLast? with
  | none =>
    have himage : stateImage h v = vmConfigCodec.encode v.config := by
      rw [stateImage, List.getLast?_eq_none_iff.mp hlast]
      exact List.append_nil _
    rw [himage, vmConfigCodec.length_encode]
    rfl
  | some c =>
    obtain ⟨cs, hcs⟩ := List.getLast?_eq_some_iff.mp hlast
    obtain ⟨before, after, hencode, hlen⟩ := encode_cpuState (((h.vcpus c).map Nexusvcpu.cpuState).getD {})
    have himage : stateImage h v = (vmConfigCodec.encode v.config ++
        cpuStateCodec.encodeList (h.cpuStates cs) ++ before) ++
          (Codec.u64.encode (((h.vcpus c).map Nexusvcpu.cpuState).getD {}).tr.base ++ after) := by
      rw [stateImage, hcs, Host.cpuStates, List.map_append, Codec.encodeList_append]
      simp only [List.map_cons, List.map_nil, Codec.encodeList_cons, Codec.encodeList_nil, hencode,
        List.append_nil, List.append_assoc, Host.cpuStates]
    have hrest : (Codec.u64.encode (((h.vcpus c).map Nexusvcpu.cpuState).getD {}).tr.base ++ after).length =
        sizeofCheckpointHeader := by
      have := cpuStateCodec.length_encode (((h.vcpus c).map Nexusvcpu.cpuState).getD {})
      rw [hencode, List.length_append, size_codecs.1] at this
      omega
    rw [himage, List.length_append, hrest, Nat.add_sub_cancel, List.drop_left, Codec.take_encode,
      Codec.decode_encode_self]

variable {header : CheckpointHeader}

theorem drop_checkpointImage : (checkpointImage h a v header).drop
    (sizeofCheckpointHeader + (stateImage h v).length + (h.deviceSection v).length) =
      v.regions.flatMap (regionImage h a) := by
  rw [checkpointImage]
  refine List.drop_left' ?_
  rw [List.length_append, List.length_append, Codec.length_encode]
  rfl

theorem misread_checkpointImage : ((checkpointImage h a v header).drop (stateImage h v).length).take
    Codec.u64.size = ((stateImage h v).drop
      ((stateImage h v).length - sizeofCheckpointHeader)).take Codec.u64.size := by
  have hle : sizeofCheckpointHeader ≤ (stateImage h v).length := by
    rw [length_stateImage]
    exact Nat.le_trans (by decide) (Nat.le_add_right _ _)
  have hheader : (checkpointHeaderCodec.encode header).length = sizeofCheckpointHeader :=
    checkpointHeaderCodec.length_encode _
  have hsplit : (stateImage h v).length = sizeofCheckpointHeader +
      ((stateImage h v).length - sizeofCheckpointHeader) := by omega
  rw [checkpointImage, List.append_assoc, List.append_assoc]
  nth_rewrite 1 [hsplit]
  rw [← List.drop_drop, List.drop_left' hheader, List.drop_append_of_le_length (Nat.sub_le _ _),
    List.take_append_of_le_length]
  rw [List.length_drop, Nat.sub_sub_self hle]
  decide

theorem regionsSought_checkpointImage {stale : ℕ → ℕ → UInt8} (hcount : v.vcpus.length = v.vcpuCount.toNat)
    (hright : Codec.u64.size + seekOffset (misreadSize h v) =
      sizeofCheckpointHeader + (h.deviceSection v).length) :
    (checkpointImage h a v header).drop (regionsSought stale (checkpointImage h a v header) v) =
      v.regions.flatMap (regionImage h a) := by
  have hsize : sizeSought v = (stateImage h v).length := by
    rw [sizeSought, length_stateImage, hcount]
  rw [regionsSought, hsize, pastDevices_of_whole
    (p := sizeofCheckpointHeader + (stateImage h v).length + (h.deviceSection v).length) ?_ ?_,
    drop_checkpointImage]
  · rw [checkpointImage, List.length_append, List.length_append, List.length_append, Codec.length_encode]
    have hheader : 8 ≤ checkpointHeaderCodec.size := by decide
    omega
  · have hsize : (8 : ℤ) = (Codec.u64.size : ℕ) := rfl
    rw [show 8 = Codec.u64.size from rfl, misread_checkpointImage, misreadSize_eq]
    push_cast
    omega

/-! ## Regions -/

/-- The regions of the VM at `a`, with what is in them. -/
def Host.savedRegions (h : Host) (a : Addr) (v : Nexusvm) : List (MemoryRegion × List UInt8) :=
  v.regions.map fun r => (r, regionData h a r)

/-- How the memory of the VM lies: what is saved and restored for a region is memory of the VM; every address of
a region can be translated; and where it is mapped, it leads to a byte that is saved for some region. -/
structure RegionsLaid (h : Host) (a : Addr) (v : Nexusvm) : Prop where
  own : ∀ r ∈ v.regions, ∀ p, h.regionBase a r = some p → v.Holds h.mem p.toNat r.size.toNat
  walks : ∀ r ∈ v.regions, r.type = .ram → ∀ gpa, r.Contains gpa →
    ∃ hpa, (vmGpaToHpa (some a) gpa).run h = some (hpa, h)
  covered : ∀ r ∈ v.regions, r.type = .ram → ∀ gpa q, r.Contains gpa → h.translate a gpa = some q →
    ∃ r' ∈ v.regions, ∃ p, h.regionBase a r' = some p ∧ p.toNat ≤ q.toNat ∧ q.toNat < p.toNat + r'.size.toNat

theorem regionsImage_savedRegions : regionsImage (h.savedRegions a v) = v.regions.flatMap (regionImage h a) := by
  rw [regionsImage, Host.savedRegions, List.flatMap_map]
  rfl

theorem regionData_of_base {r : MemoryRegion} {p : UInt64} (hp : h.regionBase a r = some p) :
    regionData h a r = h.ramBytes p.toNat r.size.toNat := by
  rw [Host.regionBase] at hp
  split_ifs at hp with hram
  rw [regionData, if_pos hram, hp]

theorem regionData_of_none {r : MemoryRegion} (hp : h.regionBase a r = none) : regionData h a r = [] := by
  rw [Host.regionBase] at hp
  rw [regionData]
  split_ifs at hp ⊢
  · rw [hp]
  · rfl

theorem savedRegion_of_laid (hlaid : RegionsLaid h a v) (ht : ∀ r ∈ v.regions, Translated h a r) :
    ∀ x ∈ h.savedRegions a v, SavedRegion h a v x := by
  intro x hx
  obtain ⟨r, hr, rfl⟩ := List.mem_map.mp hx
  refine ⟨ht r hr, regionData_of_none, fun p hp => ?_, hlaid.own r hr⟩
  rw [regionData_of_base hp, length_ramBytes]

/-! ## Round trips -/

/-- What may have happened since a snapshot of the VM at `a`: its vCPUs and its memory may be in any
state. It has the same vCPUs, the same regions and the same page tables, and the snapshot is there. -/
structure Later (a : Addr) (v : Nexusvm) (path : String) (h₁ h₂ : Host) : Prop where
  vm : ∃ w, h₂.vms a = some w ∧ w.vcpus = v.vcpus ∧ w.vcpuCount = v.vcpuCount ∧
    w.memoryRegionCount = v.memoryRegionCount ∧ w.memoryRegions = v.memoryRegions
  vcpus : ∀ c ∈ v.vcpus, ∃ u, h₂.vcpus c = some u
  ept : SameEpt a h₁ h₂
  live : ∀ b ∈ v.blocks, b ∈ h₁.mem.heap.live → b ∈ h₂.mem.heap.live
  quiet : h₂.disk.Quiet
  file : h₂.disk.files path = h₁.disk.files path

/-- The vCPUs of the VM at `a` are in the states in which they were in `h`, and every address of its RAM finds
what it found there. -/
structure GivenBack (h h₃ : Host) (a : Addr) (v : Nexusvm) : Prop where
  states : ∀ c ∈ v.vcpus, (h₃.vcpus c).map Nexusvcpu.cpuState = (h.vcpus c).map Nexusvcpu.cpuState
  ram : ∀ r ∈ v.regions, r.type = .ram → ∀ gpa, r.Contains gpa → h₃.guestByte a gpa = h.guestByte a gpa

theorem translate_keep (hs : SameEpt a h h') {gpa hpa : UInt64}
    (hrun : (vmGpaToHpa (some a) gpa).run h = some (hpa, h)) : h'.translate a gpa = h.translate a gpa := by
  rw [translate_of_run hrun, translate_of_run (vmGpaToHpa_readsOnly a gpa h h' hs hpa h hrun).2]

theorem SnapshotOf.sameGround (hs : SnapshotOf h a v path h₁) (hv : h.vms a = some v)
    (hlater : Later a v path h₁ h₂) : SameGround h a v h₂ := by
  have hept : SameEpt a h h₁ := by
    refine ⟨fun v' hv' => ⟨{ v with state := .running }, ?_, ?_⟩, hs.tables, fun t ht => ?_⟩
    · rw [hs.vms, Function.update_self]
    · rw [hv] at hv'
      cases hv'
      rfl
    · obtain ⟨b, hb, hrest⟩ := ht
      exact ⟨b, hs.live.symm ▸ hb, hrest⟩
  obtain ⟨w, hw, -, -, hcount, hregions⟩ := hlater.vm
  refine ⟨hept.trans hlater.ept, ⟨w, hw, ?_⟩, fun b hb hl => hlater.live b hb (hs.live ▸ hl)⟩
  rw [Nexusvm.blocks, Nexusvm.blocks, hcount, hregions]

theorem states_of_checkpointImage {stale : ℕ → ℕ → UInt8} (hcs : ∀ c ∈ v.vcpus, ∃ u, h.vcpus c = some u)
    {k : ℕ} {c : Addr} (hk : v.vcpus[k]? = some c) :
    (h.vcpus c).map Nexusvcpu.cpuState = some (fileState stale (checkpointImage h a v header) k) := by
  obtain ⟨hlt, hget⟩ := List.getElem?_eq_some_iff.mp hk
  obtain ⟨u, hu⟩ := hcs c (List.mem_of_getElem? hk)
  have hsections : checkpointHeaderCodec.encode header ++ (vmConfigCodec.encode v.config ++
      (cpuStateCodec.encodeList (h.cpuStates v.vcpus) ++ (h.deviceSection v ++
        v.regions.flatMap (regionImage h a)))) <+: checkpointImage h a v header := by
    simp [checkpointImage, stateImage]
  have hlen : k < (h.cpuStates v.vcpus).length := by
    rw [Host.cpuStates, List.length_map]
    exact hlt
  have hstate : (h.cpuStates v.vcpus)[k]? = some (fileState stale (checkpointImage h a v header) k) :=
    fileState_of_prefix (checkpointHeaderCodec.length_encode header) (vmConfigCodec.length_encode v.config)
      hsections hlen
  rw [← hstate, Host.cpuStates, List.getElem?_map, hk, hu, Option.map_some, Option.map_some, hu]
  rfl

/-- **A snapshot is restored** where the seek goes right and the regions are the VM's own memory: whatever has
happened since to the states of the vCPUs and to the memory, both are given back, unless a file cannot be
opened. -/
theorem snapshot_restores (hq : h.disk.Quiet) (hv : h.vms a = some v) (hvcpus : HasVcpus h v)
    {timestamp : UInt64}
    (hcreate : (snapshotCreate (some a) (some path) timestamp).run h = some (.ok, h₁))
    (hright : SeeksRight h v) (hlaid : RegionsLaid h a v) (hlater : Later a v path h₁ h₂)
    (stale staleMemory : ℕ → ℕ → UInt8) :
    wp (snapshotRestore stale staleMemory (some a) (some path)) (fun r h₃ =>
      ((∀ k, h₂.disk.opens k) → r = .ok) ∧ (r = .ok → GivenBack h h₃ a v)) h₂ := by
  have hsnap := snapshotCreate_spec hq hv _ _ hcreate rfl
  have hground := hsnap.sameGround hv hlater
  obtain ⟨header, hfile⟩ := hsnap.file
  rw [← hlater.file] at hfile
  obtain ⟨w, hw, hcs, hcount, hregions, -⟩ := hlater.vm
  rcases snapshotRestore_states hlater.quiet.pending hfile hw (hcs ▸ hlater.vcpus) stale staleMemory with
    ⟨hclosed, d, hrun⟩ | ⟨hopen, h₃, hstates, hrun⟩
  · exact wp_of_run hrun ⟨fun ho => absurd (ho _) hclosed, nofun⟩
  suffices hrest : wp (checkpointRestoreMemory staleMemory (some a) (some path)) (fun r h₄ =>
      ((∀ k, h₂.disk.opens k) → r = .ok) ∧ (r = .ok → GivenBack h h₄ a v)) h₃ by
    obtain ⟨r, h₄, hrun', hend⟩ := hrest
    exact wp_of_run (hrun.trans hrun') hend
  by_cases hagain : h₃.disk.opens h₃.disk.calls
  swap
  · refine wp_mono (checkpointRestoreMemory_closed _ a hstates.idle hstates.file hagain) ?_
    rintro r h₄ ⟨hne, -⟩
    refine ⟨fun ho => absurd ?_ hagain, fun hok => absurd hok hne⟩
    rw [hstates.after.opens]
    exact ho _
  have hlength : v.memoryRegionCount.toNat = (h.savedRegions a v).length := by
    rw [Host.savedRegions, List.length_map, Nexusvm.regions, List.length_take, Nat.min_eq_left hsnap.room]
  have hfound : h.savedRegions a v = [] ∨ regionsImage (h.savedRegions a v) <+:
      (checkpointImage h a v header).drop (regionsSought staleMemory (checkpointImage h a v header) v) := by
    rcases hright with hnone | hright
    · refine .inl (List.eq_nil_of_length_eq_zero ?_)
      rw [← hlength, hnone]
      rfl
    · rw [regionsSought_checkpointImage hvcpus.count hright, regionsImage_savedRegions]
      exact .inr List.prefix_rfl
  have hground₃ := hground.of_eq hstates.vms hstates.mem
  have hw₃ : h₃.vms a = some w := by
    rw [hstates.vms]
    exact hw
  refine wp_mono (checkpointRestoreMemory_found (savedRegion_of_laid hlaid hsnap.translated) hlength hground₃ hw₃
    hcount hregions hstates.idle hstates.file hagain hfound) ?_
  rintro r h₄ ⟨rfl, hvms₄, hvcpus₄, hmem₄⟩
  refine ⟨fun _ => rfl, fun _ => ⟨fun c hc => ?_, fun r hr hram gpa hin => ?_⟩⟩
  · obtain ⟨k, hk, hstate⟩ := hstates.states c (hcs ▸ hc)
    rw [hvcpus₄, hstate, states_of_checkpointImage hvcpus.vcpus (hcs ▸ hk)]
  · obtain ⟨hpa, hrun'⟩ := hlaid.walks r hr hram gpa hin
    have hept₄ := (hground₃.putAll hvms₄ hmem₄).ept
    rw [Host.guestByte, Host.guestByte, translate_keep hept₄ hrun']
    cases htr : h.translate a gpa with
    | none => rfl
    | some q =>
      -- the byte is one of those that are stored
      obtain ⟨r', hr', p, hp, hlo, hhi⟩ := hlaid.covered r hr hram gpa q hin htr
      rw [Option.map_some, Option.map_some, hmem₄]
      refine congrArg some (PhysMem.putAll_ramBytes _ h (fun s hs => ?_) (.inl ⟨(p.toNat, regionData h a r'), ?_,
        hlo, ?_⟩))
      · obtain ⟨x, hx, p', hp', rfl⟩ := Host.mem_stores.mp hs
        obtain ⟨r'', -, rfl⟩ := List.mem_map.mp hx
        rw [regionData_of_base hp', length_ramBytes]
      · exact Host.mem_stores.mpr ⟨_, List.mem_map_of_mem hr', p, hp, rfl⟩
      · rw [regionData_of_base hp, length_ramBytes]
        exact hhi

instance : Decidable (SeeksRight h v) := inferInstanceAs (Decidable (_ ∨ _))

/-- A vCPU whose task register leads the second reader to the regions. -/
def aimedVcpu : Nexusvcpu := { vm := 8192, cpuState := { tr := { base := 132 } } }

/-- A VM with that vCPU and 16 bytes of memory. -/
def aimedVm : Nexusvm where
  vcpus := [12288]
  vcpuCount := 1
  eptRoot := some 1048576
  memoryRegions := [{ hostPhys := 1064960, size := 16 }]
  memoryRegionCount := 1

/-- That VM; every page of the guest leads to the page behind the last of the four tables. -/
def aimedHost : Host :=
  (((bootHost 1 .intel).setMem { bumpMem with
      heap := { bumpHeap with live := [⟨.pages, 1048576, 16384⟩, ⟨.pages, 1064960, 4096⟩] }
      tables := fun b _ => { present := true, physicalAddress := BitVec.ofNat 40 (b / 4096 + 1) }
      ram := fun b => if b = 1064960 then 7 else 0 }).setVcpu 12288 (some aimedVcpu)).setVm 8192
    (some aimedVm)

/-- The guest has run on: its vCPU and its memory are cleared. -/
def cleared (h : Host) : Host :=
  (h.setVcpu 12288 (some { vm := 8192 })).setMem { h.mem with ram := fun _ => 0 }

theorem later_cleared (hs : SnapshotOf h 8192 v path h₁) (hv : v.vcpus = [12288]) :
    Later 8192 v path h₁ (cleared h₁) := by
  refine ⟨⟨{ v with state := .running }, ?_, rfl, rfl, rfl, rfl⟩, fun c hc => ?_, ?_, fun _ _ => id, hs.quiet,
    rfl⟩
  · change h₁.vms 8192 = _
    rw [hs.vms, Function.update_self]
  · rw [hv, List.mem_singleton] at hc
    rw [hc]
    exact ⟨{ vm := 8192 }, Function.update_self 12288 _ h₁.vcpus⟩
  · exact ⟨fun v hv => ⟨v, hv, rfl⟩, ⟨rfl, rfl⟩, fun _ => id⟩

theorem regionsLaid_aimed : RegionsLaid aimedHost 8192 aimedVm := by
  have hregions : aimedVm.regions = [{ hostPhys := 1064960, size := 16 }] := rfl
  have hbytes : ∀ k < 16, (((vmGpaToHpa (some 8192) (UInt64.ofNat k)).run aimedHost).map Prod.fst) =
      some (UInt64.ofNat (1064960 + k)) := by decide +kernel
  have hrun : ∀ k < 16, (vmGpaToHpa (some 8192) (UInt64.ofNat k)).run aimedHost =
      some (UInt64.ofNat (1064960 + k), aimedHost) := by
    intro k hk
    obtain ⟨⟨hpa, t⟩, hrun, rfl⟩ := Option.map_eq_some_iff.mp (hbytes k hk)
    obtain ⟨rfl, -⟩ := vmGpaToHpa_readsOnly _ _ _ _ (SameEpt.refl _ _) _ _ hrun
    exact hrun
  have hbase : ∀ r ∈ aimedVm.regions, aimedHost.regionBase 8192 r = some 1064960 := by
    rw [hregions]
    decide +kernel
  refine ⟨fun r hr p hp => ?_, fun r hr _ gpa hin => ?_, fun r hr _ gpa q hin hq => ?_⟩
  · rw [hbase r hr] at hp
    cases hp
    rw [hregions, List.mem_singleton] at hr
    rw [hr]
    decide +kernel
  · rw [hregions, List.mem_singleton] at hr
    obtain ⟨k, hk, rfl⟩ := hin
    rw [hr] at hk ⊢
    rw [UInt64.zero_add]
    exact ⟨_, hrun k hk⟩
  · have hr' := hr
    rw [hregions, List.mem_singleton] at hr'
    obtain ⟨k, hk, rfl⟩ := hin
    refine ⟨r, hr, 1064960, hbase r hr, ?_⟩
    rw [hr'] at hk hq ⊢
    have hk' : k < 16 := hk
    rw [UInt64.zero_add, translate_of_run (hrun k hk')] at hq
    split_ifs at hq
    obtain rfl := Option.some.inj hq
    rw [UInt64.toNat_ofNat_of_lt' (show 1064960 + k < 2 ^ 64 by omega)]
    exact ⟨Nat.le_add_right _ k, Nat.add_lt_add_left hk _⟩

theorem snapshot_restores_aimed : ∃ h₁, (snapshotCreate (some 8192) (some "vm.snap") 0).run aimedHost =
      some (.ok, h₁) ∧
    wp (snapshotRestore (fun _ _ => 0) (fun _ _ => 0) (some 8192) (some "vm.snap")) (fun r h₃ =>
      ((∀ k, (cleared h₁).disk.opens k) → r = .ok) ∧ (r = .ok → GivenBack aimedHost h₃ 8192 aimedVm))
      (cleared h₁) := by
  have hres : ((snapshotCreate (some 8192) (some "vm.snap") 0).run aimedHost).any
      (fun p => p.1 = .ok) = true := by decide +kernel
  obtain ⟨⟨r, h₁⟩, hrun, hr⟩ := (Option.any_eq_true _ _).mp hres
  obtain rfl := of_decide_eq_true hr
  have hq : aimedHost.disk.Quiet := quiet_bootHost 1 .intel
  have hv : aimedHost.vms 8192 = some aimedVm := rfl
  have hvcpus : HasVcpus aimedHost aimedVm := ⟨rfl, List.forall_mem_singleton.mpr ⟨aimedVcpu, rfl⟩⟩
  have hright : SeeksRight aimedHost aimedVm := by decide +kernel
  have hlater : Later 8192 aimedVm "vm.snap" h₁ (cleared h₁) :=
    later_cleared (snapshotCreate_spec hq hv _ _ hrun rfl) rfl
  exact ⟨h₁, hrun, snapshot_restores hq hv hvcpus hrun hright regionsLaid_aimed hlater _ _⟩

/-- **A good snapshot is not restored.** -/
theorem snapshot_loses_memory : (bootHost 1 .intel).disk.Quiet ∧ ∃ h₀ h h' h₁ h₂ h₃ v,
    (runOps HvOp.run [.create { vcpuCount := 1, memoryRegionCount := 1 }]).run (bootHost 1 .intel) =
      some ((), h₀) ∧
      (vmAllocMemory (some 16384) 0 16 .ram).run h₀ = some (.ok, h') ∧
      (writeRam 196608 [1]).run h' = some ((), h) ∧
      (snapshotCreate (some 16384) (some "vm.snap") 0).run h = some (.ok, h₁) ∧
      (writeRam 196608 [9]).run h₁ = some ((), h₂) ∧
      (snapshotRestore (fun _ _ => 0) (fun _ _ => 0) (some 16384) (some "vm.snap")).run h₂ =
        some (.ok, h₃) ∧
      h.vms 16384 = some v ∧ ¬ GivenBack h h₃ 16384 v := by
  have hres : ((runOps HvOp.run [.create { vcpuCount := 1, memoryRegionCount := 1 }]).run
      (bootHost 1 .intel)).any (fun p => ((vmAllocMemory (some 16384) 0 16 .ram).run p.2).any fun q =>
        q.1 = .ok && ((writeRam 196608 [1]).run q.2).any fun w =>
          ((snapshotCreate (some 16384) (some "vm.snap") 0).run w.2).any fun c =>
            c.1 = .ok && ((writeRam 196608 [9]).run c.2).any fun x =>
              ((snapshotRestore (fun _ _ => 0) (fun _ _ => 0) (some 16384) (some "vm.snap")).run
                x.2).any fun y => y.1 = .ok && (w.2.vms 16384).any fun v => v.regions.any fun r =>
                  r.type = .ram && r.guestPhys = 0 && r.size.toNat = 16 &&
                    w.2.translate 16384 0 = some 196608 && w.2.guestByte 16384 0 = some 1 &&
                      y.2.guestByte 16384 0 = some 9) = true := by decide +kernel
  obtain ⟨⟨⟨⟩, h₀⟩, hvm, hres⟩ := (Option.any_eq_true _ _).mp hres
  simp only [Bool.and_eq_true, Option.any_eq_true, List.any_eq_true, decide_eq_true_eq] at hres
  obtain ⟨⟨_, h'⟩, halloc, rfl, ⟨⟨⟩, h⟩, hwrite, ⟨_, h₁⟩, hcreate, rfl, ⟨⟨⟩, h₂⟩, hwrite', ⟨_, h₃⟩,
    hrestore, rfl, v, hv, r, hr, ⟨⟨⟨⟨hram, hbase⟩, hsize⟩, htr⟩, hbefore⟩, hafter⟩ := hres
  refine ⟨quiet_bootHost 1 .intel, h₀, h, h', h₁, h₂, h₃, v, hvm, halloc, hwrite, hcreate, hwrite',
    hrestore, hv, fun hback => ?_⟩
  have hsame := hback.ram r hr hram 0 ⟨0, by omega, by rw [hbase]; rfl⟩
  rw [hbefore, hafter] at hsame
  cases hsame

end NexusVM
