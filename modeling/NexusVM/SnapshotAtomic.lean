import NexusVM.Regions
import NexusVM.RestoreOutcome
import NexusVM.Snapshot

/-!
# All or nothing of a snapshot

What `snapshot_restore` makes of any file.

* `Sections`, `Sections.Of`, `RestoresAtomically`: complete checkpoints of a VM, and how a file should
  be met;
* `AtomicWhere`, `SeeksRegions`, `RegionsApart`: when a file is met so;
* `Sections.regionsSought`, `holdsContents_stores`: what a complete checkpoint leads to;
* **`restores_atomically_where`**: when a restore is all or nothing.
-/

namespace NexusVM

open Prog Stdio

variable {h h' h₁ : Host} {a : Addr} {v : Nexusvm} {path : String} {file : List UInt8}
  {stale staleMemory : ℕ → ℕ → UInt8}

/-! ## Complete checkpoints -/

/-- What a checkpoint holds; `contents` has an entry for each region. -/
structure Sections where
  header : CheckpointHeader
  config : VmConfig
  states : List CpuState
  devices : List UInt8
  contents : List (List UInt8)

/-- The file with these sections, for the regions `rs`. -/
def Sections.image (s : Sections) (rs : List MemoryRegion) : List UInt8 :=
  checkpointHeaderCodec.encode s.header ++ (vmConfigCodec.encode s.config ++
    (cpuStateCodec.encodeList s.states ++ (Codec.u64.encode (UInt64.ofNat s.devices.length) ++
      (s.devices ++ (rs.zip s.contents).flatMap fun x => regionRecordCodec.encode x.1.record ++ x.2))))

/-- The sections are those of a checkpoint of the VM at `a`: the magic is the one that
`checkpoint_create` writes, there are as many vCPUs, and mapped memory has its contents. -/
structure Sections.Of (s : Sections) (h : Host) (a : Addr) (v : Nexusvm) : Prop where
  magic : s.header.magic = #v[0x4E, 0x58, 0x56, 0x4D, 0x43, 0x48, 0x4B, 0x50]
  vcpuCount : s.header.vcpuCount = v.vcpuCount
  regionCount : s.header.memoryRegions = v.memoryRegionCount
  configured : s.config.vcpuCount = v.vcpuCount
  states : s.states.length = v.vcpuCount.toNat
  devices : s.devices.length < 2 ^ 64
  contents : s.contents.map List.length = v.regions.map fun r => (regionData h a r).length

/-- The VM at `a` finds these contents in its regions. -/
def HoldsContents (h : Host) (a : Addr) (rs : List MemoryRegion) (contents : List (List UInt8)) : Prop :=
  ∀ x ∈ rs.zip contents, ∀ k < x.2.length,
    h.guestByte a (x.1.guestPhys + UInt64.ofNat k) = x.2[k]?

/-- Every vCPU of the VM at `a` is in its state, and every region has its contents. -/
structure Sections.RestoredIn (s : Sections) (h : Host) (a : Addr) (v : Nexusvm) : Prop where
  states : ∀ (k : ℕ) (c : Addr), v.vcpus[k]? = some c → (h.vcpus c).map Nexusvcpu.cpuState = s.states[k]?
  contents : HoldsContents h a v.regions s.contents

/-- The states of the vCPUs and the memory of the VM at `a` are as before. -/
structure SameContents (h h' : Host) (a : Addr) (v : Nexusvm) : Prop where
  states : ∀ c ∈ v.vcpus, (h'.vcpus c).map Nexusvcpu.cpuState = (h.vcpus c).map Nexusvcpu.cpuState
  ram : ∀ gpa, h'.guestByte a gpa = h.guestByte a gpa

/-- `snapshot_restore` returns; either it succeeds, the file is a complete checkpoint of the VM and all
of it is restored, or it fails and nothing has changed. -/
def RestoresAtomically (stale staleMemory : ℕ → ℕ → UInt8) (path : String) (file : List UInt8) (h : Host)
    (a : Addr) (v : Nexusvm) : Prop :=
  ∃ r h', (snapshotRestore stale staleMemory (some a) (some path)).run h = some (r, h') ∧
    ((r = .ok ∧ ∃ s : Sections, s.Of h a v ∧ s.image v.regions <+: file ∧ s.RestoredIn h' a v) ∨
      (r ≠ .ok ∧ SameContents h h' a v))

/-- A VM with all its vCPUs. -/
structure InPlace (h : Host) (a : Addr) (v : Nexusvm) : Prop extends HasVcpus h v where
  vm : h.vms a = some v
  nodup : v.vcpus.Nodup

theorem MemoryInv.inPlace (hi : MemoryInv h) (hv : h.vms a = some v) : InPlace h a v := by
  have hl := hi.hv.good.layout
  exact ⟨hl.hasVcpus trivial hv, hv, hl.nodup a v trivial hv⟩

theorem InPlace.setDisk (hp : InPlace h a v) (d : Disk) : InPlace (h.setDisk d) a v :=
  ⟨⟨hp.count, hp.vcpus⟩, hp.vm, hp.nodup⟩

/-! ## When a restore is all or nothing -/

/-- The first call of `fopen` fails; or it succeeds, the second fails, and the file says of each vCPU the state
in which it is; or both succeed, and the file is a complete checkpoint of the VM of which `P` holds. -/
def AtomicWhere (P : Sections → Prop) (stale : ℕ → ℕ → UInt8) (file : List UInt8) (h : Host) (a : Addr)
    (v : Nexusvm) : Prop :=
  if h.disk.opens h.disk.calls then
    if h.disk.opens (h.disk.calls + v.vcpus.length + 6) then
      ∃ s : Sections, s.Of h a v ∧ s.image v.regions <+: file ∧ P s
    else ∀ (k : ℕ) (c : Addr), v.vcpus[k]? = some c →
      (h.vcpus c).map Nexusvcpu.cpuState = some (fileState stale file k)
  else True

/-- There is nothing to restore, or the 8 bytes where the second reader takes the size of the device section
from lead to the regions. -/
def SeeksRegions (file : List UInt8) (v : Nexusvm) (s : Sections) : Prop :=
  v.memoryRegionCount = 0 ∨ seekOffset (Codec.u64.decode ((file.drop (sizeSought v)).take 8)) =
    sizeofCheckpointHeader + s.devices.length

/-- Mapped memory of the VM lies in one piece for each region, in blocks that are allocated for the VM, and
no two pieces meet. -/
structure RegionsApart (h : Host) (a : Addr) (v : Nexusvm) : Prop where
  room : v.memoryRegionCount.toNat ≤ v.memoryRegions.length
  translated : ∀ r ∈ v.regions, Translated h a r
  own : ∀ r ∈ v.regions, ∀ p, h.regionBase a r = some p → v.Holds h.mem p.toNat r.size.toNat
  inOnePiece : ∀ r ∈ v.regions, ∀ p, h.regionBase a r = some p → ∀ k < r.size.toNat, ∃ q : UInt64,
    (vmGpaToHpa (some a) (r.guestPhys + UInt64.ofNat k)).run h = some (q, h) ∧ q ≠ INVALID_PHYS_ADDR ∧
      q.toNat = p.toNat + k
  apart : v.regions.Pairwise fun r r' => ∀ p p', h.regionBase a r = some p → h.regionBase a r' = some p' →
    p.toNat + r.size.toNat ≤ p'.toNat ∨ p'.toNat + r'.size.toNat ≤ p.toNat

/-! ## What a complete checkpoint leads to -/

theorem Sections.fileState {s : Sections} {rs : List MemoryRegion} (hfile : s.image rs <+: file) {k : ℕ}
    (hk : k < s.states.length) : s.states[k]? = some (fileState stale file k) :=
  fileState_of_prefix (checkpointHeaderCodec.length_encode _) (vmConfigCodec.length_encode _) hfile hk

theorem Sections.regionsSought {s : Sections} (hof : s.Of h a v) (hfile : s.image v.regions <+: file)
    (hseek : seekOffset (Codec.u64.decode ((file.drop (sizeSought v)).take 8)) =
      sizeofCheckpointHeader + s.devices.length) :
    regionsImage (v.regions.zip s.contents) <+: file.drop (regionsSought stale file v) := by
  have hbefore : (checkpointHeaderCodec.encode s.header ++ (vmConfigCodec.encode s.config ++
      (cpuStateCodec.encodeList s.states ++ (Codec.u64.encode (UInt64.ofNat s.devices.length) ++
        s.devices)))).length = sizeofCheckpointHeader + sizeSought v + 8 + s.devices.length := by
    simp only [List.length_append, Codec.length_encode, Codec.length_encodeList, hof.states, sizeSought]
    rw [show checkpointHeaderCodec.size = sizeofCheckpointHeader from rfl,
      show vmConfigCodec.size = sizeofVmConfig from rfl, size_codecs.1, show Codec.u64.size = 8 from rfl]
    omega
  rw [image] at hfile
  simp only [← List.append_assoc] at hfile hbefore
  have hlen := hfile.length_le
  have hregions := prefix_drop hfile
  rw [hbefore] at hregions
  rw [List.length_append, hbefore] at hlen
  rwa [NexusVM.regionsSought, pastDevices_of_whole (p := sizeofCheckpointHeader + sizeSought v + 8 +
    s.devices.length) (by omega) (by push_cast; omega)]

theorem Sections.Of.contents_length {s : Sections} (hof : s.Of h a v) {x : MemoryRegion × List UInt8}
    (hx : x ∈ v.regions.zip s.contents) : x.1 ∈ v.regions ∧ x.2.length = (regionData h a x.1).length := by
  obtain ⟨k, hk, rfl⟩ := List.getElem_of_mem hx
  rw [List.length_zip] at hk
  have hlen := congrArg (fun l => l[k]?) hof.contents
  simp only [List.getElem?_map] at hlen
  rw [List.getElem?_eq_getElem (by omega), List.getElem?_eq_getElem (by omega)] at hlen
  rw [List.getElem_zip]
  exact ⟨List.getElem_mem _, Option.some.inj hlen⟩

theorem Sections.savedRegion {s : Sections} (hof : s.Of h a v) (hapart : RegionsApart h a v) :
    ∀ x ∈ v.regions.zip s.contents, SavedRegion h a v x := by
  intro x hx
  obtain ⟨hr, hlen⟩ := hof.contents_length hx
  refine ⟨hapart.translated _ hr, fun hp => ?_, fun p hp => ?_, hapart.own _ hr⟩
  · rw [regionData_of_none hp] at hlen
    exact List.eq_nil_of_length_eq_zero hlen
  · rw [hlen, regionData_of_base hp, length_ramBytes]

theorem stores_apart {s : Sections} (hof : s.Of h a v) (hapart : RegionsApart h a v) :
    (h.stores a (v.regions.zip s.contents)).Pairwise fun t t' =>
      t.1 + t.2.length ≤ t'.1 ∨ t'.1 + t'.2.length ≤ t.1 := by
  have hlen := congrArg List.length hof.contents
  rw [List.length_map, List.length_map] at hlen
  have hregions := hapart.apart
  have hzip : (v.regions.zip s.contents).map Prod.fst = v.regions := List.map_fst_zip hlen.ge
  rw [← hzip, List.pairwise_map] at hregions
  rw [Host.stores, List.pairwise_filterMap]
  refine hregions.imp_of_mem fun {x x'} hx hx' hmeet t ht t' ht' => ?_
  obtain ⟨p, hp, rfl⟩ := Option.map_eq_some_iff.mp ht
  obtain ⟨p', hp', rfl⟩ := Option.map_eq_some_iff.mp ht'
  rw [(Sections.savedRegion hof hapart x hx).whole p hp, (Sections.savedRegion hof hapart x' hx').whole p' hp']
  exact hmeet p p' hp hp'

/-- **What is stored for the regions is found by the guest.** -/
theorem holdsContents_stores {s : Sections} (hof : s.Of h a v) (hapart : RegionsApart h a v)
    (hept : SameEpt a h h₁) (hmem : h₁.mem.ram = (h.mem.putAll (h.stores a (v.regions.zip s.contents))).ram) :
    HoldsContents h₁ a v.regions s.contents := by
  intro x hx k hk
  obtain ⟨hr, hlen⟩ := hof.contents_length hx
  cases hbase : h.regionBase a x.1 with
  | none =>
    rw [hlen, regionData_of_none hbase] at hk
    cases hk
  | some p =>
    rw [hlen, regionData_of_base hbase, length_ramBytes] at hk
    obtain ⟨q, hrun, hvalid, hq⟩ := hapart.inOnePiece _ hr p hbase k hk
    have hlt : k < x.2.length := by
      rw [hlen, regionData_of_base hbase, length_ramBytes]
      exact hk
    have hbyte := h.mem.putAll_of_apart (stores_apart hof hapart) (Host.mem_stores.mpr ⟨x, hx, p, hbase, rfl⟩) hlt
    rw [Host.guestByte, translate_keep hept hrun, translate_of_run hrun, if_neg hvalid, Option.map_some, hmem, hq,
      hbyte, List.getElem?_eq_getElem hlt]

theorem guestByte_congr (hvms : h'.vms = h.vms) (hmem : h'.mem = h.mem) (gpa : UInt64) :
    h'.guestByte a gpa = h.guestByte a gpa := by
  rw [Host.guestByte, Host.guestByte, translate_congr (sameEpt_of_eq hvms hmem a)
    (sameEpt_of_eq hvms.symm hmem.symm a), hmem]

/-! ## The call -/

theorem StatesRestored.opens {cs : List Addr} (hst : StatesRestored stale path file cs h h₁) :
    h₁.disk.opens h₁.disk.calls = h.disk.opens (h.disk.calls + cs.length + 6) := by
  rw [hst.after.opens, hst.after.calls, Nat.add_assoc]

theorem StatesRestored.state {cs : List Addr} (hst : StatesRestored stale path file cs h h₁) (hnodup : cs.Nodup)
    {k : ℕ} {c : Addr} (hk : cs[k]? = some c) :
    (h₁.vcpus c).map Nexusvcpu.cpuState = some (fileState stale file k) := by
  obtain ⟨j, hj, hstate⟩ := hst.states c (List.mem_of_getElem? hk)
  have hlt : k < cs.length := (List.getElem?_eq_some_iff.mp hk).1
  rwa [← (List.getElem?_inj hlt hnodup).mp (hk.trans hj.symm)] at hstate

section Restore

variable (hp : InPlace h a v) (hidle : h.disk.Idle) (hfile : h.disk.files path = some file)
  (stale staleMemory : ℕ → ℕ → UInt8)

include hp hidle hfile

theorem atomicWhere_of_restoresAtomically (hatomic : RestoresAtomically stale staleMemory path file h a v) :
    AtomicWhere (fun _ => True) stale file h a v := by
  obtain ⟨r, h', hrun, hcase⟩ := hatomic
  rcases snapshotRestore_states hidle hfile hp.vm hp.vcpus stale staleMemory with
    ⟨hclosed, -⟩ | ⟨hopen, h₁, hst, hrest⟩
  · rw [AtomicWhere, if_neg hclosed]
    trivial
  rw [AtomicWhere, if_pos hopen, ← hst.opens]
  rw [hrest] at hrun
  by_cases hagain : h₁.disk.opens h₁.disk.calls
  · rw [if_pos hagain]
    obtain rfl := checkpointRestoreMemory_ok hst.idle hst.file hagain r h' hrun
    rcases hcase with ⟨-, s, hof, hprefix, -⟩ | ⟨hne, -⟩
    · exact ⟨s, hof, hprefix, trivial⟩
    · exact absurd rfl hne
  · rw [if_neg hagain]
    intro k c hk
    obtain ⟨hne, -, hvcpus, -⟩ := wp_run (checkpointRestoreMemory_closed _ a hst.idle hst.file hagain) hrun
    rcases hcase with ⟨hok, -⟩ | ⟨-, hsame⟩
    · exact absurd hok hne
    · rw [← hsame.states c (List.mem_of_getElem? hk), hvcpus, hst.state hp.nodup hk]

theorem restoresAtomically_of_where (hwhere : AtomicWhere (fun s => SeeksRegions file v s ∧ RegionsApart h a v)
    stale file h a v) : RestoresAtomically stale staleMemory path file h a v := by
  rcases snapshotRestore_states hidle hfile hp.vm hp.vcpus stale staleMemory with
    ⟨-, d, hrun⟩ | ⟨hopen, h₁, hst, hrest⟩
  · exact ⟨_, _, hrun, .inr ⟨nofun, fun c _ => rfl, guestByte_congr rfl rfl⟩⟩
  rw [AtomicWhere, if_pos hopen, ← hst.opens] at hwhere
  have hground : SameGround h a v h₁ :=
    SameGround.of_eq ⟨.refl a h, ⟨v, hp.vm, rfl⟩, fun _ _ => id⟩ hst.vms hst.mem
  by_cases hagain : h₁.disk.opens h₁.disk.calls
  · rw [if_pos hagain] at hwhere
    obtain ⟨s, hof, hprefix, hseek, hapart⟩ := hwhere
    have hlen := congrArg List.length hof.contents
    rw [List.length_map, List.length_map] at hlen
    have hcount : v.memoryRegionCount.toNat = (v.regions.zip s.contents).length := by
      rw [List.length_zip, hlen, Nat.min_self, Nexusvm.regions, List.length_take, Nat.min_eq_left hapart.room]
    have hfound : v.regions.zip s.contents = [] ∨
        regionsImage (v.regions.zip s.contents) <+: file.drop (regionsSought staleMemory file v) := by
      rcases hseek with hnone | hseek
      · refine .inl (List.eq_nil_of_length_eq_zero ?_)
        rw [← hcount, hnone]
        rfl
      · exact .inr (Sections.regionsSought hof hprefix hseek)
    obtain ⟨r, h₂, hrun, rfl, hvms, hvcpus, hmem⟩ := checkpointRestoreMemory_found
      (Sections.savedRegion hof hapart) hcount hground (by rw [hst.vms]; exact hp.vm) rfl rfl hst.idle hst.file
      hagain hfound
    have hept : SameEpt a h h₂ := (hground.putAll hvms hmem).ept
    refine ⟨.ok, h₂, hrest.trans hrun, .inl ⟨rfl, s, hof, hprefix, fun k c hk => ?_,
      holdsContents_stores hof hapart hept (by rw [hmem, hst.mem])⟩⟩
    have hlt : k < s.states.length := by
      rw [hof.states, ← hp.count]
      exact (List.getElem?_eq_some_iff.mp hk).1
    rw [hvcpus, hst.state hp.nodup hk, Sections.fileState hprefix hlt]
  · rw [if_neg hagain] at hwhere
    obtain ⟨r, h₂, hrun, hne, hvms, hvcpus, hmem⟩ := checkpointRestoreMemory_closed staleMemory a
      hst.idle hst.file hagain
    refine ⟨r, h₂, hrest.trans hrun, .inr ⟨hne, fun c hc => ?_, guestByte_congr (hvms.trans hst.vms)
      (hmem.trans hst.mem)⟩⟩
    obtain ⟨k, hk⟩ := List.getElem?_of_mem hc
    rw [hvcpus, hst.state hp.nodup hk, hwhere k c hk]

end Restore

/-- **When a restore is all or nothing**: the file cannot be opened; or it can be the first time only and says of
each vCPU what it is; or it can be both times, is a complete checkpoint, the seek goes right and the regions are
apart. Only the last two may fail of a restore that is all or nothing. -/
theorem restores_atomically_where (hp : InPlace h a v) (hidle : h.disk.Idle)
    (hfile : h.disk.files path = some file) (stale staleMemory : ℕ → ℕ → UInt8) :
    (AtomicWhere (fun s => SeeksRegions file v s ∧ RegionsApart h a v) stale file h a v →
      RestoresAtomically stale staleMemory path file h a v) ∧
    (RestoresAtomically stale staleMemory path file h a v → AtomicWhere (fun _ => True) stale file h a v) :=
  ⟨restoresAtomically_of_where hp hidle hfile stale staleMemory,
    atomicWhere_of_restoresAtomically hp hidle hfile stale staleMemory⟩

/-- A disk on which every file is empty. -/
def emptyFiles : Disk := { (bootHost 1 .intel).disk with files := fun _ => some [] }

/-- A complete checkpoint of a VM with one vCPU and no memory, in every file. -/
def wholeSections : Sections where
  header := { checkpointHeader {} 0 [] with vcpuCount := 1 }
  config := { vcpuCount := 1 }
  states := [{ gprs := { rax := 7 } }]
  devices := []
  contents := []

def wholeFiles : Disk := { (bootHost 1 .intel).disk with files := fun _ => some (wholeSections.image []) }

theorem restores_atomically_where_whole : ∃ h v, (MemoryOp.create { vcpuCount := 1, memoryRegionCount := 2 }).run.run
    (bootHost 1 .intel) = some ((), h) ∧ h.vms 16384 = some v ∧
      RestoresAtomically (fun _ _ => 1) (fun _ _ => 0) "vm.snap" (wholeSections.image []) (h.setDisk wholeFiles)
        16384 v := by
  obtain ⟨h, v, hcreate, hi, hv, hnone⟩ := created_memoryInv
  have hres : ((MemoryOp.create { vcpuCount := 1, memoryRegionCount := 2 }).run.run
      (bootHost 1 .intel)).all (fun p => ∀ v ∈ p.2.vms 16384, v.vcpuCount = 1) = true := by decide +kernel
  rw [hcreate] at hres
  have hone : v.vcpuCount = 1 := of_decide_eq_true hres v hv
  have hregions : v.regions = [] := by
    rw [Nexusvm.regions, hnone]
    rfl
  have hof : wholeSections.Of (h.setDisk wholeFiles) 16384 v := by
    refine ⟨rfl, hone.symm, hnone.symm, hone.symm, ?_, by decide, ?_⟩
    · rw [hone]
      rfl
    · rw [hregions]
      rfl
  have hapart : RegionsApart (h.setDisk wholeFiles) 16384 v := by
    refine ⟨by rw [hnone]; exact Nat.zero_le _, ?_, ?_, ?_, ?_⟩ <;> rw [hregions]
    · exact List.forall_mem_nil _
    · exact List.forall_mem_nil _
    · exact List.forall_mem_nil _
    · exact List.Pairwise.nil
  have hidle : wholeFiles.Idle := by
    intro f s hs
    cases hs
  refine ⟨h, v, hcreate, hv, (restores_atomically_where ((hi.inPlace hv).setDisk wholeFiles) hidle
    (show wholeFiles.files "vm.snap" = some (wholeSections.image []) from rfl) (fun _ _ => 1) fun _ _ => 0).1 ?_⟩
  have hopens : ∀ k, (h.setDisk wholeFiles).disk.opens k = true := fun _ => rfl
  rw [AtomicWhere, if_pos (hopens _), if_pos (hopens _)]
  refine ⟨wholeSections, hof, ?_, .inl hnone, hapart⟩
  rw [hregions]

/-- **From an empty file a vCPU gets what lay on the stack**, and the restore succeeds. -/
theorem empty_file_restored : ∃ h v h', (MemoryOp.create { vcpuCount := 1, memoryRegionCount := 2 }).run.run
    (bootHost 1 .intel) = some ((), h) ∧ h.vms 16384 = some v ∧
      (snapshotRestore (fun _ _ => 1) (fun _ _ => 0) (some 16384) (some "vm.snap")).run (h.setDisk emptyFiles) =
        some (.ok, h') ∧
      ¬ RestoresAtomically (fun _ _ => 1) (fun _ _ => 0) "vm.snap" [] (h.setDisk emptyFiles) 16384 v := by
  have hres : ((MemoryOp.create { vcpuCount := 1, memoryRegionCount := 2 }).run.run
      (bootHost 1 .intel)).any (fun p => (p.2.vms 16384).isSome &&
        ((snapshotRestore (fun _ _ => 1) (fun _ _ => 0) (some 16384) (some "vm.snap")).run
          (p.2.setDisk emptyFiles)).any fun q => q.1 = .ok) = true := by decide +kernel
  obtain ⟨⟨⟨⟩, h⟩, hcreate, hres⟩ := (Option.any_eq_true _ _).mp hres
  simp only [Bool.and_eq_true, Option.any_eq_true, decide_eq_true_eq] at hres
  obtain ⟨hv, ⟨_, h'⟩, hrun, rfl⟩ := hres
  obtain ⟨v, hv⟩ := Option.isSome_iff_exists.mp hv
  refine ⟨h, v, h', hcreate, hv, hrun, ?_⟩
  rintro ⟨r, h'', hrun', ⟨-, s, -, hprefix, -⟩ | ⟨hne, -⟩⟩
  · have hlen := hprefix.length_le
    rw [Sections.image, List.length_append, Codec.length_encode, List.length_nil] at hlen
    have hheader : 0 < checkpointHeaderCodec.size := by decide
    omega
  · rw [hrun] at hrun'
    cases hrun'
    exact hne rfl

end NexusVM
