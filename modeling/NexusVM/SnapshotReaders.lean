import NexusVM.CheckpointRestore

/-!
# The two readers of a snapshot

What `snapshot_restore` and `checkpoint_restore_memory` do with a file, whatever is in it.

* `fileState`, `regionsSought`: what the readers find, and where;
* `restoreVcpus_at`, `skipDevices_at`: the vCPUs and the device section;
* `regionsImage`, `Host.stores`, `SavedRegion`: regions in a file, and what they lead to storing;
* `restoreRegions_stored`, `checkpointRestoreMemory_found`: where the second reader finds the regions, it
  stores them;
* **`snapshotRestore_states`**: all that is done before the second reader is called.
-/

namespace NexusVM

open Prog Stdio

variable {h h' h₁ : Host} {a : Addr} {v w : Nexusvm} {f pos : ℕ} {path : String} {file : List UInt8}
  {stale staleMemory : ℕ → ℕ → UInt8}

/-! ## What the readers find -/

/-- The state that the `k`-th record at `pos` is, the local variable being the `i`-th. -/
def stateAt (stale : ℕ → ℕ → UInt8) (file : List UInt8) (pos i k : ℕ) : CpuState :=
  cpuStateCodec.decode (fillLocal ((file.drop (pos + k * sizeofCpuState)).take sizeofCpuState)
    (stale (i + k)) sizeofCpuState)

/-- The state that the `k`-th vCPU gets. -/
def fileState (stale : ℕ → ℕ → UInt8) (file : List UInt8) (k : ℕ) : CpuState :=
  stateAt stale file (sizeofCheckpointHeader + sizeofVmConfig) 1 k

/-- Where a reader comes that takes the 8 bytes at `pos` for the size of the device section. -/
def pastDevices (stale : ℕ → UInt8) (file : List UInt8) (pos : ℕ) : ℕ :=
  let data := (file.drop pos).take Codec.u64.size
  Disk.seekPos (pos + data.length)
    (seekOffset (Codec.u64.decode (fillLocal data stale Codec.u64.size))) .cur

/-- Where `checkpoint_restore_memory` takes the size of the device section from: it has not skipped the
header. -/
def sizeSought (v : Nexusvm) : ℕ := sizeofVmConfig + v.vcpuCount.toNat * sizeofCpuState

/-- Where it looks for the regions. -/
def regionsSought (stale : ℕ → ℕ → UInt8) (file : List UInt8) (v : Nexusvm) : ℕ :=
  pastDevices (stale 0) file (sizeSought v)

theorem fillLocal_eq {data : List UInt8} {size : ℕ} (hlen : data.length = size) (stale : ℕ → UInt8) :
    fillLocal data stale size = data := by
  rw [fillLocal, List.drop_eq_nil_of_le (by rw [List.length_map, List.length_range, hlen]),
    List.append_nil]

theorem prefix_drop {xs ys l : List UInt8} (hp : xs ++ ys <+: l) : ys <+: l.drop xs.length := by
  have := hp.drop xs.length
  rwa [List.drop_left] at this

theorem pastDevices_of_whole {stale : ℕ → UInt8} (hwhole : pos + 8 ≤ file.length) {p : ℕ}
    (hp : (p : ℤ) = pos + 8 + seekOffset (Codec.u64.decode ((file.drop pos).take 8))) :
    pastDevices stale file pos = p := by
  have hlen : ((file.drop pos).take Codec.u64.size).length = 8 := by
    rw [length_take_drop, show Codec.u64.size = 8 from rfl]
    omega
  have hsize : ((file.drop pos).take Codec.u64.size).length = Codec.u64.size := hlen
  rw [pastDevices, fillLocal_eq hsize, hlen, Disk.seekPos]
  rw [show Codec.u64.size = 8 from rfl]
  split_ifs <;> omega

theorem drop_take_behind (file : List UInt8) (pos size n : ℕ) :
    file.drop (pos + ((file.drop pos).take size).length + n) = file.drop (pos + size + n) := by
  rw [length_take_drop]
  by_cases hle : pos + size ≤ file.length
  · rw [Nat.min_eq_left (by omega)]
  · rw [List.drop_eq_nil_of_le (by omega), List.drop_eq_nil_of_le (by omega)]

theorem stateAt_behind (file : List UInt8) (pos i k : ℕ) :
    stateAt stale file (pos + ((file.drop pos).take sizeofCpuState).length) (i + 1) k =
      stateAt stale file pos i (k + 1) := by
  rw [stateAt, stateAt, drop_take_behind, Nat.succ_mul, Nat.add_assoc pos, Nat.add_comm sizeofCpuState,
    Nat.add_assoc i, Nat.add_comm 1]

theorem fileState_of_prefix {header config rest : List UInt8} {states : List CpuState}
    (hheader : header.length = sizeofCheckpointHeader) (hconfig : config.length = sizeofVmConfig)
    (hfile : header ++ (config ++ (cpuStateCodec.encodeList states ++ rest)) <+: file) {k : ℕ}
    (hk : k < states.length) : states[k]? = some (fileState stale file k) := by
  have hsplit : states = states.take k ++ states[k] :: states.drop (k + 1) := by
    rw [← List.drop_eq_getElem_cons, List.take_append_drop]
  have hbefore : (header ++ (config ++ cpuStateCodec.encodeList (states.take k))).length =
      sizeofCheckpointHeader + sizeofVmConfig + k * sizeofCpuState := by
    rw [List.length_append, List.length_append, hheader, hconfig, Codec.length_encodeList,
      List.length_take, Nat.min_eq_left hk.le, Nat.add_assoc]
    rfl
  rw [hsplit, Codec.encodeList_append, Codec.encodeList_cons] at hfile
  simp only [List.append_assoc] at hfile
  rw [← List.append_assoc, ← List.append_assoc, List.append_assoc header] at hfile
  have hrecord := prefix_drop hfile
  rw [hbefore] at hrecord
  have hlen := cpuStateCodec.length_encode states[k]
  rw [size_codecs.1] at hlen
  have htake : (file.drop (sizeofCheckpointHeader + sizeofVmConfig + k * sizeofCpuState)).take
      sizeofCpuState = cpuStateCodec.encode states[k] := by
    have hprefix := List.prefix_iff_eq_take.mp ((List.prefix_append _ _).trans hrecord)
    rw [hlen] at hprefix
    exact hprefix.symm
  rw [fileState, stateAt, htake, fillLocal_eq hlen, Codec.decode_encode_self, List.getElem?_eq_getElem hk]

/-! ## vCPUs and devices -/

/-- **Every vCPU gets the state that its record in the file is**, or what there is of it. -/
theorem restoreVcpus_at {cs : List Addr} {i : ℕ} (hcs : ∀ c ∈ cs, ∃ u, h.vcpus c = some u)
    (hr : h.disk.At f path file pos) :
    wp (restoreVcpus f stale i cs) (fun _ h' => h'.vms = h.vms ∧ h'.mem = h.mem ∧
      (∃ p, h'.disk.At f path file p) ∧ (∀ c ∉ cs, h'.vcpus c = h.vcpus c) ∧
      ∀ c ∈ cs, ∃ k, cs[k]? = some c ∧
        (h'.vcpus c).map Nexusvcpu.cpuState = some (stateAt stale file pos i k)) h := by
  induction cs generalizing h i pos with
  | nil =>
    rw [restoreVcpus, wp_pure]
    exact ⟨rfl, rfl, ⟨pos, hr⟩, fun _ _ => rfl, by simp⟩
  | cons c cs ih =>
    obtain ⟨⟨u, hu⟩, hcs⟩ := List.forall_mem_cons.mp hcs
    rw [restoreVcpus, wp_bind, checkpointRead, wp_bind, wp_onDisk]
    refine wp_mono (fread_at hr sizeofCpuState) ?_
    rintro _ d ⟨rfl, hat⟩
    have hrest : ∀ r : Result, wp (do
        let _ ← vcpuSetState (some c) (cpuStateCodec.decode
          (fillLocal ((file.drop pos).take sizeofCpuState) (stale i) sizeofCpuState))
        restoreVcpus f stale (i + 1) cs) (fun _ h' => h'.vms = h.vms ∧ h'.mem = h.mem ∧
          (∃ p, h'.disk.At f path file p) ∧ (∀ d ∉ c :: cs, h'.vcpus d = h.vcpus d) ∧
          ∀ d ∈ c :: cs, ∃ k, (c :: cs)[k]? = some d ∧
            (h'.vcpus d).map Nexusvcpu.cpuState = some (stateAt stale file pos i k))
        (h.setDisk d) := by
      intro _
      simp only [vcpuSetState, wp_bind, wp_getVcpu, wp_putVcpu, wp_pure]
      refine ⟨u, hu, ?_⟩
      set x := cpuStateCodec.decode
        (fillLocal ((file.drop pos).take sizeofCpuState) (stale i) sizeofCpuState) with hx
      have hself : ((h.setDisk d).setVcpu c (some { u with cpuState := x })).vcpus c =
          some { u with cpuState := x } := Function.update_self _ _ _
      have hother : ∀ e, e ≠ c → ((h.setDisk d).setVcpu c (some { u with cpuState := x })).vcpus e =
          h.vcpus e := fun e he => Function.update_of_ne he _ _
      refine wp_mono (ih (fun e he => ?_) hat) ?_
      · by_cases hec : e = c
        · rw [hec]
          exact ⟨_, hself⟩
        · rw [hother e hec]
          exact hcs e he
      · rintro _ h₂ ⟨hvms, hmem, hp, hframe, hstates⟩
        refine ⟨hvms, hmem, hp, fun e he => ?_, fun e he => ?_⟩
        · rw [List.mem_cons, not_or] at he
          rw [hframe e he.2, hother e he.1]
        · by_cases hcs' : e ∈ cs
          · -- the vCPU comes again further on
            obtain ⟨k, hk, hstate⟩ := hstates e hcs'
            exact ⟨k + 1, hk, by rw [hstate, stateAt_behind]⟩
          · obtain rfl : e = c := (List.mem_cons.mp he).resolve_right hcs'
            refine ⟨0, rfl, ?_⟩
            rw [hframe e hcs', hself, hx, stateAt, Nat.zero_mul]
            rfl
    refine wp_ite (fun _ => ?_) fun _ => ?_ <;> rw [wp_pure]
    · exact hrest .errGeneric
    · exact hrest .ok

theorem skipDevices_at {stale : ℕ → UInt8} (hr : h.disk.At f path file pos) :
    wp (skipDevices f stale) (fun _ h' => h' = h.setDisk h'.disk ∧
      h'.disk.At f path file (pastDevices stale file pos)) h := by
  rw [skipDevices, wp_bind, wp_onDisk]
  refine wp_mono (fread_at hr _) ?_
  rintro _ d ⟨rfl, hat⟩
  rw [wp_onDisk]
  exact wp_mono (fseek_at hat _ .cur) fun _ d' hat' => ⟨rfl, hat'⟩

theorem restoreVcpus_after (stale : ℕ → ℕ → UInt8) (cs : List Addr) (i : ℕ) :
    wlp (restoreVcpus f stale i cs) (fun _ h' => h.disk.After cs.length h'.disk) h := by
  induction cs generalizing h i with
  | nil =>
    rw [restoreVcpus, wlp_pure]
    exact .refl _
  | cons c cs ih =>
    simp only [restoreVcpus, checkpointRead, vcpuSetState, wlp_bind, wlp_onDisk, wlp_getVcpu,
      wlp_putVcpu, wlp_pure]
    refine wlp_mono (fread_after f sizeofCpuState) ?_
    intro data d hread
    rw [List.length_cons, Nat.add_comm cs.length]
    refine wlp_ite (fun _ => ?_) fun _ => ?_ <;> rw [wlp_pure] <;> intro u _ <;>
      exact wlp_mono (ih _) fun _ _ hrest => hread.trans hrest

theorem skipDevices_after (stale : ℕ → UInt8) :
    wlp (skipDevices f stale) (fun _ h' => h.disk.After 2 h'.disk) h := by
  rw [skipDevices, wlp_bind, wlp_onDisk]
  refine wlp_mono (fread_after f _) ?_
  intro data d hread
  rw [wlp_onDisk]
  exact wlp_mono (fseek_after f _ _) fun _ _ hseek => hread.trans hseek

/-! ## Stores -/

/-- Store some bytes one after the other. -/
def PhysMem.putAll (m : PhysMem) (stores : List (ℕ × List UInt8)) : PhysMem :=
  stores.foldl (fun m s => m.putRam s.1 s.2) m

theorem PhysMem.putAll_append (m : PhysMem) (xs ys : List (ℕ × List UInt8)) :
    m.putAll (xs ++ ys) = (m.putAll xs).putAll ys := List.foldl_append

theorem PhysMem.putAll_rest (m : PhysMem) (stores : List (ℕ × List UInt8)) :
    (m.putAll stores).tables = m.tables ∧ (m.putAll stores).abi = m.abi ∧ (m.putAll stores).heap = m.heap := by
  induction stores generalizing m with
  | nil => exact ⟨rfl, rfl, rfl⟩
  | cons s stores ih => exact ih (m.putRam s.1 s.2)

theorem PhysMem.putAll_of_outside (m : PhysMem) {stores : List (ℕ × List UInt8)} {b : ℕ}
    (hout : ∀ s ∈ stores, ¬ (s.1 ≤ b ∧ b < s.1 + s.2.length)) : (m.putAll stores).ram b = m.ram b := by
  induction stores generalizing m with
  | nil => rfl
  | cons s stores ih =>
    obtain ⟨hs, hout⟩ := List.forall_mem_cons.mp hout
    exact (ih (m.putRam s.1 s.2) hout).trans (if_neg hs)

theorem PhysMem.putAll_of_apart (m : PhysMem) {stores : List (ℕ × List UInt8)}
    (hapart : stores.Pairwise fun s s' => s.1 + s.2.length ≤ s'.1 ∨ s'.1 + s'.2.length ≤ s.1)
    {s : ℕ × List UInt8} (hs : s ∈ stores) {k : ℕ} (hk : k < s.2.length) :
    (m.putAll stores).ram (s.1 + k) = s.2[k] := by
  induction stores generalizing m with
  | nil => cases hs
  | cons t stores ih =>
    obtain ⟨hfirst, hapart⟩ := List.pairwise_cons.mp hapart
    rcases List.mem_cons.mp hs with rfl | hs
    · refine ((m.putRam s.1 s.2).putAll_of_outside fun s' hs' hc => ?_).trans ?_
      · rcases hfirst s' hs' with hle | hle <;> omega
      · refine (if_pos ⟨Nat.le_add_right _ _, Nat.add_lt_add_left hk _⟩).trans ?_
        rw [Nat.add_sub_cancel_left, List.getD_eq_getElem?_getD, List.getElem?_eq_getElem hk,
          Option.getD_some]
    · exact ih (m.putRam t.1 t.2) hapart hs

/-- What is stored is what was there in `h`: every byte is as it was there or as it is. -/
theorem PhysMem.putAll_ramBytes (m : PhysMem) (h : Host) {stores : List (ℕ × List UInt8)}
    (hbytes : ∀ s ∈ stores, s.2 = h.ramBytes s.1 s.2.length) {b : ℕ}
    (hin : (∃ s ∈ stores, s.1 ≤ b ∧ b < s.1 + s.2.length) ∨ m.ram b = h.mem.ram b) :
    (m.putAll stores).ram b = h.mem.ram b := by
  induction stores generalizing m with
  | nil => exact hin.resolve_left (by simp)
  | cons s stores ih =>
    obtain ⟨hs, hbytes⟩ := List.forall_mem_cons.mp hbytes
    refine ih (m.putRam s.1 s.2) hbytes ?_
    by_cases hb : s.1 ≤ b ∧ b < s.1 + s.2.length
    · refine .inr ((if_pos hb).trans ?_)
      have hlt : b - s.1 < s.2.length := by omega
      rw [hs, List.getD_eq_getElem?_getD, Host.ramBytes, List.getElem?_map, List.getElem?_range hlt,
        Option.map_some, Option.getD_some, Nat.add_sub_cancel' hb.1]
    · refine hin.imp ?_ fun heq => (if_neg hb).trans heq
      rintro ⟨s', hs', hb'⟩
      refine ⟨s', ?_, hb'⟩
      rcases List.mem_cons.mp hs' with rfl | hs'
      · exact absurd hb' hb
      · exact hs'

/-! ## Regions -/

/-- Regions in a file, each with the bytes that are there for it. -/
def regionsImage (xs : List (MemoryRegion × List UInt8)) : List UInt8 :=
  xs.flatMap fun x => regionRecordCodec.encode x.1.record ++ x.2

/-- Where the bytes of a region go, if it is mapped memory. -/
def Host.regionBase (h : Host) (a : Addr) (r : MemoryRegion) : Option UInt64 :=
  if r.type = .ram ∧ r.size > 0 then h.translate a r.guestPhys else none

/-- The stores that the regions lead to. -/
def Host.stores (h : Host) (a : Addr) (xs : List (MemoryRegion × List UInt8)) : List (ℕ × List UInt8) :=
  xs.filterMap fun x => (h.regionBase a x.1).map fun p => (p.toNat, x.2)

theorem Host.mem_stores {xs : List (MemoryRegion × List UInt8)} {s : ℕ × List UInt8} :
    s ∈ h.stores a xs ↔ ∃ x ∈ xs, ∃ p, h.regionBase a x.1 = some p ∧ s = (p.toNat, x.2) := by
  simp only [Host.stores, List.mem_filterMap, Option.map_eq_some_iff]
  exact exists_congr fun x => and_congr_right fun _ => exists_congr fun p => and_congr_right fun _ => eq_comm

/-- The address of a region is translated, and if it is mapped memory, there are as many bytes for it as it
has, and these lie in the memory of the VM. -/
structure SavedRegion (h : Host) (a : Addr) (v : Nexusvm) (x : MemoryRegion × List UInt8) : Prop where
  translated : Translated h a x.1
  empty : h.regionBase a x.1 = none → x.2 = []
  whole : ∀ p, h.regionBase a x.1 = some p → x.2.length = x.1.size.toNat
  holds : ∀ p, h.regionBase a x.1 = some p → v.Holds h.mem p.toNat x.1.size.toNat

/-- The VM at `a` still has the page tables and the memory that it had in `h`. -/
structure SameGround (h : Host) (a : Addr) (v : Nexusvm) (h' : Host) : Prop where
  ept : SameEpt a h h'
  vm : ∃ w, h'.vms a = some w ∧ w.blocks = v.blocks
  live : ∀ b ∈ v.blocks, b ∈ h.mem.heap.live → b ∈ h'.mem.heap.live

theorem sameEpt_of_eq (hvms : h'.vms = h.vms) (hmem : h'.mem = h.mem) (a : Addr) : SameEpt a h h' := by
  refine ⟨fun v hv => ⟨v, by rw [hvms]; exact hv, rfl⟩, by rw [hmem]; exact ⟨rfl, rfl⟩, fun t ht => ?_⟩
  rw [hmem]
  exact ht

theorem SameGround.of_eq (hg : SameGround h a v h') (hvms : h₁.vms = h'.vms) (hmem : h₁.mem = h'.mem) :
    SameGround h a v h₁ := by
  refine ⟨hg.ept.trans (sameEpt_of_eq hvms hmem a), ?_, fun b hb hl => ?_⟩
  · rw [hvms]
    exact hg.vm
  · rw [hmem]
    exact hg.live b hb hl

theorem SameGround.putAll (hg : SameGround h a v h') {stores : List (ℕ × List UInt8)}
    (hvms : h₁.vms = h'.vms) (hmem : h₁.mem = h'.mem.putAll stores) : SameGround h a v h₁ := by
  obtain ⟨htables, habi, hheap⟩ := h'.mem.putAll_rest stores
  refine ⟨hg.ept.trans ⟨fun w hw => ⟨w, by rw [hvms]; exact hw, rfl⟩, ?_, fun t ht => ?_⟩, ?_,
    fun b hb hl => ?_⟩
  · rw [hmem]
    exact ⟨htables, habi⟩
  · obtain ⟨b, hb, hrest⟩ := ht
    rw [hmem]
    exact ⟨b, hheap.symm ▸ hb, hrest⟩
  · rw [hvms]
    exact hg.vm
  · rw [hmem, hheap]
    exact hg.live b hb hl

theorem SameGround.holds (hg : SameGround h a v h') (hw : h'.vms a = some w) {p : Addr} {n : ℕ}
    (hh : v.Holds h.mem p n) : w.Holds h'.mem p n := by
  obtain ⟨b, hb, hl, hrest⟩ := hh
  obtain ⟨w', hw', hblocks⟩ := hg.vm
  obtain rfl := Option.some.inj (hw'.symm.trans hw)
  exact ⟨b, hblocks ▸ hb, hg.live b hb hl, hrest⟩

theorem type_record {r : MemoryRegion} :
    r.record.type = MemoryRegionType.ram.code ↔ r.type = .ram := MemoryRegionType.code_eq_zero

theorem restoreRegion_stored {x : MemoryRegion × List UInt8} {rest : List UInt8} (hx : SavedRegion h a v x)
    (hg : SameGround h a v h') (hr : h'.disk.At f path file pos) (stale : ℕ → UInt8)
    (hfile : regionRecordCodec.encode x.1.record ++ (x.2 ++ rest) <+: file.drop pos) :
    wp (restoreRegion a f stale) (fun _ h₁ =>
      h₁ = (h'.setMem (h'.mem.putAll (h.stores a [x]))).setDisk h₁.disk ∧
        ∃ p, h₁.disk.At f path file p ∧ rest <+: file.drop p) h' := by
  obtain ⟨r, bytes⟩ := x
  have hlen : (regionRecordCodec.encode r.record).length = regionRecordCodec.size :=
    regionRecordCodec.length_encode _
  have hrecord : (file.drop pos).take regionRecordCodec.size = regionRecordCodec.encode r.record := by
    rw [← hlen]
    exact (List.prefix_iff_eq_take.mp ((List.prefix_append _ _).trans hfile)).symm
  have hrest := prefix_drop hfile
  rw [hlen, List.drop_drop] at hrest
  rw [restoreRegion, wp_bind, wp_onDisk]
  refine wp_mono (fread_at hr _) ?_
  rintro _ d ⟨rfl, hat⟩
  dsimp only
  rw [hrecord, hlen] at hat
  rw [hrecord, fillLocal_eq hlen, Codec.decode_encode_self, wp_when]
  -- a region that nothing is stored for
  have hnone : h.regionBase a r = none → h'.setDisk d = (h'.setMem
      (h'.mem.putAll (h.stores a [(r, bytes)]))).setDisk (h'.setDisk d).disk ∧
        ∃ p, (h'.setDisk d).disk.At f path file p ∧ rest <+: file.drop p := by
    intro hbase
    have hempty : bytes = [] := hx.empty hbase
    refine ⟨?_, _, hat, by rwa [hempty, List.nil_append] at hrest⟩
    rw [Host.stores, List.filterMap_cons, hbase]
    rfl
  refine ⟨fun hram => ?_, fun hram => ?_⟩
  · have hram' : r.type = .ram ∧ r.size > 0 := ⟨type_record.mp hram.1, hram.2⟩
    obtain ⟨hpa, hrun⟩ := hx.translated hram'
    have hbase : h.regionBase a r = if hpa = INVALID_PHYS_ADDR then none else some hpa := by
      rw [Host.regionBase, if_pos hram', translate_of_run hrun]
    have hg₁ : SameGround h a v (h'.setDisk d) := hg.of_eq rfl rfl
    rw [wp_bind]
    refine wp_of_run (vmGpaToHpa_readsOnly a r.guestPhys h (h'.setDisk d) hg₁.ept hpa h hrun).2 ?_
    rw [wp_when]
    refine ⟨fun hvalid => ?_, fun hinvalid => ?_⟩
    · rw [if_neg hvalid] at hbase
      have hwhole : bytes.length = r.size.toNat := hx.whole hpa hbase
      have hbytes : (file.drop (pos + regionRecordCodec.size)).take r.size.toNat = bytes := by
        rw [← hwhole]
        exact (List.prefix_iff_eq_take.mp ((List.prefix_append _ _).trans hrest)).symm
      rw [wp_bind, wp_onDisk]
      refine wp_mono (fread_at hat _) ?_
      rintro _ d' ⟨rfl, hat'⟩
      have hsize : r.record.size = r.size := rfl
      rw [hsize, hbytes] at hat' ⊢
      obtain ⟨w, hw, -⟩ := hg₁.vm
      rw [wp_bind, wp_getVm]
      refine ⟨w, hw, ?_⟩
      rw [wp_bind, wp_get, wp_bind, wp_require]
      refine ⟨.inr (hwhole ▸ hg₁.holds hw (hx.holds hpa hbase)), ?_⟩
      rw [writeRam, wp_modify]
      have hbehind := prefix_drop hrest
      rw [List.drop_drop] at hbehind
      refine ⟨?_, _, hat', hbehind⟩
      rw [Host.stores, List.filterMap_cons, hbase]
      rfl
    · rw [if_pos (not_not.mp hinvalid)] at hbase
      exact hnone hbase
  · exact hnone (if_neg fun hc => hram ⟨type_record.mpr hc.1, hc.2⟩)

theorem rest_of_setMem {m : PhysMem} {d : Disk} (heq : h₁ = (h'.setMem m).setDisk d) :
    h₁.vms = h'.vms ∧ h₁.vcpus = h'.vcpus ∧ h₁.mem = m := by
  rw [heq]
  exact ⟨rfl, rfl, rfl⟩

theorem rest_of_setDisk {d : Disk} (heq : h₁ = h'.setDisk d) :
    h₁.vms = h'.vms ∧ h₁.vcpus = h'.vcpus ∧ h₁.mem = h'.mem := by
  rw [heq]
  exact ⟨rfl, rfl, rfl⟩

/-- **Regions that are found are stored.** -/
theorem restoreRegions_stored {xs : List (MemoryRegion × List UInt8)} (hxs : ∀ x ∈ xs, SavedRegion h a v x)
    {is : List ℕ} (his : is.length = xs.length) (hg : SameGround h a v h') (hr : h'.disk.At f path file pos)
    (hfile : regionsImage xs <+: file.drop pos) :
    wp (forEach (fun i => restoreRegion a f (stale (i + 1))) is) (fun _ h₁ =>
      h₁ = (h'.setMem (h'.mem.putAll (h.stores a xs))).setDisk h₁.disk ∧ ∃ p, h₁.disk.At f path file p)
      h' := by
  induction xs generalizing is h' pos with
  | nil =>
    obtain rfl := List.eq_nil_of_length_eq_zero his
    rw [forEach, wp_pure]
    exact ⟨rfl, pos, hr⟩
  | cons x xs ih =>
    obtain ⟨hx, hxs⟩ := List.forall_mem_cons.mp hxs
    obtain ⟨i, is, rfl⟩ := List.exists_cons_of_length_eq_add_one his
    rw [regionsImage, List.flatMap_cons, List.append_assoc] at hfile
    rw [forEach, wp_bind]
    refine wp_mono (restoreRegion_stored hx hg hr _ hfile) ?_
    rintro _ h₁ ⟨heq, p, hat, hnext⟩
    obtain ⟨hvms, -, hmem⟩ := rest_of_setMem heq
    refine wp_mono (ih hxs (Nat.succ.inj his) (hg.putAll hvms hmem) hat hnext) ?_
    rintro _ h₂ ⟨heq₂, hat₂⟩
    refine ⟨?_, hat₂⟩
    have hstores : h.stores a (x :: xs) = h.stores a [x] ++ h.stores a xs :=
      List.filterMap_append (l := [x])
    rw [heq₂, heq, hstores, PhysMem.putAll_append]
    rfl

/-! ## The second reader -/

theorem checkpointRestoreMemory_closed (stale : ℕ → ℕ → UInt8) (a : Addr) (hidle : h.disk.Idle)
    (hfile : h.disk.files path = some file) (hopens : ¬ h.disk.opens h.disk.calls) :
    wp (checkpointRestoreMemory stale (some a) (some path)) (fun r h₁ => r ≠ .ok ∧ h₁.vms = h.vms ∧
      h₁.vcpus = h.vcpus ∧ h₁.mem = h.mem) h := by
  rw [checkpointRestoreMemory, wp_bind, wp_onDisk]
  refine wp_mono (fopen_at hidle hfile) ?_
  rintro o d ⟨hsome, -⟩
  cases o with
  | none =>
    rw [wp_pure]
    exact ⟨by simp, rfl, rfl, rfl⟩
  | some f => exact absurd (hsome.mp rfl) hopens

theorem checkpointRestoreMemory_ok (hidle : h.disk.Idle) (hfile : h.disk.files path = some file)
    (hopens : h.disk.opens h.disk.calls) :
    wlp (checkpointRestoreMemory stale (some a) (some path)) (fun r _ => r = .ok) h := by
  rw [checkpointRestoreMemory, wlp_bind, wlp_onDisk]
  refine wlp_mono (fopen_at hidle hfile).wlp ?_
  rintro o d ⟨hsome, -⟩
  cases o with
  | none => exact absurd (hsome.mpr hopens) (by simp)
  | some f =>
    -- each of the calls may do whatever it does
    iterate 7 refine wlp_bind_of_forall fun _ _ => ?_
    rw [wlp_pure]

/-- **Where the regions are found, they are stored.** -/
theorem checkpointRestoreMemory_found {xs : List (MemoryRegion × List UInt8)}
    (hxs : ∀ x ∈ xs, SavedRegion h a v x) (hcount : v.memoryRegionCount.toNat = xs.length)
    (hg : SameGround h a v h') (hw : h'.vms a = some w) (hvcpus : w.vcpuCount = v.vcpuCount)
    (hregions : w.memoryRegionCount = v.memoryRegionCount) (hidle : h'.disk.Idle)
    (hfile : h'.disk.files path = some file) (hopens : h'.disk.opens h'.disk.calls)
    (hfound : xs = [] ∨ regionsImage xs <+: file.drop (regionsSought stale file v)) :
    wp (checkpointRestoreMemory stale (some a) (some path)) (fun r h₁ => r = .ok ∧ h₁.vms = h'.vms ∧
      h₁.vcpus = h'.vcpus ∧ h₁.mem = h'.mem.putAll (h.stores a xs)) h' := by
  rw [checkpointRestoreMemory, wp_bind, wp_onDisk]
  refine wp_mono (fopen_at hidle hfile) ?_
  rintro o d ⟨hsome, -, -, hat⟩
  cases o with
  | none => exact absurd (hsome.mpr hopens) (by simp)
  | some f =>
    rw [wp_bind, wp_onDisk]
    refine wp_mono (fseek_at (hat f rfl) _ .set) ?_
    intro _ d₁ hat₁
    rw [wp_bind, wp_onDisk]
    refine wp_mono (fseek_at hat₁ _ .set) ?_
    intro _ d₂ hat₂
    rw [wp_bind, wp_getVm]
    refine ⟨w, hw, ?_⟩
    rw [wp_bind, wp_onDisk, hvcpus, hregions]
    refine wp_mono (fseek_at hat₂ _ .cur) ?_
    intro _ d₃ hat₃
    have hstart : Disk.seekPos (Disk.seekPos (Disk.seekPos 0 sizeofCheckpointHeader .set) sizeofVmConfig .set)
        (sizeofCpuState * v.vcpuCount.toNat) .cur = sizeSought v := by
      have hmul := Nat.mul_comm sizeofCpuState v.vcpuCount.toNat
      simp only [Disk.seekPos, sizeSought]
      split_ifs <;> omega
    rw [hstart] at hat₃
    have hat₃' : (h'.setDisk d₃).disk.At f path file _ := hat₃
    rw [wp_bind]
    refine wp_mono (skipDevices_at hat₃') ?_
    rintro _ h₄ ⟨heq₄, hat₄⟩
    simp only [setDisk_setDisk] at heq₄
    obtain ⟨hvms₄, hvcpus₄, hmem₄⟩ := rest_of_setDisk heq₄
    have hprefix : regionsImage xs <+: file.drop (regionsSought stale file v) :=
      hfound.elim (fun hnil => hnil ▸ List.nil_prefix) id
    rw [wp_bind]
    refine wp_mono (restoreRegions_stored hxs (by rw [List.length_range, hcount])
      (hg.of_eq hvms₄ hmem₄) hat₄ hprefix) ?_
    rintro _ h₅ ⟨heq₅, p, hat₅⟩
    rw [wp_bind, wp_onDisk]
    refine wp_mono (fclose_at hat₅) fun _ d₆ _ => ?_
    obtain ⟨hvms₅, hvcpus₅, hmem₅⟩ := rest_of_setMem heq₅
    obtain ⟨hvms₆, hvcpus₆, hmem₆⟩ := rest_of_setDisk (Eq.refl (h₅.setDisk d₆))
    rw [wp_pure]
    refine ⟨rfl, hvms₆.trans (hvms₅.trans hvms₄), hvcpus₆.trans (hvcpus₅.trans hvcpus₄), ?_⟩
    rw [hmem₆, hmem₅, hmem₄]

/-! ## The call -/

/-- What `snapshot_restore` has done when it calls `checkpoint_restore_memory`. -/
structure StatesRestored (stale : ℕ → ℕ → UInt8) (path : String) (file : List UInt8) (cs : List Addr)
    (h h₁ : Host) : Prop where
  vms : h₁.vms = h.vms
  mem : h₁.mem = h.mem
  states : ∀ c ∈ cs, ∃ k, cs[k]? = some c ∧
    (h₁.vcpus c).map Nexusvcpu.cpuState = some (fileState stale file k)
  idle : h₁.disk.Idle
  file : h₁.disk.files path = some file
  after : h.disk.After (cs.length + 6) h₁.disk

/-- **`snapshot_restore` up to the second reader.** Where the file cannot be opened, nothing is done;
otherwise the vCPUs get their states, and the rest is what the second reader does. -/
theorem snapshotRestore_states (hidle : h.disk.Idle) (hfile : h.disk.files path = some file)
    (hv : h.vms a = some v) (hcs : ∀ c ∈ v.vcpus, ∃ u, h.vcpus c = some u)
    (stale staleMemory : ℕ → ℕ → UInt8) :
    (¬ h.disk.opens h.disk.calls ∧ ∃ d,
      (snapshotRestore stale staleMemory (some a) (some path)).run h = some (.errGeneric, h.setDisk d)) ∨
    (h.disk.opens h.disk.calls ∧ ∃ h₁, StatesRestored stale path file v.vcpus h h₁ ∧
      (snapshotRestore stale staleMemory (some a) (some path)).run h =
        (checkpointRestoreMemory staleMemory (some a) (some path)).run h₁) := by
  obtain ⟨o, d, hopen, ⟨hopens, -, hsame, hat⟩, -, hafter⟩ :=
    wp_and_wlp (fopen_at hidle hfile) (fopen_after path .read)
  cases o with
  | none =>
    refine .inl ⟨fun ho => by simpa using hopens.mpr ho, d, ?_⟩
    rw [snapshotRestore, run_bind (run_onDisk hopen)]
    rfl
  | some f =>
    obtain ⟨_, d₁, hseek, hat₁, hafter₁⟩ :=
      wp_and_wlp (fseek_at (hat f rfl) sizeofCheckpointHeader .set) (fseek_after f _ _)
    obtain ⟨_, d₂, hseek', hat₂, hafter₂⟩ :=
      wp_and_wlp (fseek_at hat₁ sizeofVmConfig .cur) (fseek_after f _ _)
    have hstart : Disk.seekPos (Disk.seekPos 0 sizeofCheckpointHeader .set) sizeofVmConfig .cur =
        sizeofCheckpointHeader + sizeofVmConfig := by
      simp only [Disk.seekPos]
      split_ifs <;> omega
    rw [hstart] at hat₂
    have hat₂' : (h.setDisk d₂).disk.At f path file _ := hat₂
    have hcs' : ∀ c ∈ v.vcpus, ∃ u, (h.setDisk d₂).vcpus c = some u := hcs
    have hv₂ : (h.setDisk d₂).vms a = some v := hv
    obtain ⟨_, h₃, hvcpus, ⟨hvms₃, hmem₃, ⟨p₃, hat₃⟩, -, hstates⟩, hafter₃⟩ :=
      wp_and_wlp (restoreVcpus_at hcs' hat₂') (restoreVcpus_after stale v.vcpus 1)
    obtain ⟨_, h₄, hskip, ⟨heq₄, hat₄⟩, hafter₄⟩ :=
      wp_and_wlp (skipDevices_at hat₃) (skipDevices_after (stale 0))
    obtain ⟨_, d₅, hclose, ⟨hidle₅, hfiles₅⟩, hafter₅⟩ :=
      wp_and_wlp (fclose_at hat₄) (fclose_after f)
    obtain ⟨hvms₄, hvcpus₄, hmem₄⟩ := rest_of_setDisk heq₄
    refine .inr ⟨hopens.mp rfl, h₄.setDisk d₅, ⟨hvms₄.trans hvms₃, hmem₄.trans hmem₃, fun c hc => ?_, hidle₅,
      ?_, ?_⟩, ?_⟩
    · obtain ⟨k, hk, hstate⟩ := hstates c hc
      refine ⟨k, hk, ?_⟩
      change (h₄.vcpus c).map _ = _
      rw [hvcpus₄]
      exact hstate
    · exact (congrFun hfiles₅ path).trans hat₄.files
    · have hcalls := ((((hafter.trans hafter₁).trans hafter₂).trans hafter₃).trans hafter₄).trans hafter₅
      rwa [show 1 + 1 + 1 + v.vcpus.length + 2 + 1 = v.vcpus.length + 6 by omega] at hcalls
    · rw [snapshotRestore, run_bind (run_onDisk hopen)]
      dsimp only
      rw [run_bind (run_onDisk hseek), run_bind (run_onDisk hseek'), setDisk_setDisk, setDisk_setDisk,
        run_bind (wp_eq_iff.mp (wp_getVm.mpr ⟨v, hv₂, rfl, rfl⟩)), run_bind hvcpus,
        run_bind hskip, run_bind (run_onDisk hclose)]

end NexusVM
