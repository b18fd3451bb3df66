import NexusVM.Restored

/-!
# Incremental checkpoints

`checkpoint_get_info`, `checkpoint_create_incremental` and `checkpoint_apply_incremental`.

* `checkpointCreateIncremental`, `checkpointApplyIncremental`: the calls;
* `Host.applied`: some states put into the first of some vCPUs;
* `applyVcpus_spec`: the loop over the vCPUs;
* **`checkpointApplyIncremental_effect`**: what it does with any two files.
-/

namespace NexusVM

open Prog Stdio

variable {h₀ h h' g : Host} {a vm t c : Addr} {v w : Nexusvm} {f pos p : ℕ} {path : String}
  {file : List UInt8} {xs cs : List Addr} {files : String → Option (List UInt8)}
  {stale : ℕ → ℕ → UInt8}

/-! ## Calls -/

/-- `checkpoint_get_info`, with what it has read. -/
def checkpointGetInfo (path : Option String) : HostM (Result × List UInt8) := do
  match path with
  | none => return (.errInvalidParam, [])
  | some path =>
    match ← onDisk (fopen path .read) with
    | none => return (.errGeneric, [])
    | some f =>
      let (result, info) ← checkpointRead f sizeofCheckpointHeader
      onDisk (fclose f)
      return (result, info)

/-- The header of an incremental checkpoint: its magic is `"NXVMINCK"`. -/
def incrementalHeader (v : Nexusvm) (timestamp : UInt64) : CheckpointHeader where
  magic := #v[0x4E, 0x58, 0x56, 0x4D, 0x49, 0x4E, 0x43, 0x4B]
  version := NEXUSVM_CHECKPOINT_VERSION
  timestamp := timestamp
  vmId := v.id.toUInt64
  vcpuCount := 0
  memoryRegions := 0
  memorySize := 0
  vmName := Vector.replicate 64 0
  state := 0

/-- The body of the loop of `checkpoint_create_incremental`; the result of the write is not looked at. -/
def saveVcpu (f : ℕ) (c : Addr) : HostM Unit := do
  let u ← getVcpu c
  discard (checkpointWrite f (cpuStateCodec.encode u.cpuState))

/-- `checkpoint_create_incremental`; without a base it is a full checkpoint. -/
def checkpointCreateIncremental (vm : Option Addr) (base path : Option String) (timestamp : UInt64) :
    HostM Result := do
  match vm, path with
  | some a, some path =>
    let (result, _) ← checkpointGetInfo base
    if result ≠ .ok then checkpointCreate (some a) (some path) timestamp
    else
      match ← onDisk (fopen path .write) with
      | none => return .errGeneric
      | some f =>
        let v ← getVm a
        let _ ← checkpointWrite f (checkpointHeaderCodec.encode (incrementalHeader v timestamp))
        Prog.forEach (saveVcpu f) v.vcpus
        onDisk (fclose f)
        return .ok
  | _, _ => return .errInvalidParam

/-- The body of the loop of `checkpoint_apply_incremental`: the state of the `i`-th vCPU. -/
def applyVcpu (vm : Addr) (f : ℕ) (stale : ℕ → ℕ → UInt8) (i : ℕ) : HostM Unit := do
  let (_, data) ← checkpointRead f sizeofCpuState
  let v ← getVm vm
  Prog.when (i < v.vcpuCount.toNat) do
    let c ← Prog.fetch fun _ => v.vcpus[i]?
    discard (vcpuSetState (some c) (cpuStateCodec.decode (fillLocal data (stale i) sizeofCpuState)))

/-- `checkpoint_apply_incremental`: the base is restored into a VM of its own, of which only the number of
vCPUs is used. `stale` and `staleMemory` are what the local variables of it and of
`checkpoint_restore_memory` held. -/
def checkpointApplyIncremental (stale staleMemory : ℕ → ℕ → UInt8) (vm : Option Addr)
    (base incremental : Option String) : HostM Result := do
  match vm, base, incremental with
  | some a, some base, some incremental =>
    match ← checkpointRestore staleMemory (some base) with
    | .error result => return result
    | .ok tempVm =>
      match ← onDisk (fopen incremental .read) with
      | none =>
        discard (vmDestroy (some tempVm))
        return .errGeneric
      | some f =>
        onDisk (fseek f sizeofCheckpointHeader .set)
        let temp ← getVm tempVm
        Prog.forEach (applyVcpu a f stale) (List.range temp.vcpuCount.toNat)
        onDisk (fclose f)
        discard (vmDestroy (some tempVm))
        return .ok
  | _, _, _ => return .errInvalidParam

/-! ## States put into vCPUs -/

/-- The first `n` of the vCPUs `cs` have got the states that are meant for them. -/
def Host.applied (h : Host) (cs : List Addr) (state : ℕ → CpuState) (n : ℕ) : Host :=
  { h with vcpus := fun c => (h.vcpus c).map fun u =>
      if c ∈ cs.take n then { u with cpuState := state (cs.idxOf c) } else u }

section Applied

variable {state : ℕ → CpuState} {n : ℕ} {u : Nexusvcpu}

theorem applied_zero (h : Host) (cs : List Addr) (state : ℕ → CpuState) : h.applied cs state 0 = h := by
  rw [Host.applied]
  simp

theorem applied_succ_none (hn : cs[n]? = none) : h.applied cs state (n + 1) = h.applied cs state n := by
  have hle := List.getElem?_eq_none_iff.mp hn
  rw [Host.applied, Host.applied, List.take_of_length_le hle, List.take_of_length_le (by omega)]

theorem not_mem_take (hnodup : cs.Nodup) (hc : cs[n]? = some c) : c ∉ cs.take n := by
  obtain ⟨hlt, rfl⟩ := List.getElem?_eq_some_iff.mp hc
  intro hmem
  obtain ⟨i, hi, heq⟩ := List.mem_take_iff_getElem.mp hmem
  have := (List.Nodup.getElem_inj_iff hnodup).mp heq
  omega

theorem applied_vcpus_next (hnodup : cs.Nodup) (hc : cs[n]? = some c) :
    (h.applied cs state n).vcpus c = h.vcpus c := by
  rw [Host.applied]
  dsimp only
  simp only [if_neg (not_mem_take hnodup hc), Option.map_id']

theorem applied_succ_some (hnodup : cs.Nodup) (hc : cs[n]? = some c) (hu : h.vcpus c = some u) :
    h.applied cs state (n + 1) =
      (h.applied cs state n).setVcpu c (some { u with cpuState := state n }) := by
  obtain ⟨hlt, hget⟩ := List.getElem?_eq_some_iff.mp hc
  have hidx : cs.idxOf c = n := by
    rw [← hget]
    exact hnodup.idxOf_getElem n hlt
  have htake : cs.take (n + 1) = cs.take n ++ [c] := by rw [List.take_succ_eq_append_getElem hlt, hget]
  have hvcpus : (h.applied cs state (n + 1)).vcpus =
      Function.update (h.applied cs state n).vcpus c (some { u with cpuState := state n }) := by
    funext d
    rw [Host.applied, Host.applied]
    dsimp only
    by_cases hdc : d = c
    · rw [hdc, Function.update_self, hu, Option.map_some, htake, if_pos (by simp), hidx]
    · rw [Function.update_of_ne hdc, htake]
      simp only [List.mem_append, List.mem_singleton, hdc, or_false]
  rw [Host.setVcpu, ← hvcpus]
  rfl

end Applied

/-! ## The loop -/

theorem Adopts.setOther (ha : Adopts g xs vm w h) (hc : c ∉ w.vcpus) {u : Nexusvcpu}
    (hu : g.vcpus c = some u) (state : CpuState) :
    Adopts (g.setVcpu c (some { u with cpuState := state })) xs vm w
      (h.setVcpu c (some { u with cpuState := state })) := by
  have hu' : h.vcpus c = some u := (ha.others c hc).trans hu
  refine { ha with
    good := ha.good.setCpuState hu' state
    registry := ha.registry.congr rfl rfl fun _ => rfl
    fresh := fun d hd => ?_
    others := fun d hd => ?_ }
  · have hne : d ≠ c := by
      rintro rfl
      exact hc hd
    rw [Host.setVcpu_vcpus, Function.update_of_ne hne]
    exact ha.fresh d hd
  · rw [Host.setVcpu_vcpus, Host.setVcpu_vcpus]
    by_cases hdc : d = c
    · rw [hdc, Function.update_self, Function.update_self]
    · rw [Function.update_of_ne hdc, Function.update_of_ne hdc]
      exact ha.others d hd

theorem Adopts.old (ha : Adopts g xs vm w h) (hv : g.vms a = some v) :
    ∃ v', h.vms a = some v' ∧ v'.vcpus = v.vcpus ∧ v'.vcpuCount = v.vcpuCount := by
  have hne : a ≠ vm := by
    rintro rfl
    rw [ha.new] at hv
    cases hv
  rw [ha.vms a hne, hv]
  split_ifs
  · exact ⟨_, rfl, rfl, rfl⟩
  · exact ⟨v, rfl, rfl, rfl⟩

theorem checkpointRead_moves (hr : h.disk.At f path file pos) (size : ℕ) :
    wp (checkpointRead f size) (fun r h' => r.2 = (file.drop pos).take size ∧ h' = h.setDisk h'.disk ∧
      h'.disk.At f path file (pos + r.2.length)) h := by
  rw [checkpointRead, wp_bind, wp_onDisk]
  refine wp_mono (fread_at hr size) ?_
  rintro data d ⟨hdata, hat⟩
  refine wp_ite (fun _ => ?_) fun _ => ?_ <;> rw [wp_pure]
  · exact ⟨hdata, rfl, hat⟩
  · exact ⟨hdata, rfl, hat⟩

/-- **The vCPUs get the states of the file**, as many as there are of both. -/
theorem applyVcpus_spec (hv : h₀.vms a = some v) (hvcpus : HasVcpus h₀ v) (hnodup : v.vcpus.Nodup)
    (ha : Adopts h₀ xs vm w h) (hfiles : h.disk.Holds files) (hat : h.disk.At f path file pos) (n : ℕ) :
    wlp (forEach (applyVcpu a f stale) (List.range n)) (fun _ h' =>
      Adopts (h₀.applied v.vcpus (stateAt stale file pos 0) n) xs vm w h' ∧ h'.disk.Holds files ∧
        ∃ p, h'.disk.At f path file p) h := by
  set st := stateAt stale file pos 0
  refine wlp_mono (wlp_forEach (applyVcpu a f stale) (fun pre h' =>
    Adopts (h₀.applied v.vcpus st pre.length) xs vm w h' ∧ h'.disk.Holds files ∧ ∃ p, h'.disk.At f path file p ∧
      ∀ k, file.drop (p + k) = file.drop (pos + pre.length * sizeofCpuState + k)) (List.range n)
    (fun pre i post h₁ hsplit hI => ?_) ?_) ?_
  · obtain ⟨ha₁, hfiles₁, p, hat₁, hdrop⟩ := hI
    -- the indices come in order
    obtain rfl : i = pre.length := by
      have hlt : pre.length < (List.range n).length := by
        rw [hsplit]
        simp
      have hget : (List.range n)[pre.length] = i := by simp [hsplit]
      rw [← hget, List.getElem_range]
    rw [applyVcpu, wlp_bind]
    refine wlp_mono (wlp_and (checkpointRead_moves hat₁ sizeofCpuState).wlp
      (checkpointRead_onlyDisk f sizeofCpuState h₁ ⟨Eq.refl (h₁.setDisk h₁.disk), hfiles₁⟩)) ?_
    rintro ⟨result, data⟩ h₂ ⟨⟨hdata, hrest, hat₂⟩, -, hfiles₂⟩
    dsimp only at hdata hat₂ ⊢
    have ha₂ : Adopts (h₀.applied v.vcpus st pre.length) xs vm w h₂ := hrest ▸ ha₁.setDisk h₂.disk
    have hdrop₂ : ∀ k, file.drop (p + data.length + k) =
        file.drop (pos + (pre.length + 1) * sizeofCpuState + k) := by
      intro k
      rw [hdata, drop_take_behind, Nat.add_assoc, hdrop, Nat.succ_mul, Nat.add_assoc, Nat.add_assoc,
        Nat.add_assoc]
    have hstate : cpuStateCodec.decode (fillLocal data (stale pre.length) sizeofCpuState) = st pre.length := by
      have hdata' := hdrop 0
      rw [Nat.add_zero, Nat.add_zero] at hdata'
      simp only [st, stateAt, Nat.zero_add, hdata, hdata']
    obtain ⟨v', hv', hcs, hcount⟩ := ha₂.old hv
    rw [wlp_bind, wlp_getVm]
    intro x hx
    obtain rfl : v' = x := Option.some.inj (hv'.symm.trans hx)
    rw [hcount, hcs, ← hvcpus.count, List.length_append, List.length_singleton, wlp_when]
    refine ⟨fun hlt => ?_, fun hge => ?_⟩
    · obtain ⟨c, hc⟩ : ∃ c, v.vcpus[pre.length]? = some c := ⟨_, List.getElem?_eq_getElem hlt⟩
      obtain ⟨u, hu⟩ := hvcpus.vcpus c (List.mem_of_getElem? hc)
      have hu₂ : (h₀.applied v.vcpus st pre.length).vcpus c = some u :=
        (applied_vcpus_next hnodup hc).trans hu
      have hnot : c ∉ w.vcpus := by
        intro hmem
        rw [ha₂.fresh c hmem] at hu₂
        cases hu₂
      rw [wlp_bind, wlp_fetch]
      intro c' hc'
      obtain rfl : c = c' := Option.some.inj (hc.symm.trans hc')
      simp only [wlp_discard, vcpuSetState, wlp_bind, wlp_getVcpu, wlp_putVcpu, wlp_pure]
      intro u' hu'
      obtain rfl : u = u' := Option.some.inj ((((ha₂.others c hnot).trans hu₂).symm).trans hu')
      rw [hstate, applied_succ_some hnodup hc hu]
      exact ⟨ha₂.setOther hnot hu₂ _, hfiles₂, _, hat₂, hdrop₂⟩
    · rw [applied_succ_none (List.getElem?_eq_none_iff.mpr (Nat.le_of_not_lt hge))]
      exact ⟨ha₂, hfiles₂, _, hat₂, hdrop₂⟩
  · rw [List.length_nil, applied_zero, Nat.zero_mul]
    exact ⟨ha, hfiles, pos, hat, fun _ => rfl⟩
  · rintro _ h' ⟨ha', hfiles', p, hat', -⟩
    rw [List.length_range] at ha'
    exact ⟨ha', hfiles', p, hat'⟩

/-! ## Applying -/

/-- The state that an incremental checkpoint has for the `k`-th vCPU. -/
def incrementalState (stale : ℕ → ℕ → UInt8) (file : List UInt8) : ℕ → CpuState :=
  stateAt stale file sizeofCheckpointHeader 0

theorem HasVcpus.of_good (hg : Good h) (hv : h.vms a = some v) : HasVcpus h v ∧ v.vcpus.Nodup :=
  ⟨hg.layout.hasVcpus trivial hv, hg.layout.nodup a v trivial hv⟩

/-- **What `checkpoint_apply_incremental` does with any two files.** -/
theorem checkpointApplyIncremental_effect (hg : Good h) (hr : Registry h xs) (hidle : h.disk.Idle)
    (hv : h.vms a = some v) (stale staleMemory : ℕ → ℕ → UInt8) (base incremental : String) :
    wlp (checkpointApplyIncremental stale staleMemory (some a) (some base) (some incremental))
      (fun r h' => h'.disk.files = h.disk.files ∧ Registry h' xs ∧ (r ≠ .ok → SameObjects h h') ∧
        (r = .ok → ∃ baseFile file config, h.disk.files base = some baseFile ∧
          h.disk.files incremental = some file ∧ HasConfig baseFile config ∧ vcpusEnd config ≤ baseFile.length ∧
          SameObjects (h.applied v.vcpus (incrementalState stale file) config.vcpuCount.toNat) h')) h := by
  obtain ⟨hvcpus, hnodup⟩ := HasVcpus.of_good hg hv
  rw [checkpointApplyIncremental, wlp_bind]
  refine wlp_mono (checkpointRestore_effect hg hr hidle staleMemory base) ?_
  rintro r h₁ ⟨hfiles₁, heffect⟩
  cases r with
  | error e =>
    obtain ⟨hne, -, hr₁, hsame⟩ := heffect
    rw [wlp_pure]
    exact ⟨hfiles₁.2, hr₁, fun _ => hsame, fun hok => absurd hok hne⟩
  | ok tempVm =>
    obtain ⟨baseFile, w, hbase, hw⟩ := heffect
    have ha := hw.toAdopts
    rw [wlp_bind, wlp_onDisk]
    intro o d hopen
    have hfiles₂ : d.Holds h.disk.files := fopen_holds incremental h₁.disk hfiles₁ _ _ hopen
    cases o with
    | none =>
      rw [wlp_bind, wlp_discard]
      refine wlp_mono ((ha.setDisk d).destroy hr).wlp ?_
      rintro _ h₃ ⟨-, hr₃, hsame, hdisk⟩
      rw [wlp_pure, hdisk]
      exact ⟨hfiles₂.2, hr₃, fun _ => hsame, by simp⟩
    | some f =>
      -- only a file that is there is opened
      obtain ⟨file, hfile⟩ : ∃ file, h.disk.files incremental = some file := by
        rw [← Option.ne_none_iff_exists']
        intro hnone
        obtain ⟨hnull, -⟩ := fopen_none (by rw [hfiles₁.2, hnone]) _ _ hopen
        cases hnull
      have hfile₁ : h₁.disk.files incremental = some file := by rw [hfiles₁.2, hfile]
      obtain ⟨-, -, -, hat⟩ := (fopen_at hfiles₁.1 hfile₁).wlp _ _ hopen
      rw [wlp_bind, wlp_onDisk]
      refine wlp_mono (wlp_and (fseek_at (hat f rfl) _ .set).wlp (fseek_holds _ .set d hfiles₂)) ?_
      rintro _ d₂ ⟨hat₂, hfiles₃⟩
      have hstart : Disk.seekPos 0 sizeofCheckpointHeader .set = sizeofCheckpointHeader := by
        rw [Disk.seekPos, if_pos (Int.natCast_nonneg _), Int.toNat_natCast]
      rw [hstart] at hat₂
      rw [wlp_bind, wlp_getVm]
      intro w' hw'
      obtain rfl : w = w' := Option.some.inj (ha.getVm.symm.trans hw')
      rw [wlp_bind]
      refine wlp_mono (applyVcpus_spec hv hvcpus hnodup (ha.setDisk d₂) hfiles₃ hat₂ _) ?_
      rintro _ h₄ ⟨ha₄, hfiles₄, -⟩
      rw [wlp_bind, wlp_onDisk]
      refine wlp_mono (fclose_holds _ hfiles₄) fun _ d₅ hfiles₅ => ?_
      rw [wlp_bind, wlp_discard]
      have hr' : Registry (h.applied v.vcpus (incrementalState stale file) w.vcpuCount.toNat) xs :=
        hr.congr rfl rfl fun _ => rfl
      refine wlp_mono ((ha₄.setDisk d₅).destroy hr').wlp ?_
      rintro _ h₆ ⟨-, hr₆, hsame, hdisk⟩
      have hcount : w.vcpuCount.toNat = w.config.vcpuCount.toNat := by
        rw [← hw.length, (HasVcpus.of_good hw.good hw.getVm).1.count]
      rw [wlp_pure, hdisk]
      rw [hcount] at hsame
      exact ⟨hfiles₅.2, hr₆, fun hne => absurd rfl hne,
        fun _ => ⟨baseFile, file, w.config, hbase, hfile, hw.config, hw.whole, hsame⟩⟩

end NexusVM
