import NexusVM.SnapshotAtomic

/-!
# What a restored checkpoint is

* `EmptyRoot`, `vmGpaToHpa_empty`: page tables with nothing in them;
* `Adopts`: a new VM in front of those that were there, and `Adopts.destroy`: it is taken back;
* `readVcpus_adopts`, `readDevices_adopts`, `checkpointRestoreMemory_empty`, `fillVm_effect`: the parts;
* **`checkpointRestore_effect`**: the VM that comes back has the configuration and the registers of the
  file, and no memory; an error leaves everything as it was.
-/

namespace NexusVM

open Prog Stdio

variable {h₀ h h' : Host} {vm c : Addr} {v : Nexusvm} {f pos : ℕ} {path : String} {file : List UInt8}
  {config : VmConfig} {xs : List Addr} {files : String → Option (List UInt8)}

/-! ## Nothing mapped -/

/-- The root of the page tables of the VM is there, and no entry of it is present. -/
def EmptyRoot (m : PhysMem) (v : Nexusvm) : Prop :=
  ∃ root, v.eptRoot = some root ∧ m.Mapped root ∧ m.tables root = fun _ => {}

theorem EmptyRoot.congr {m m' : PhysMem} (he : EmptyRoot m v) (hlive : m'.heap.live = m.heap.live)
    (htables : m'.tables = m.tables) : EmptyRoot m' v := by
  obtain ⟨root, hroot, hmapped, hempty⟩ := he
  refine ⟨root, hroot, ?_, by rw [htables, hempty]⟩
  unfold PhysMem.Mapped
  rw [hlive]
  exact hmapped

/-- **Nothing is mapped** where the root is empty. -/
theorem vmGpaToHpa_empty (hv : h.vms vm = some v) (he : EmptyRoot h.mem v) (gpa : UInt64) :
    wlp (vmGpaToHpa (some vm) gpa) (fun hpa h' => hpa = INVALID_PHYS_ADDR ∧ h' = h) h := by
  obtain ⟨root, hroot, -, hempty⟩ := he
  rw [vmGpaToHpa, wlp_bind, wlp_getVm]
  intro v' hv'
  obtain rfl := Option.some.inj (hv.symm.trans hv')
  rw [hroot]
  refine wlp_ite (fun hnull => by cases hnull) fun _ => ?_
  rw [wlp_bind, wlp_onMem]
  simp only [eptLookup, readEntry, wlp_bind, wlp_get, wlp_require, wlp_pure, hempty]
  refine fun _ => wlp_ite (fun _ => ?_) fun habsent => absurd rfl habsent
  rw [wlp_pure, wlp_pure]
  exact ⟨rfl, rfl⟩

/-- VMs, vCPUs and scheduling are as before. -/
structure SameObjects (h h' : Host) : Prop where
  vms : h'.vms = h.vms
  vcpus : h'.vcpus = h.vcpus
  entities : h'.entities = h.entities
  links : h'.links = h.links
  current : h'.current = h.current

theorem SameObjects.trans {h'' : Host} (s : SameObjects h h') (s' : SameObjects h' h'') : SameObjects h h'' :=
  ⟨s'.1.trans s.1, s'.2.trans s.2, s'.3.trans s.3, s'.4.trans s.4, s'.5.trans s.5⟩

theorem SameObjects.setDisk (h : Host) (d : Disk) : SameObjects h (h.setDisk d) := ⟨rfl, rfl, rfl, rfl, rfl⟩

/-- The VM `v` at `vm`, with its own vCPUs and with nothing mapped, has been put in front of the VMs
`xs` of `h₀`; of these only the first knows. -/
structure Adopts (h₀ : Host) (xs : List Addr) (vm : Addr) (v : Nexusvm) (h : Host) : Prop where
  good : Good h
  registry : Registry h (vm :: xs)
  getVm : h.vms vm = some v
  new : h₀.vms vm = none
  state : v.state = .initialized
  next : v.next = h₀.hv.vms
  prev : v.prev = none
  vms : ∀ b, b ≠ vm → h.vms b =
    if h₀.hv.vms = some b then (h₀.vms b).map fun w => { w with prev := some vm } else h₀.vms b
  fresh : ∀ c ∈ v.vcpus, h₀.vcpus c = none
  others : ∀ c, c ∉ v.vcpus → h.vcpus c = h₀.vcpus c
  entities : h.entities = h₀.entities
  links : h.links = h₀.links
  current : h.current = h₀.current
  empty : EmptyRoot h.mem v

theorem Adopts.getVcpu (ha : Adopts h₀ xs vm v h) (hc : c ∈ v.vcpus) : ∃ u, h.vcpus c = some u := by
  obtain ⟨u, hu, -⟩ := ha.good.layout.vcpus vm v trivial ha.getVm c hc
  exact ⟨u, hu⟩

theorem Adopts.congr (ha : Adopts h₀ xs vm v h) {m : PhysMem} (hlive : m.heap.live = h.mem.heap.live)
    (htables : m.tables = h.mem.tables) (d : Disk) : Adopts h₀ xs vm v ((h.setMem m).setDisk d) := by
  have hl : Layout (fun _ => True) ((h.setMem m).setDisk d) := by
    refine ha.good.layout.same ⟨rfl, rfl, rfl, rfl, rfl⟩ rfl rfl rfl rfl fun b hb => ?_
    change b ∈ m.heap.live
    rwa [hlive]
  exact { ha with
    good := ha.good.of_flags hl rfl fun c u hu => ⟨u, hu, rfl, rfl⟩
    registry := ha.registry.congr rfl rfl fun _ => rfl
    empty := ha.empty.congr hlive htables }

theorem Adopts.setDisk (ha : Adopts h₀ xs vm v h) (d : Disk) : Adopts h₀ xs vm v (h.setDisk d) :=
  ha.congr rfl rfl d

theorem Adopts.of_setDisk {d : Disk} (ha : Adopts (h₀.setDisk d) xs vm v h) : Adopts h₀ xs vm v h :=
  ⟨ha.good, ha.registry, ha.getVm, ha.new, ha.state, ha.next, ha.prev, ha.vms, ha.fresh, ha.others,
    ha.entities, ha.links, ha.current, ha.empty⟩

theorem Adopts.setCpuState (ha : Adopts h₀ xs vm v h) (hc : c ∈ v.vcpus) {u : Nexusvcpu}
    (hu : h.vcpus c = some u) (state : CpuState) :
    Adopts h₀ xs vm v (h.setVcpu c (some { u with cpuState := state })) := by
  refine { ha with
    good := ha.good.setCpuState hu state
    registry := ha.registry.congr rfl rfl fun _ => rfl
    others := fun d hd => ?_ }
  have hne : d ≠ c := by
    rintro rfl
    exact hd hc
  rw [Host.setVcpu_vcpus, Function.update_of_ne hne]
  exact ha.others d hd

/-- **A VM that `vm_create` has made** is in front of the others. -/
theorem adopts_create (hg : Good h) (hr : Registry h xs) {h₁ : Host} {name : List UInt8}
    (hid : SameIdentity (newVm config h.hv.nextVmId name) v)
    (hlen : v.vcpus.length = config.vcpuCount.toNat) (hroot : v.eptRoot ≠ none)
    (hb : Builds vm h v v.vcpus h₁) :
    Adopts h xs vm { v with next := h.hv.vms, state := .initialized } (h₁.linkVm vm v) := by
  obtain ⟨hrestoring, -⟩ := restoring_create hg hr hid hlen hb
  have hhv : h₁.hv.vms = h.hv.vms := by
    rw [hb.shape]
    rfl
  have hself : (h₁.linkVm vm v).vms vm = some { v with next := h₁.hv.vms, state := .initialized } :=
    if_pos rfl
  rw [hhv] at hself
  refine ⟨hrestoring.good, hrestoring.registry, hself, hg.layout.vms_none vm hb.fresh, rfl, rfl, hid.prev,
    fun b hne => ?_, fun c hc => ?_, hb.others, ?_, ?_, ?_, ?_⟩
  · rw [Host.linkVm]
    dsimp only
    rw [if_neg hne, hhv, hb.vms_eq hne]
  · obtain ⟨u, -, hnew, -⟩ := hb.new c hc
    exact hg.layout.vcpus_none c (hnew.blocks (.vcpu, some c) (by simp [vcpuBlocks]) c rfl)
  · rw [Host.linkVm, hb.shape]
  · rw [Host.linkVm, hb.shape]
  · rw [Host.linkVm, hb.shape]
  · obtain ⟨root, hroot⟩ := Option.ne_none_iff_exists'.mp hroot
    obtain ⟨-, hlive, hempty⟩ := hb.root root hroot
    exact ⟨root, hroot, ⟨_, hlive, rfl, le_refl _, le_refl _⟩, hempty⟩

/-- **The new VM is taken back**: everything is as it was. -/
theorem Adopts.destroy (ha : Adopts h₀ xs vm v h) (hr₀ : Registry h₀ xs) :
    wp (vmDestroy (some vm)) (fun _ h' => Good h' ∧ Registry h' xs ∧ SameObjects h₀ h' ∧
      h'.disk = h.disk) h := by
  have hstate : v.state ≠ .running := by rw [ha.state]; decide
  obtain ⟨hprev, hnext⟩ := ha.registry.neighbours ha.getVm
  refine wp_mono (wp_and (vmDestroy_disk ha.good ha.registry ha.getVm hstate)
    (vmDestroy_spec ha.good ha.getVm hprev hnext)) ?_
  rintro _ h' ⟨⟨hdisk, hr'⟩, hd⟩
  refine ⟨ha.good.destroy ha.getVm hd, hr', ⟨?_, ?_, hd.entities.trans ha.entities, ?_,
    hd.statics.current.trans ha.current⟩, hdisk⟩
  · funext b
    rw [hd.vms]
    by_cases hb : b = vm
    · rw [hb, Function.update_self, ha.new]
    · rw [Function.update_of_ne hb, Host.unlinkVm, ha.prev, ha.next]
      dsimp only
      rw [if_neg (by simp), ha.vms b hb]
      split_ifs with hfirst
      · -- the first of the VMs had none before it
        cases xs with
        | nil =>
          have hnone : h₀.hv.vms = none := hr₀.doublyLinked
          rw [hnone] at hfirst
          cases hfirst
        | cons x xs =>
          obtain ⟨hx, w, hw, hwprev, -⟩ := hr₀.doublyLinked
          obtain rfl : b = x := by
            rw [hfirst] at hx
            exact Option.some.inj hx
          rw [hw, Option.map_some, Option.map_some, ← hwprev]
      · rfl
  · funext c
    rw [hd.vcpus]
    split_ifs with hc
    · exact (ha.fresh c hc).symm
    · exact ha.others c hc
  · rcases hd.links with ⟨-, heq⟩ | ⟨hrun, -⟩
    · exact heq.trans ha.links
    · exact absurd hrun hstate

/-! ## The parts -/

/-- Only the disk is another one, and its files are as they were. -/
def OnlyDisk (files : String → Option (List UInt8)) (h₀ h : Host) : Prop :=
  h = h₀.setDisk h.disk ∧ h.disk.Holds files

theorem OnlyDisk.refl {h : Host} (hd : Disk.Holds files h.disk) : OnlyDisk files h h := ⟨rfl, hd⟩

theorem OnlyDisk.setDisk {h : Host} {d : Disk} (hd : Disk.Holds files d) : OnlyDisk files h (h.setDisk d) :=
  ⟨rfl, hd⟩

theorem OnlyDisk.of_disk {α : Type} {x : Prog Disk α} (hx : Preserves (Disk.Holds files) x) :
    Preserves (OnlyDisk files h₀) (onDisk x) := by
  rintro h ⟨heq, hd⟩
  rw [wlp_onDisk]
  refine wlp_mono (hx h.disk hd) fun _ d hd' => ⟨?_, hd'⟩
  rw [heq]
  rfl

theorem checkpointRead_onlyDisk (f size : ℕ) : Preserves (OnlyDisk files h₀) (checkpointRead f size) :=
  (OnlyDisk.of_disk (fread_holds size)).bind fun _ => .ite (.pure _) (.pure _)

theorem readConfig_onlyDisk (f : ℕ) : Preserves (OnlyDisk files h₀) (readConfig f) := by
  refine (checkpointRead_onlyDisk f _).bind ?_
  rintro ⟨result, data⟩
  refine .ite (.pure _) ((Preserves.fetch _).bind fun order => .ite (.pure _) ?_)
  refine (checkpointRead_onlyDisk f _).bind ?_
  rintro ⟨result, data⟩
  exact .ite (.pure _) (.pure _)

/-- **Nothing is stored** through page tables with nothing in them. -/
theorem checkpointRestoreMemory_empty {stale : ℕ → ℕ → UInt8} (hv : h₀.vms vm = some v)
    (he : EmptyRoot h₀.mem v) (path : String) :
    Preserves (OnlyDisk files h₀) (checkpointRestoreMemory stale (some vm) (some path)) := by
  have hregion : ∀ (f : ℕ) (stale : ℕ → UInt8), Preserves (OnlyDisk files h₀) (restoreRegion vm f stale) := by
    refine fun f stale => (OnlyDisk.of_disk (fread_holds _)).bind fun data => ?_
    dsimp only
    generalize regionRecordCodec.decode (fillLocal data stale regionRecordCodec.size) = region
    rintro h ⟨heq, hd⟩
    rw [wlp_when]
    refine ⟨fun _ => ?_, fun _ => ⟨heq, hd⟩⟩
    have hv' : h.vms vm = some v := by
      rw [heq]
      exact hv
    have he' : EmptyRoot h.mem v := by
      rw [heq]
      exact he
    rw [wlp_bind]
    refine wlp_mono (vmGpaToHpa_empty hv' he' region.guestPhys) ?_
    rintro _ _ ⟨rfl, rfl⟩
    rw [wlp_when]
    exact ⟨fun hvalid => absurd rfl hvalid, fun _ => ⟨heq, hd⟩⟩
  refine (OnlyDisk.of_disk (fopen_holds path)).bind fun o => ?_
  cases o with
  | none => exact .pure _
  | some f =>
    refine (OnlyDisk.of_disk (fseek_holds _ _)).bind fun _ => (OnlyDisk.of_disk (fseek_holds _ _)).bind fun _ => ?_
    refine (Preserves.fetch _).bind fun w => (OnlyDisk.of_disk (fseek_holds _ _)).bind fun _ => ?_
    refine Preserves.bind ?_ fun _ => ?_
    · exact (OnlyDisk.of_disk (fread_holds _)).bind fun _ => OnlyDisk.of_disk (fseek_holds _ _)
    refine (Preserves.forEach fun i _ => hregion f _).bind fun _ => ?_
    exact (OnlyDisk.of_disk fclose_holds).bind fun _ => .pure _

/-- The state that the `k`-th record at `pos` is. -/
def wholeState (file : List UInt8) (pos k : ℕ) : CpuState :=
  cpuStateCodec.decode ((file.drop (pos + k * sizeofCpuState)).take sizeofCpuState)

/-- **The registers are read**; where the file ends too early, the new VM is taken back. -/
theorem readVcpus_adopts {cs : List Addr} (hr₀ : Registry h₀ xs) (ha : Adopts h₀ xs vm v h)
    (hcs : ∀ c ∈ cs, c ∈ v.vcpus) (hnodup : cs.Nodup) (hfiles : h.disk.Holds files)
    (hat : h.disk.At f path file pos) (hpos : pos ≤ file.length) :
    wlp (readVcpus vm f cs) (fun r h' => h'.disk.Holds files ∧ (∃ p, h'.disk.At f path file p) ∧
      (r = .ok → Adopts h₀ xs vm v h' ∧ pos + cs.length * sizeofCpuState ≤ file.length ∧
        (∀ c, c ∉ cs → h'.vcpus c = h.vcpus c) ∧ ∀ (k : ℕ) (c : Addr), cs[k]? = some c →
          (h'.vcpus c).map Nexusvcpu.cpuState = some (wholeState file pos k)) ∧
      (r ≠ .ok → Good h' ∧ Registry h' xs ∧ SameObjects h₀ h')) h := by
  induction cs generalizing h pos with
  | nil =>
    rw [readVcpus, wlp_pure]
    exact ⟨hfiles, ⟨pos, hat⟩, fun _ => ⟨ha, by simpa using hpos, fun _ _ => rfl, by simp⟩, fun hne => absurd rfl hne⟩
  | cons c cs ih =>
    obtain ⟨hc, hcs⟩ := List.forall_mem_cons.mp hcs
    obtain ⟨hnot, hnodup⟩ := List.nodup_cons.mp hnodup
    rw [readVcpus, wlp_bind]
    refine wlp_mono (wlp_and (checkpointRead_at hat (by decide)).wlp
      (checkpointRead_onlyDisk f sizeofCpuState h (.refl hfiles))) ?_
    rintro ⟨result, data⟩ h₁ ⟨⟨hrest, hdata, hok, hat₁, hgo⟩, -, hfiles₁⟩
    dsimp only at hdata hok hgo ⊢
    have ha₁ : Adopts h₀ xs vm v h₁ := hrest ▸ ha.setDisk h₁.disk
    refine wlp_ite (fun hne => ?_) fun heq => ?_
    · rw [wlp_bind, wlp_discard]
      refine wlp_mono (ha₁.destroy hr₀).wlp ?_
      rintro _ h₂ ⟨hg, hr, hsame, hdisk⟩
      rw [wlp_pure, hdisk]
      exact ⟨hfiles₁, hat₁, fun heq => absurd heq hne, fun _ => ⟨hg, hr, hsame⟩⟩
    · have hok' := not_not.mp heq
      obtain ⟨u, hu⟩ := ha₁.getVcpu hc
      simp only [vcpuSetState, wlp_bind, wlp_getVcpu, wlp_putVcpu, wlp_pure]
      intro u' hu'
      obtain rfl : u = u' := Option.some.inj (hu.symm.trans hu')
      refine wlp_mono (ih (ha₁.setCpuState hc hu _) hcs hnodup hfiles₁ (hgo hok') (hok.mp hok')) ?_
      rintro r h₂ ⟨hfiles₂, hat₂, hread, hfailed⟩
      refine ⟨hfiles₂, hat₂, fun hr => ?_, hfailed⟩
      obtain ⟨ha₂, hwhole, hothers, hstates⟩ := hread hr
      have hother : ∀ d, d ≠ c → (h₁.setVcpu c (some { u with cpuState := cpuStateCodec.decode data })).vcpus d =
          h.vcpus d := by
        intro d hd
        rw [Host.setVcpu_vcpus, Function.update_of_ne hd, hrest]
        rfl
      refine ⟨ha₂, ?_, fun d hd => ?_, fun k d hk => ?_⟩
      · rw [List.length_cons, Nat.add_mul]
        omega
      · rw [List.mem_cons, not_or] at hd
        rw [hothers d hd.2, hother d hd.1]
      · cases k with
        | zero =>
          obtain rfl : c = d := Option.some.inj hk
          rw [hothers c hnot, Host.setVcpu_self, hdata, wholeState, Nat.zero_mul]
          rfl
        | succ k =>
          rw [hstates k d hk, wholeState, wholeState, Nat.succ_mul]
          congr 4
          omega

/-- **The devices are read**, and nothing comes of it. -/
theorem readDevices_adopts (ha : Adopts h₀ xs vm v h) (hfiles : h.disk.Holds files)
    (hat : h.disk.At f path file pos) : wlp (readDevices f) (fun _ h' => Adopts h₀ xs vm v h' ∧
      h'.vcpus = h.vcpus ∧ h'.disk.Holds files ∧ ∃ p, h'.disk.At f path file p) h := by
  rw [readDevices, wlp_bind]
  refine wlp_mono (wlp_and (checkpointRead_at hat (by decide)).wlp
    (checkpointRead_onlyDisk f Codec.u64.size h (.refl hfiles))) ?_
  rintro ⟨result, data⟩ h₁ ⟨⟨hrest, -, -, ⟨p, hat₁⟩, -⟩, -, hfiles₁⟩
  have ha₁ : Adopts h₀ xs vm v h₁ := hrest ▸ ha.setDisk h₁.disk
  have hvcpus₁ : h₁.vcpus = h.vcpus := by
    rw [hrest]
    rfl
  dsimp only
  rw [wlp_when]
  refine ⟨fun hsize => ?_, fun _ => ⟨ha₁, hvcpus₁, hfiles₁, p, hat₁⟩⟩
  rw [wlp_bind]
  refine (wp_alignedAlloc_iff.mpr ⟨fun b _ _ => ?_, fun _ => ?_⟩).wlp
  · generalize hg : h₁.grant ⟨.deviceState, b, (Codec.u64.decode data).toNat⟩ = g
    have hdisk : g.disk = h₁.disk := by
      rw [← hg]
      rfl
    rw [wlp_bind]
    refine wlp_mono (wlp_and (checkpointRead_at (h := g) (hdisk ▸ hat₁) hsize.2).wlp
      (checkpointRead_onlyDisk f _ g (.refl (hdisk ▸ hfiles₁)))) ?_
    rintro ⟨result₂, data₂⟩ h₂ ⟨⟨hrest₂, -, -, hat₂, -⟩, -, hfiles₂⟩
    dsimp only
    have hend : wlp (freeBuffer .deviceState (some b)) (fun _ h' => Adopts h₀ xs vm v h' ∧
        h'.vcpus = h.vcpus ∧ h'.disk.Holds files ∧ ∃ p, h'.disk.At f path file p) h₂ := by
      refine (wp_freeBuffer_some.mpr ?_).wlp
      have heq : h₂.release .deviceState b = (h₁.setMem (h₂.release .deviceState b).mem).setDisk h₂.disk := by
        rw [hrest₂, ← hg]
        rfl
      have hlive : (h₂.release .deviceState b).mem.heap.live = h₁.mem.heap.live := by
        rw [hrest₂, ← hg]
        exact release_grant_live h₁.mem.heap ⟨.deviceState, b, _⟩
      have htables : (h₂.release .deviceState b).mem.tables = h₁.mem.tables := by
        rw [hrest₂, ← hg]
        rfl
      rw [heq]
      exact ⟨ha₁.congr hlive htables _, hvcpus₁, hfiles₂, hat₂⟩
    rw [wlp_bind, wlp_when]
    refine ⟨fun _ => ?_, fun _ => hend⟩
    rw [checkpointRestoreDeviceState, wlp_require]
    exact fun _ => hend
  · rw [wlp_pure]
    exact ⟨ha₁.congr (m := h₁.refuse.mem) rfl rfl h₁.disk, hvcpus₁, hfiles₁, p, hat₁⟩

/-! ## The call -/

/-- The state that the file has for the `k`-th vCPU. -/
def recordedState (file : List UInt8) (k : ℕ) : CpuState :=
  wholeState file (sizeofCheckpointHeader + sizeofVmConfig) k

/-- The VM `v` at `vm` is what the file says, and in front of those of `h`. -/
structure RestoredVm (h : Host) (file : List UInt8) (xs : List Addr) (vm : Addr) (v : Nexusvm) (h' : Host) : Prop
    extends Adopts h xs vm v h' where
  config : HasConfig file v.config
  length : v.vcpus.length = v.config.vcpuCount.toNat
  whole : vcpusEnd v.config ≤ file.length
  states : ∀ (k : ℕ) (c : Addr), v.vcpus[k]? = some c →
    (h'.vcpus c).map Nexusvcpu.cpuState = some (recordedState file k)

theorem checkpointRead_result (f size : ℕ) (h : Host) :
    wlp (checkpointRead f size) (fun r _ => r.1 ≠ .ok → r.1 = .errGeneric) h := by
  rw [checkpointRead, wlp_bind]
  intro data h₁ _
  refine wlp_ite (fun _ => ?_) fun _ => ?_ <;> rw [wlp_pure]
  · exact fun _ => rfl
  · exact fun hne => absurd rfl hne

theorem readConfig_error (f : ℕ) (h : Host) :
    wlp (readConfig f) (fun r _ => ∀ e, r = .error e → e = .errGeneric) h := by
  rw [readConfig, wlp_bind]
  refine wlp_mono (checkpointRead_result f _ h) ?_
  rintro ⟨result, data⟩ h₁ hresult
  refine wlp_ite (fun hne => ?_) fun _ => ?_
  · rw [wlp_pure]
    rintro e ⟨⟩
    exact hresult hne
  rw [wlp_bind]
  intro order h₂ _
  refine wlp_ite (fun _ => ?_) fun _ => ?_
  · rw [wlp_pure]
    rintro e ⟨⟩
    rfl
  rw [wlp_bind]
  refine wlp_mono (checkpointRead_result f _ h₂) ?_
  rintro ⟨result, data⟩ h₃ hresult
  refine wlp_ite (fun hne => ?_) fun _ => ?_ <;> rw [wlp_pure]
  · rintro e ⟨⟩
    exact hresult hne
  · rintro e ⟨⟩

theorem vmCreate_error (config : VmConfig) (h : Host) :
    wlp (vmCreate (some config)) (fun r _ => ∀ e, r = .error e → e ≠ .ok) h := by
  rw [vmCreate, wlp_bind, wlp_get]
  refine wlp_ite (fun _ => ?_) fun _ => ?_
  · rw [wlp_pure]
    rintro e ⟨⟩
    decide
  rw [wlp_bind]
  intro o h₁ _
  cases o with
  | none =>
    rw [wlp_pure]
    rintro e ⟨⟩
    decide
  | some vm =>
    simp only [wlp_bind]
    intro hv h₂ _ _ h₃ _ name h₄ _ _ h₅ _ result h₆ _
    refine wlp_ite (fun hne => ?_) fun _ => ?_ <;> rw [wlp_bind] <;> intro _ _ _ <;> rw [wlp_pure]
    · rintro e ⟨⟩
      exact hne
    · rintro e ⟨⟩

/-- **The new VM is filled in**: with the registers of the file, and with no memory. -/
theorem fillVm_effect {h₁ : Host} (hr : Registry h xs) (ha : Adopts h xs vm v h₁) (hconfig : HasConfig file v.config)
    (hlength : v.vcpus.length = v.config.vcpuCount.toNat) (hfiles : h₁.disk.Holds h.disk.files)
    (hat : h₁.disk.At f path file (sizeofCheckpointHeader + sizeofVmConfig)) (stale : ℕ → ℕ → UInt8)
    (path : String) : wlp (do
      let v ← getVm vm
      let result ← readVcpus vm f v.vcpus
      if result ≠ .ok then
        onDisk (fclose f)
        return .error result
      readDevices f
      onDisk (fclose f)
      let _ ← checkpointRestoreMemory stale (some vm) (some path)
      return .ok vm : HostM (Except Result Addr)) (fun r h' => h'.disk.Holds h.disk.files ∧ match r with
      | .error e => e ≠ .ok ∧ Good h' ∧ Registry h' xs ∧ SameObjects h h'
      | .ok vm => ∃ v, RestoredVm h file xs vm v h') h₁ := by
  rw [wlp_bind, wlp_getVm]
  intro w hw
  obtain rfl : v = w := Option.some.inj (ha.getVm.symm.trans hw)
  rw [wlp_bind]
  refine wlp_mono (readVcpus_adopts hr ha (fun _ => id) (ha.good.layout.nodup vm v trivial ha.getVm)
    hfiles hat hconfig.long) ?_
  rintro result h₃ ⟨hfiles₃, ⟨p₃, hat₃⟩, hread, hfailed⟩
  refine wlp_ite (fun hne => ?_) fun heq => ?_
  · obtain ⟨hg₃, hr₃, hsame₃⟩ := hfailed hne
    rw [wlp_bind, wlp_onDisk]
    refine wlp_mono (fclose_holds _ hfiles₃) fun _ d₄ hfiles₄ => ?_
    rw [wlp_pure]
    exact ⟨hfiles₄, hne, hg₃.setDisk d₄, hr₃.setDisk d₄, hsame₃.trans (.setDisk h₃ d₄)⟩
  · obtain ⟨ha₃, hwhole, -, hstates⟩ := hread (not_not.mp heq)
    rw [wlp_bind]
    refine wlp_mono (readDevices_adopts ha₃ hfiles₃ hat₃) ?_
    rintro _ h₄ ⟨ha₄, hvcpus₄, hfiles₄, -⟩
    rw [wlp_bind, wlp_onDisk]
    refine wlp_mono (fclose_holds _ hfiles₄) fun _ d₅ hfiles₅ => ?_
    have ha₅ := ha₄.setDisk d₅
    rw [wlp_bind]
    refine wlp_mono (checkpointRestoreMemory_empty ha₅.getVm ha₅.empty path _ ⟨rfl, hfiles₅⟩) ?_
    rintro _ h₆ ⟨heq₆, hfiles₆⟩
    rw [wlp_pure]
    refine ⟨hfiles₆, v, ⟨heq₆ ▸ ha₅.setDisk h₆.disk, hconfig, hlength, ?_, fun k c hk => ?_⟩⟩
    · rw [vcpusEnd, ← hlength]
      exact hwhole
    · rw [heq₆]
      change (h₄.vcpus c).map _ = _
      rw [hvcpus₄]
      exact hstates k c hk

/-- **What `checkpoint_restore` makes of a file.** -/
theorem checkpointRestore_effect (hg : Good h) (hr : Registry h xs) (hidle : h.disk.Idle)
    (stale : ℕ → ℕ → UInt8) (path : String) :
    wlp (checkpointRestore stale (some path)) (fun r h' => h'.disk.Holds h.disk.files ∧ match r with
      | .error e => e ≠ .ok ∧ Good h' ∧ Registry h' xs ∧ SameObjects h h'
      | .ok vm => ∃ file v, h.disk.files path = some file ∧ RestoredVm h file xs vm v h') h := by
  have hfiles : h.disk.Holds h.disk.files := ⟨hidle, rfl⟩
  have hback : ∀ d : Disk, Good (h.setDisk d) ∧ Registry (h.setDisk d) xs ∧ SameObjects h (h.setDisk d) :=
    fun d => ⟨hg.setDisk d, hr.setDisk d, .setDisk h d⟩
  cases hfile : h.disk.files path with
  | none =>
    rw [checkpointRestore, wlp_bind, wlp_onDisk]
    intro o d hopen
    obtain ⟨rfl, -⟩ := fopen_none hfile _ _ hopen
    rw [wlp_pure]
    exact ⟨fopen_holds path _ hfiles _ _ hopen, by decide, hback d⟩
  | some file =>
  rw [checkpointRestore, wlp_bind, wlp_onDisk]
  refine wlp_mono (wlp_and (fopen_at hidle hfile).wlp (fopen_holds path _ hfiles)) ?_
  rintro o d ⟨⟨-, -, -, hat⟩, hfiles₀⟩
  cases o with
  | none =>
    rw [wlp_pure]
    exact ⟨hfiles₀, by decide, hback d⟩
  | some f =>
    rw [wlp_bind]
    refine wlp_mono (wlp_and (wlp_and (readConfig_at (h := h.setDisk d) (hat f rfl)).wlp
      (readConfig_onlyDisk f (h.setDisk d) (.setDisk hfiles₀))) (readConfig_error f _)) ?_
    rintro r h₁ ⟨⟨⟨-, ⟨p, hat₁⟩, hres⟩, hsame, hfiles₁⟩, herror⟩
    cases r with
    | error e =>
      rw [wlp_bind, wlp_onDisk]
      refine wlp_mono (fclose_holds _ hfiles₁) fun _ d₂ hfiles₂ => ?_
      rw [wlp_pure, hsame]
      exact ⟨hfiles₂, by rw [herror e rfl]; decide, hback d₂⟩
    | ok config =>
      obtain ⟨hconfig, hat₂⟩ := hres
      have hg₁ : Good h₁ := hsame ▸ hg.setDisk h₁.disk
      have hr₁ : Registry h₁ xs := hsame ▸ hr.setDisk h₁.disk
      rw [wlp_bind]
      refine wlp_mono (wlp_and (vmCreate_spec hg₁.layout hr₁.first_ne config) (vmCreate_error config h₁)) ?_
      rintro r h₂ ⟨hcreate, herror⟩
      cases r with
      | error e =>
        obtain ⟨m, hv, ha, hhv, rfl⟩ := hcreate
        rw [wlp_bind, wlp_onDisk]
        refine wlp_mono (fclose_holds _ hfiles₁) fun _ d₂ hfiles₂ => ?_
        rw [wlp_pure]
        have hg₂ := (hg₁.failedCreate ha hhv).setDisk d₂
        have hr₂ : Registry (((h₁.setHv hv).setMem m).setDisk d₂) xs := by
          refine hr₁.congr ?_ ?_ fun _ => rfl <;> rcases hhv with rfl | rfl <;> rfl
        have hobjects : SameObjects h h₁ := by
          rw [hsame]
          exact .setDisk h h₁.disk
        exact ⟨hfiles₂, herror e rfl, hg₂, hr₂, hobjects.trans ⟨rfl, rfl, rfl, rfl, rfl⟩⟩
      | ok vm =>
        obtain ⟨v₀, g, name, hid, hlen, hroot, -, hb, rfl⟩ := hcreate
        have ha₁ := adopts_create hg₁ hr₁ hid hlen hroot hb
        rw [hsame] at ha₁
        have ha := ha₁.of_setDisk
        set v : Nexusvm := { v₀ with next := (h.setDisk h₁.disk).hv.vms, state := .initialized } with hv
        have hvconfig : v.config = config := hid.config
        have hdisk : (g.linkVm vm v₀).disk = h₁.disk := by rw [Host.linkVm, hb.shape]
        refine wlp_mono (fillVm_effect hr ha (hvconfig ▸ hconfig) (by rw [hvconfig, ← hlen]) (hdisk ▸ hfiles₁)
          (hdisk ▸ hat₂) stale path) ?_
        rintro (e | vm') h' ⟨hfiles', hres⟩
        · exact ⟨hfiles', hres⟩
        · obtain ⟨v', hrestored⟩ := hres
          exact ⟨hfiles', file, v', rfl, hrestored⟩

end NexusVM
