import NexusVM.CheckpointRestore
import NexusVM.CreateOutcome
import NexusVM.Identity

/-!
# Which files are restored

What `checkpoint_restore` makes of any file.

* `HasConfig`, `vcpusEnd`, `fileDeviceSize`, `WellFormedFile`: the parts of a file;
* `SameVmList`, `RejectsMalformed`: nothing has changed, and how malformed files should be met;
* `checkpointRead_at`, `readConfig_at`, `readVcpus_short`: reading a file of any length;
* **`restore_rejects_iff`**: when a malformed file is rejected.
-/

namespace NexusVM

open Prog Stdio

variable {h h' : Host} {a vm : Addr} {v : Nexusvm} {f pos : ℕ} {path : String} {file : List UInt8}
  {config : VmConfig} {xs : List Addr}

/-! ## Files -/

/-- The file starts with a header whose magic `checkpoint_restore` accepts and with this
configuration. -/
structure HasConfig (file : List UInt8) (config : VmConfig) : Prop where
  long : sizeofCheckpointHeader + sizeofVmConfig ≤ file.length
  magic : strncmp (checkpointHeaderCodec.decode (file.take sizeofCheckpointHeader)).magic.toList
    restoreMagic 8 = some 0
  config : vmConfigCodec.decode ((file.drop sizeofCheckpointHeader).take sizeofVmConfig) = config

/-- Where the states of the vCPUs end. -/
def vcpusEnd (config : VmConfig) : ℕ :=
  sizeofCheckpointHeader + sizeofVmConfig + config.vcpuCount.toNat * sizeofCpuState

/-- What the file says about the size of its device section. -/
def fileDeviceSize (file : List UInt8) (config : VmConfig) : ℕ :=
  (Codec.u64.decode ((file.drop (vcpusEnd config)).take Codec.u64.size)).toNat

/-- Everything up to the device section is there, and the device section is long enough for what is
read of it. -/
def WellFormedFile (file : List UInt8) : Prop :=
  ∃ config, HasConfig file config ∧ vcpusEnd config + Codec.u64.size ≤ file.length ∧
    vcpusEnd config + Codec.u64.size + fileDeviceSize file config ≤ file.length ∧
      (fileDeviceSize file config = 0 ∨ Codec.u32.size ≤ fileDeviceSize file config)

/-- The list of the VMs and their number are the same. -/
def SameVmList (h h' : Host) : Prop :=
  h'.hv.vmCount = h.hv.vmCount ∧ ∃ xs, Registry h xs ∧ Registry h' xs

/-- Only a well-formed file is restored, and any other is met with an error that leaves the VMs as they
were. -/
def RejectsMalformed (stale : ℕ → ℕ → UInt8) (path : String) (file : List UInt8) (h : Host) : Prop :=
  (∀ b h', (checkpointRestore stale (some path)).run h = some (.ok b, h') → WellFormedFile file) ∧
    (¬ WellFormedFile file → ∃ e h',
      (checkpointRestore stale (some path)).run h = some (.error e, h') ∧ SameVmList h h')

/-- The file is well-formed, cannot be opened, or has no configuration in front; or `vm_create` comes
back from the configuration, and its requests are not all served or the file ends before the
last of the vCPUs. -/
def RestoreMeets (h : Host) (file : List UInt8) : Prop :=
  WellFormedFile file ∨ ¬ h.disk.opens h.disk.calls ∨ (∀ config, ¬ HasConfig file config) ∨
    ∃ config, HasConfig file config ∧ CanFinish config h ∧
      (¬ h.mem.heap.ServesAll (vmRequests h.hv config) ∨ file.length < vcpusEnd config)

theorem HasConfig.unique {config' : VmConfig} (hc : HasConfig file config) (hc' : HasConfig file config') :
    config = config' := hc.config.symm.trans hc'.config

/-! ## Reading -/

theorem checkpointRead_at (hr : h.disk.At f path file pos) {size : ℕ} (hpos : 0 < size) :
    wp (checkpointRead f size) (fun r h' => h' = h.setDisk h'.disk ∧ r.2 = (file.drop pos).take size ∧
      (r.1 = .ok ↔ pos + size ≤ file.length) ∧ (∃ p, h'.disk.At f path file p) ∧
        (r.1 = .ok → h'.disk.At f path file (pos + size))) h := by
  rw [checkpointRead, wp_bind, wp_onDisk]
  refine wp_mono (fread_at hr size) ?_
  rintro _ d ⟨rfl, hat⟩
  have hlen := length_take_drop file pos size
  refine wp_ite (fun hshort => ?_) fun hwhole => ?_ <;> rw [wp_pure]
  · refine ⟨rfl, rfl, iff_of_false (by simp) fun hle => hshort ?_, ⟨_, hat⟩, by simp⟩
    omega
  · have hwhole := not_not.mp hwhole
    rw [hwhole] at hat
    refine ⟨rfl, rfl, iff_of_true rfl ?_, ⟨_, hat⟩, fun _ => hat⟩
    omega

/-- **The configuration is read** just if the file has one. -/
theorem readConfig_at (hr : h.disk.At f path file 0) :
    wp (readConfig f) (fun r h' => h' = h.setDisk h'.disk ∧ (∃ p, h'.disk.At f path file p) ∧ match r with
      | .error _ => ∀ config, ¬ HasConfig file config
      | .ok config => HasConfig file config ∧
          h'.disk.At f path file (sizeofCheckpointHeader + sizeofVmConfig)) h := by
  rw [readConfig, wp_bind]
  refine wp_mono (checkpointRead_at hr (by decide)) ?_
  rintro ⟨result, data⟩ h₁ ⟨hrest, hdata, hok, hat, hgo⟩
  dsimp only at hdata hok hgo ⊢
  rw [Nat.zero_add] at hok hgo
  refine wp_ite (fun hne => ?_) fun heq => ?_
  · rw [wp_pure]
    refine ⟨hrest, hat, fun config hc => hne (hok.mpr ?_)⟩
    exact Nat.le_trans (Nat.le_add_right _ _) hc.long
  obtain rfl := not_not.mp heq
  have hlen : 8 ≤ (checkpointHeaderCodec.decode data).magic.toList.length := by
    rw [Vector.length_toList]
  have hlen' : 8 ≤ restoreMagic.length := by decide
  obtain ⟨order, horder⟩ := Option.isSome_iff_exists.mp (strncmp_isSome hlen hlen')
  rw [wp_bind, wp_fetch]
  refine ⟨order, horder, ?_⟩
  rw [List.drop_zero] at hdata
  rw [hdata] at horder
  refine wp_ite (fun hmagic => ?_) fun hmagic => ?_
  · rw [wp_pure]
    refine ⟨hrest, hat, fun config hc => hmagic ?_⟩
    exact Option.some.inj (horder.symm.trans hc.magic)
  obtain rfl := not_not.mp hmagic
  rw [wp_bind]
  refine wp_mono (checkpointRead_at (hgo rfl) (by decide)) ?_
  rintro ⟨result, data₂⟩ h₂ ⟨hrest₂, hdata₂, hok₂, hat₂, hgo₂⟩
  dsimp only at hdata₂ hok₂ hgo₂ ⊢
  have hdisk : h₂ = h.setDisk h₂.disk := by
    rw [hrest₂, hrest]
    rfl
  refine wp_ite (fun hne => ?_) fun heq => ?_ <;> rw [wp_pure]
  · exact ⟨hdisk, hat₂, fun config hc => hne (hok₂.mpr hc.long)⟩
  · obtain rfl := not_not.mp heq
    refine ⟨hdisk, hat₂, ⟨hok₂.mp rfl, horder, ?_⟩, hgo₂ rfl⟩
    rw [hdata₂]
    rfl

/-! ## vCPUs -/

theorem Good.setDisk (hg : Good h) (d : Disk) : Good (h.setDisk d) := by
  refine ⟨hg.layout.same ⟨rfl, rfl, rfl, rfl, rfl⟩ rfl rfl rfl rfl fun _ => id, fun b w hw => ?_⟩
  have hc := hg.coherent b w hw
  exact ⟨hc.running, hc.stopped, hc.paused⟩

theorem Registry.setDisk (hr : Registry h xs) (d : Disk) : Registry (h.setDisk d) xs :=
  hr.congr rfl rfl fun _ => rfl

theorem Good.setCpuState (hg : Good h) {c : Addr} {u : Nexusvcpu} (hu : h.vcpus c = some u)
    (state : CpuState) : Good (h.setVcpu c (some { u with cpuState := state })) := by
  refine hg.of_flags (hg.layout.setVcpu _ hu rfl rfl) rfl fun d w hw => ?_
  rw [Host.setVcpu_vcpus] at hw
  by_cases hdc : d = c
  · rw [hdc, Function.update_self] at hw
    cases hw
    exact ⟨u, hdc ▸ hu, rfl, rfl⟩
  · rw [Function.update_of_ne hdc] at hw
    exact ⟨w, hw, rfl, rfl⟩

theorem vmDestroy_disk (hg : Good h) (hr : Registry h (vm :: xs)) (hv : h.vms vm = some v)
    (hstate : v.state ≠ .running) :
    wp (vmDestroy (some vm)) (fun _ h' => h'.disk = h.disk ∧ Registry h' xs) h := by
  obtain ⟨hprev, hnext⟩ := hr.neighbours hv
  have hdisk : wp (vmDestroy (some vm)) (fun _ h' => h'.disk = h.disk) h := by
    rw [vmDestroy, wp_bind, wp_getVm]
    refine ⟨v, hv, ?_⟩
    rw [wp_bind, wp_when]
    refine ⟨fun hrun => absurd hrun hstate, fun _ => ?_⟩
    refine wp_mono (vmDestroy_tail hg.layout.initialized ⟨v.state, hv⟩
      (hg.layout.nodup vm v trivial hv) (fun c hc => ?_) (fun p hp => (hprev p hp).2)
      fun n hn => (hnext n hn).2) ?_
    · obtain ⟨u, hu, -⟩ := hg.layout.vcpus vm v trivial hv c hc
      exact ⟨u, hu, (hg.coherent vm v hv).stopped hstate c hc u hu⟩
    · rintro _ _ ⟨m, l, rfl, -⟩
      rfl
  refine wp_mono (wp_and hdisk (vmDestroy_spec hg hv hprev hnext)) ?_
  rintro _ h' ⟨heq, hd⟩
  have hrest := hr.destroy hv hd
  rw [List.erase_cons_head] at hrest
  exact ⟨heq, hrest⟩

/-- The VM at the front of the list, which is being restored. -/
structure Restoring (h : Host) (vm : Addr) (xs cs : List Addr) : Prop where
  good : Good h
  registry : Registry h (vm :: xs)
  vm : ∃ v, h.vms vm = some v ∧ v.state ≠ .running
  vcpus : ∀ c ∈ cs, ∃ u, h.vcpus c = some u

/-- **If the file ends before the last of the vCPUs**, the VM is destroyed again. -/
theorem readVcpus_short {cs : List Addr} (hi : Restoring h vm xs cs) (hr : h.disk.At f path file pos)
    (hpos : pos ≤ file.length) (hshort : file.length < pos + cs.length * sizeofCpuState) :
    wp (readVcpus vm f cs) (fun r h' => r ≠ .ok ∧ Registry h' xs ∧
      ∃ p, h'.disk.At f path file p) h := by
  induction cs generalizing h pos with
  | nil =>
    rw [List.length_nil, Nat.zero_mul] at hshort
    omega
  | cons c cs ih =>
    rw [readVcpus, wp_bind]
    refine wp_mono (checkpointRead_at hr (by decide)) ?_
    rintro ⟨result, data⟩ h₁ ⟨hrest, -, hok, hat, hgo⟩
    have hg₁ : Good h₁ := hrest ▸ hi.good.setDisk h₁.disk
    have hr₁ : Registry h₁ (vm :: xs) := hrest ▸ hi.registry.setDisk h₁.disk
    obtain ⟨v, hv, hstate⟩ := hi.vm
    have hv₁ : h₁.vms vm = some v := by
      rw [hrest]
      exact hv
    refine wp_ite (fun hne => ?_) fun heq => ?_
    · rw [wp_bind, wp_discard]
      refine wp_mono (vmDestroy_disk hg₁ hr₁ hv₁ hstate) ?_
      rintro _ h₂ ⟨hdisk, hreg⟩
      rw [wp_pure, hdisk]
      exact ⟨hne, hreg, hat⟩
    · have hok' := not_not.mp heq
      obtain ⟨⟨u, hu⟩, hcs⟩ := List.forall_mem_cons.mp hi.vcpus
      have hu₁ : h₁.vcpus c = some u := by
        rw [hrest]
        exact hu
      have hwhole : pos + sizeofCpuState ≤ file.length := hok.mp hok'
      simp only [vcpuSetState, wp_bind, wp_getVcpu, wp_putVcpu, wp_pure]
      refine ⟨u, hu₁, ?_⟩
      refine ih ⟨hg₁.setCpuState hu₁ _, hr₁.congr rfl rfl fun _ => rfl, ⟨v, hv₁, hstate⟩, fun d hd => ?_⟩
        (hgo hok') hwhole ?_
      · obtain ⟨w, hw⟩ := hcs d hd
        rw [Host.setVcpu_vcpus]
        by_cases hdc : d = c
        · rw [hdc, Function.update_self]
          exact ⟨_, rfl⟩
        · rw [Function.update_of_ne hdc, hrest]
          exact ⟨w, hw⟩
      · rw [List.length_cons, Nat.add_mul] at hshort
        omega

theorem readVcpus_whole {cs : List Addr} (hr : h.disk.At f path file pos)
    (hwhole : pos + cs.length * sizeofCpuState ≤ file.length) :
    wlp (readVcpus vm f cs) (fun r _ => r = .ok) h := by
  induction cs generalizing h pos with
  | nil =>
    rw [readVcpus, wlp_pure]
  | cons c cs ih =>
    rw [List.length_cons, Nat.add_mul] at hwhole
    rw [readVcpus, wlp_bind]
    refine wlp_mono (checkpointRead_at hr (by decide)).wlp ?_
    rintro ⟨result, data⟩ h₁ ⟨-, -, hok, -, hgo⟩
    have hok' : result = .ok := hok.mpr (by omega)
    refine wlp_ite (fun hne => absurd hok' hne) fun _ => ?_
    simp only [vcpuSetState, wlp_bind, wlp_getVcpu, wlp_putVcpu, wlp_pure]
    exact fun u _ => ih (hgo hok') (by omega)

/-! ## The call -/

theorem Housed.setDisk (hh : Housed h) (d : Disk) : Housed (h.setDisk d) :=
  ⟨hh.initialized, hh.online, hh.vms, hh.vcpus, hh.first, hh.sound⟩

theorem restoring_create (hg : Good h) (hr : Registry h xs) {h₁ : Host} {name : List UInt8}
    (hid : SameIdentity (newVm config h.hv.nextVmId name) v)
    (hlen : v.vcpus.length = config.vcpuCount.toNat) (hb : Builds vm h v v.vcpus h₁) :
    Restoring (h₁.linkVm vm v) vm xs v.vcpus ∧ ∃ w, (h₁.linkVm vm v).vms vm = some w ∧
      w.vcpus = v.vcpus := by
  have hnone : h.vms vm = none := by
    by_contra hne
    obtain ⟨w, hw⟩ := Option.ne_none_iff_exists'.mp hne
    exact hb.vm_ne hg.layout hw rfl
  have hcount : v.vcpus.length = v.vcpuCount.toNat := by
    rw [hlen, hid.vcpuCount]
    rfl
  have hself : (h₁.linkVm vm v).vms vm = some { v with next := h₁.hv.vms, state := .initialized } :=
    if_pos rfl
  have hgood := hg.create hb hcount
  refine ⟨⟨hgood, hr.create hb hid.prev hnone, ⟨_, hself, by simp⟩, fun c hc => ?_⟩, _, hself, rfl⟩
  obtain ⟨u, hu, -⟩ := hgood.layout.vcpus vm _ trivial hself c hc
  exact ⟨u, hu⟩

/-- **A malformed file is rejected** where the condition holds. -/
theorem checkpointRestore_rejects (hg : Good h) (hh : Housed h) (hr : Registry h xs)
    (hidle : h.disk.Idle) (hfile : h.disk.files path = some file) (stale : ℕ → ℕ → UInt8)
    (hmeets : RestoreMeets h file) (hbad : ¬ WellFormedFile file) :
    wp (checkpointRestore stale (some path)) (fun r h' => (∃ e, r = .error e) ∧ SameVmList h h') h := by
  rw [checkpointRestore, wp_bind, wp_onDisk]
  refine wp_mono (fopen_at hidle hfile) ?_
  rintro o d ⟨hopens, -, -, hat⟩
  have hr₁ : Registry (h.setDisk d) xs := hr.setDisk d
  cases o with
  | none =>
    rw [wp_pure]
    exact ⟨⟨_, rfl⟩, rfl, xs, hr, hr₁⟩
  | some f =>
    rw [wp_bind]
    refine wp_mono (readConfig_at (h := h.setDisk d) (hat f rfl)) ?_
    rintro r h₁ ⟨hrest, ⟨p, hat₁⟩, hres⟩
    have hsame : h₁ = h.setDisk h₁.disk := hrest
    cases r with
    | error e =>
      rw [wp_bind, wp_onDisk]
      refine wp_mono (fclose_at hat₁) fun _ d₂ _ => ?_
      rw [wp_pure, hsame]
      exact ⟨⟨_, rfl⟩, rfl, xs, hr, hr.setDisk d₂⟩
    | ok config =>
      obtain ⟨hconfig, hat₂⟩ := hres
      -- only the last of the cases is left
      rcases hmeets with hgood | hclosed | hnone | ⟨config', hconfig', hcan, hcase⟩
      · exact absurd hgood hbad
      · exact absurd (hopens.mp rfl) hclosed
      · exact absurd hconfig (hnone config)
      obtain rfl := hconfig.unique hconfig'
      have hg₁ : Good h₁ := hsame ▸ hg.setDisk h₁.disk
      have hh₁ : Housed h₁ := hsame ▸ hh.setDisk h₁.disk
      have hreg₁ : Registry h₁ xs := hsame ▸ hr.setDisk h₁.disk
      have hcan₁ : CanFinish config h₁ := by
        rw [hsame]
        exact hcan
      have hcount : h₁.hv.vmCount = h.hv.vmCount := by rw [hreg₁.count, hr.count]
      rw [wp_bind]
      refine wp_mono (wp_and_wlp (vmCreate_allOrNothing hh₁ hcan₁)
        (wlp_and (vmCreate_spec hg₁.layout hreg₁.first_ne config)
          (vmCreate_outcome hh₁.initialized hh₁.online hh₁.fresh_vcpu config))) ?_
      rintro r h₂ ⟨-, hspec, hserved⟩
      cases r with
      | error e =>
        obtain ⟨m, hv, ha, hhv, rfl⟩ := hspec
        rw [wp_bind, wp_onDisk]
        refine wp_mono (fclose_at (d := h₁.disk) hat₁) fun _ d₂ _ => ?_
        rw [wp_pure]
        refine ⟨⟨_, rfl⟩, ?_, xs, hr, hreg₁.congr ?_ ?_ fun _ => rfl⟩
        · rw [← hcount]
          rcases hhv with rfl | rfl <;> rfl
        · rcases hhv with rfl | rfl <;> rfl
        · rcases hhv with rfl | rfl <;> rfl
      | ok vm =>
        have hall : h.mem.heap.ServesAll (vmRequests h.hv config) := by
          have := hserved.mp ⟨vm, rfl⟩
          rw [hsame] at this
          exact this
        have hshort := hcase.resolve_left (not_not.mpr hall)
        obtain ⟨v, g, name, hid, hlen, -, -, hb, rfl⟩ := hspec
        obtain ⟨hrestoring, w, hw, hcs⟩ := restoring_create hg₁ hreg₁ hid hlen hb
        have hat₃ : (g.linkVm vm v).disk.At f path file (sizeofCheckpointHeader + sizeofVmConfig) := by
          rw [Host.linkVm, hb.shape]
          exact hat₂
        dsimp only
        rw [wp_bind, wp_getVm]
        refine ⟨w, hw, ?_⟩
        rw [wp_bind, hcs]
        refine wp_mono (readVcpus_short hrestoring hat₃ hconfig.long ?_) ?_
        · rw [hlen]
          exact hshort
        rintro r h₃ ⟨hne, hreg₃, q, hat₄⟩
        refine wp_ite (fun _ => ?_) fun heq => absurd hne heq
        rw [wp_bind, wp_onDisk]
        refine wp_mono (fclose_at hat₄) fun _ d₄ _ => ?_
        rw [wp_pure]
        have hreg₄ := hreg₃.setDisk d₄
        exact ⟨⟨_, rfl⟩, by rw [hreg₄.count, hr.count], xs, hr, hreg₄⟩

/-- A file that can be opened, has its configuration and its vCPUs, and whose VM can be created, is
restored, whatever comes behind. -/
theorem checkpointRestore_accepts (hg : Good h) (hh : Housed h) (hr : Registry h xs)
    (hidle : h.disk.Idle) (hfile : h.disk.files path = some file) (stale : ℕ → ℕ → UInt8)
    (hmeets : ¬ RestoreMeets h file) :
    wlp (checkpointRestore stale (some path)) (fun r _ => ∃ b, r = .ok b) h := by
  rw [RestoreMeets, not_or, not_or, not_or, not_not] at hmeets
  obtain ⟨-, hopen, hconfig, hgo⟩ := hmeets
  rw [checkpointRestore, wlp_bind, wlp_onDisk]
  refine wlp_mono (fopen_at hidle hfile).wlp ?_
  rintro o d ⟨hopens, -, -, hat⟩
  obtain ⟨f, rfl⟩ := Option.isSome_iff_exists.mp (hopens.mpr hopen)
  rw [wlp_bind]
  refine wlp_mono (readConfig_at (h := h.setDisk d) (hat f rfl)).wlp ?_
  rintro r h₁ ⟨hrest, -, hres⟩
  have hsame : h₁ = h.setDisk h₁.disk := hrest
  cases r with
  | error e => exact absurd hres hconfig
  | ok config =>
    obtain ⟨hc, hat₂⟩ := hres
    have hg₁ : Good h₁ := hsame ▸ hg.setDisk h₁.disk
    have hh₁ : Housed h₁ := hsame ▸ hh.setDisk h₁.disk
    have hreg₁ : Registry h₁ xs := hsame ▸ hr.setDisk h₁.disk
    rw [wlp_bind]
    intro r h₂ hcreate
    have hcan : CanFinish config h := by
      have := canFinish_of_vmCreate hh₁.initialized hcreate
      rw [hsame] at this
      exact this
    have hcase : h.mem.heap.ServesAll (vmRequests h.hv config) ∧ vcpusEnd config ≤ file.length := by
      by_contra hnot
      refine hgo ⟨config, hc, hcan, ?_⟩
      rw [← Nat.not_le]
      exact not_and_or.mp hnot
    obtain ⟨vm, rfl⟩ := (vmCreate_outcome hh₁.initialized hh₁.online hh₁.fresh_vcpu config _ _
      hcreate).mpr (by rw [hsame]; exact hcase.1)
    obtain ⟨v, g, name, hid, hlen, -, -, hb, rfl⟩ :=
      vmCreate_spec hg₁.layout hreg₁.first_ne config _ _ hcreate
    obtain ⟨-, w, hw, hcs⟩ := restoring_create hg₁ hreg₁ hid hlen hb
    have hat₃ : (g.linkVm vm v).disk.At f path file (sizeofCheckpointHeader + sizeofVmConfig) := by
      rw [Host.linkVm, hb.shape]
      exact hat₂
    dsimp only
    rw [wlp_bind, wlp_getVm]
    intro w' hw'
    obtain rfl : w = w' := Option.some.inj (hw.symm.trans hw')
    rw [wlp_bind, hcs]
    refine wlp_mono (readVcpus_whole hat₃ ?_) ?_
    · rw [hlen]
      exact hcase.2
    rintro _ h₃ rfl
    refine wlp_ite (fun hne => absurd rfl hne) fun _ => ?_
    -- neither the device section nor the memory is looked at any more
    rw [wlp_bind]
    intro _ _ _
    rw [wlp_bind]
    intro _ _ _
    rw [wlp_bind]
    intro _ _ _
    rw [wlp_pure]
    exact ⟨vm, rfl⟩

/-- **Malformed files are rejected** just if the file is well-formed, cannot be opened or has no
configuration in front, or `vm_create` comes back and one of its requests is refused or the file ends
before the last of the vCPUs. -/
theorem restore_rejects_iff {h₀ : Host} (hb : Boot h₀) {ops : List HvOp}
    (hrun : (runOps HvOp.run ops).run h₀ = some ((), h)) (hidle : h.disk.Idle)
    (hfile : h.disk.files path = some file) (stale : ℕ → ℕ → UInt8) :
    RejectsMalformed stale path file h ↔ RestoreMeets h file := by
  have hi := hvInv_run hb hrun
  have hh := housed_run hb hrun
  obtain ⟨xs, hr⟩ := hi.listed
  constructor
  · rintro ⟨-, hreject⟩
    by_contra hmeets
    obtain ⟨e, h', hcall, -⟩ := hreject fun hgood => hmeets (.inl hgood)
    obtain ⟨b, hb⟩ := checkpointRestore_accepts hi.good hh hr hidle hfile stale hmeets _ _ hcall
    cases hb
  · intro hmeets
    have hreject : ¬ WellFormedFile file → ∃ e h',
        (checkpointRestore stale (some path)).run h = some (.error e, h') ∧ SameVmList h h' := by
      intro hbad
      obtain ⟨r, h', hcall, ⟨e, rfl⟩, hsame⟩ :=
        checkpointRestore_rejects hi.good hh hr hidle hfile stale hmeets hbad
      exact ⟨e, h', hcall, hsame⟩
    refine ⟨fun b h' hok => ?_, hreject⟩
    by_contra hbad
    obtain ⟨e, h'', hcall, -⟩ := hreject hbad
    rw [hok] at hcall
    cases hcall

theorem Boot.setDisk (hb : Boot h) (d : Disk) : Boot (h.setDisk d) :=
  ⟨hb.initialized, hb.schedulerInitialized, hb.cpus, hb.online, hb.first, hb.count, hb.nextVmId, hb.current,
    hb.vms, hb.vcpus, hb.entities, hb.heads, hb.sound⟩

/-- A header, a configuration with one vCPU and its state; the file ends before the device section. -/
def truncatedFile : List UInt8 :=
  restoreMagic.take 8 ++ List.replicate (sizeofCheckpointHeader - 8) 0 ++
    vmConfigCodec.encode { vcpuCount := 1 } ++ List.replicate sizeofCpuState 0

/-- A host with that file. -/
def truncatedHost : Host :=
  (bootHost 1 .intel).setDisk { (bootHost 1 .intel).disk with files := fun _ => some truncatedFile }

theorem restore_rejects_iff_truncated :
    RejectsMalformed (fun _ _ => 0) "vm.ckpt" truncatedFile truncatedHost ↔
      RestoreMeets truncatedHost truncatedFile :=
  restore_rejects_iff ((boot_bootHost (by decide) .intel).setDisk _)
    (runOps_nil HvOp.run truncatedHost) nofun rfl _

/-- **A truncated file is restored.** -/
theorem truncated_file_restored : ∃ b h',
    (checkpointRestore (fun _ _ => 0) (some "vm.ckpt")).run truncatedHost = some (.ok b, h') ∧
      ¬ WellFormedFile truncatedFile ∧
      ¬ RejectsMalformed (fun _ _ => 0) "vm.ckpt" truncatedFile truncatedHost := by
  have hres : ((checkpointRestore (fun _ _ => 0) (some "vm.ckpt")).run truncatedHost).any
      (fun p => p.1.toOption.isSome) = true := by decide +kernel
  obtain ⟨⟨r, h'⟩, hrun, hr⟩ := (Option.any_eq_true _ _).mp hres
  cases r with
  | error e => cases hr
  | ok b =>
    have hbad : ¬ WellFormedFile truncatedFile := by
      rintro ⟨config, hc, hlong, -⟩
      have hcount : (vmConfigCodec.decode ((truncatedFile.drop sizeofCheckpointHeader).take
        sizeofVmConfig)).vcpuCount.toNat = 1 := by decide +kernel
      have hlength : truncatedFile.length < sizeofCheckpointHeader + sizeofVmConfig +
        1 * sizeofCpuState + Codec.u64.size := by decide +kernel
      rw [hc.config] at hcount
      rw [vcpusEnd, hcount] at hlong
      omega
    exact ⟨b, h', hrun, hbad, fun hrejects => hbad (hrejects.1 b h' hrun)⟩

end NexusVM
