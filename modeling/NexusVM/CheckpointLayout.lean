import NexusVM.Lib.Tandem
import NexusVM.CheckpointWrites

/-!
# The layout of a checkpoint

`checkpoint_create` writes its file through two streams. `checkpoint_save_memory` opens the file again, for
appending, while what was written to the first stream may still be pending.

* `Transfers`, `Delivers`: whole writes, and what they do to the file;
* `writeStateLogged_delivers`, `writeDevicesLogged_delivers`, `checkpointSaveMemoryLogged_tandem`: each section;
* `checkpointLayout`, `LaidOut`: the sections one after the other;
* `StreamsInTurn`: nothing of the second stream reaches the file before the whole of the first;
* `checkpointCreateLogged_file`, `outcome_eq_iff`: what is in the file in the end;
* **`checkpoint_layout_iff`**: when that is the layout.
-/

namespace NexusVM

open Prog Stdio

variable {h h' : Host} {a : Addr} {v : Nexusvm} {f : ℕ} {path : String} {timestamp : UInt64}
  {s s' s'' : Host × WriteLog}

/-! ## Whole writes -/

/-- What holds of the disk and the file, given the number of the next call. -/
abbrev FileRel := ℕ → Tandem → Disk → Prop

/-- What a call does to the file. -/
abbrev FileStep := ℕ → Tandem → List UInt8 → Tandem

variable {R : FileRel} {step : FileStep} {ws vs : List (List UInt8)}

/-- A whole write to `f` is a step. -/
def Transfers (R : FileRel) (step : FileStep) (f : ℕ) : Prop :=
  ∀ k x d data, R k x d → wlp (fwrite f data)
    (fun n d' => n = data.length → R (k + 1) (step k x data) d') d

/-- All writes in the log were whole. -/
def Whole (log : WriteLog) : Prop := ∀ e ∈ log, e.2 = .ok

/-- The writes `ws` were made; nothing of the guest has changed, and if all were whole, the file has gone
through their steps. -/
structure Delivers (R : FileRel) (step : FileStep) (ws : List (List UInt8)) (s s' : Host × WriteLog) : Prop where
  same : SameGuest s.1 s'.1
  steps : ∃ log, s'.2 = s.2 ++ log ∧ (Whole log → ∀ k x, R k x s.1.disk →
    R (k + ws.length) (Tandem.calls step k x ws) s'.1.disk)

theorem whole_append {log log' : WriteLog} : Whole (log ++ log') ↔ Whole log ∧ Whole log' :=
  List.forall_mem_append

theorem Delivers.nil (s : Host × WriteLog) : Delivers R step [] s s :=
  ⟨.refl _, [], (List.append_nil _).symm, fun _ _ _ hR => hR⟩

theorem Delivers.append (hp : Delivers R step ws s s') (hp' : Delivers R step vs s' s'') :
    Delivers R step (ws ++ vs) s s'' := by
  obtain ⟨hsame, log, hlog, hsteps⟩ := hp
  obtain ⟨hsame', log', hlog', hsteps'⟩ := hp'
  refine ⟨hsame.trans hsame', log ++ log', by rw [hlog', hlog, List.append_assoc], fun hwhole k x hR => ?_⟩
  obtain ⟨hfirst, hsecond⟩ := whole_append.mp hwhole
  rw [Tandem.calls_append, List.length_append, ← Nat.add_assoc]
  exact hsteps' hsecond _ _ (hsteps hfirst k x hR)

section Sections

variable (hwrite : Transfers R step f)

include hwrite

/-- **One write.** Only the disk and the log change. -/
theorem checkpointWriteLogged_delivers (data : List UInt8) :
    wlp (checkpointWriteLogged f data) (fun r s' => Delivers R step [data] s s' ∧
      s'.1 = s.1.setDisk s'.1.disk ∧ s'.2 = s.2 ++ [(data, r)]) s := by
  obtain ⟨h, l⟩ := s
  rw [checkpointWriteLogged, wlp_bind, wlp_lift, checkpointWrite, wlp_bind, wlp_onDisk]
  intro n d hrun
  refine wlp_ite (fun _ => ?_) fun heq => ?_ <;> rw [wlp_pure, wlp_bind, wlp_note, wlp_pure]
  · refine ⟨⟨SameGuest.setDisk h d, _, rfl, fun hwhole => ?_⟩, rfl, rfl⟩
    exact absurd (hwhole _ (List.mem_singleton_self _)) (by simp)
  · exact ⟨⟨SameGuest.setDisk h d, _, rfl, fun _ k x hR => hwrite k x _ data hR n d hrun (not_not.mp heq)⟩,
      rfl, rfl⟩

theorem writeVcpusLogged_delivers (cs : List Addr) : wlp (writeVcpusLogged f cs)
    (fun r s' => r = .ok → Delivers R step ((s.1.cpuStates cs).map cpuStateCodec.encode) s s') s := by
  induction cs generalizing s with
  | nil =>
    rw [writeVcpusLogged, wlp_pure]
    exact fun _ => .nil s
  | cons c cs ih =>
    obtain ⟨h, l⟩ := s
    rw [writeVcpusLogged, wlp_bind, wlp_lift, wlp_getVcpu]
    intro u hu
    rw [cpuStates_cons hu, List.map_cons, wlp_bind]
    refine wlp_mono (checkpointWriteLogged_delivers hwrite _) ?_
    rintro r s₁ ⟨hfirst, hrest, -⟩
    refine wlp_ite (fun hr => ?_) fun _ => ?_
    · rw [wlp_pure]
      exact fun hok => absurd hok hr
    · refine wlp_mono ih fun r' s₂ hdelivers hok => ?_
      have hstates : s₁.1.cpuStates cs = h.cpuStates cs := by
        rw [hrest]
        rfl
      rw [hstates] at hdelivers
      exact hfirst.append (hdelivers hok)

/-- **The header, the configuration and the vCPUs.** -/
theorem writeStateLogged_delivers : wlp (writeStateLogged f v timestamp) (fun r s' => r = .ok →
    ∃ vmName, strncpy (List.replicate 64 0) v.name 63 = some vmName ∧
      Delivers R step (stateWrites s.1 v (checkpointHeader v timestamp vmName)) s s') s := by
  obtain ⟨h, l⟩ := s
  rw [writeStateLogged, wlp_bind, wlp_lift, wlp_fetch]
  intro vmName hname
  rw [wlp_bind]
  refine wlp_mono (checkpointWriteLogged_delivers hwrite _) ?_
  rintro r s₁ ⟨hheader, hrest₁, -⟩
  refine wlp_ite (fun hr => ?_) fun _ => ?_
  · rw [wlp_pure]
    exact fun hok => absurd hok hr
  rw [wlp_bind]
  refine wlp_mono (checkpointWriteLogged_delivers hwrite _) ?_
  rintro r s₂ ⟨hconfig, hrest₂, -⟩
  refine wlp_ite (fun hr => ?_) fun _ => ?_
  · rw [wlp_pure]
    exact fun hok => absurd hok hr
  refine wlp_mono (writeVcpusLogged_delivers hwrite _) fun r s₃ hvcpus hok => ?_
  have hstates : s₂.1.cpuStates v.vcpus = h.cpuStates v.vcpus := by
    rw [hrest₂, hrest₁]
    rfl
  rw [hstates] at hvcpus
  exact ⟨vmName, hname, hheader.append (hconfig.append (hvcpus hok))⟩

/-- **The devices**, where there is memory for the buffer. -/
theorem writeDevicesLogged_delivers : wlp (writeDevicesLogged f v)
    (fun _ s' => Delivers R step (if DeviceMemory s.1 v then deviceWrites v else []) s s') s := by
  obtain ⟨h, l⟩ := s
  rw [writeDevicesLogged, wlp_bind, wlp_lift]
  refine wlp_mono checkpointSaveDeviceState_outcome ?_
  rintro (result | ⟨b, data⟩) h₁ hres
  · obtain ⟨hmemory, rfl⟩ := hres
    rw [wlp_pure, if_neg hmemory]
    exact ⟨⟨rfl, rfl, rfl, rfl, rfl, rfl⟩, [], (List.append_nil _).symm, fun _ _ _ hR => hR⟩
  · obtain ⟨hmemory, rfl, hlen, rfl⟩ := hres
    dsimp only
    rw [hlen, if_pos hmemory, wlp_bind]
    generalize hg : h.grant ⟨.deviceState, b, v.deviceSize⟩ = g
    have hdisk : g.disk = h.disk := by
      rw [← hg]
      rfl
    refine wlp_mono (checkpointWriteLogged_delivers hwrite _) ?_
    rintro r s₂ ⟨hsize, hrest₂, hlog₂⟩
    rw [wlp_bind, wlp_when]
    refine ⟨fun _ => ?_, fun hr => ?_⟩
    · rw [wlp_discard]
      refine wlp_mono (checkpointWriteLogged_delivers hwrite _) ?_
      rintro r' s₃ ⟨hdata, hrest₃, -⟩
      obtain ⟨hsame, log, hlog, hsteps⟩ := hsize.append hdata
      rw [wlp_lift]
      refine (wp_freeBuffer_some.mpr ?_).wlp
      refine ⟨?_, log, hlog, fun hwhole k x hR => hsteps hwhole k x (by rwa [hdisk])⟩
      subst hg
      refine SameGuest.release hsame ?_
      rw [hrest₃, hrest₂]
      rfl
    · rw [wlp_lift]
      refine (wp_freeBuffer_some.mpr ?_).wlp
      refine ⟨?_, _, hlog₂, fun hwhole => absurd (hwhole _ (List.mem_singleton_self _)) hr⟩
      subst hg
      refine SameGuest.release hsize.same ?_
      rw [hrest₂]
      rfl

theorem delivers_writeRel : WriteRel f (Delivers R step) where
  nil := Delivers.nil
  append := Delivers.append
  write data _ := wlp_mono (checkpointWriteLogged_delivers hwrite data) fun _ _ hw => hw.1
  same := Delivers.same

end Sections

/-! ## Two streams -/

/-- **The regions**, through a second stream that is closed at the end. -/
theorem checkpointSaveMemoryLogged_tandem (c : ℕ → ℕ → ℕ → ℕ) (f g : ℕ) (hv : s.1.vms a = some v) :
    wlp (checkpointSaveMemoryLogged (some a) path) (fun r s' => r = .ok → Whole s'.2 → Whole s.2 ∧
      ∀ k x, Tandem.Runs c path f g g k x s.1.disk → ∃ K y,
        y = Tandem.calls (Tandem.writeSecond c f g) (k + 1) (x.settle c f g k)
          (v.regions.flatMap (regionWrites s.1 a)) ∧
        Tandem.On path f g (g + 1) ((y.pushSecond y.second.length).settle c f g K) s'.1.disk) s := by
  obtain ⟨h, l⟩ := s
  rw [checkpointSaveMemoryLogged, wlp_bind, wlp_lift, wlp_onDisk]
  intro o d hopen
  cases o with
  | none =>
    rw [wlp_pure]
    exact fun hr => absurd hr (by decide)
  | some g' =>
    rw [wlp_bind, wlp_lift, wlp_getVm]
    intro v' hv'
    obtain rfl : v = v' := Option.some.inj (hv.symm.trans hv')
    rw [wlp_bind, wlp_lift, wlp_require]
    intro _
    rw [wlp_bind]
    have hwrite : Transfers (Tandem.Runs c path f g' (g' + 1)) (Tandem.writeSecond c f g') g' :=
      fun k x d data hR => hR.fwrite_second (Nat.lt_succ_self g') data
    refine wlp_mono (saveRegionsLogged_writes (delivers_writeRel hwrite) v.regions) ?_
    rintro _ ⟨h₁, l₁⟩ ⟨-, log, hlog, hsteps⟩
    rw [funext (regionWrites_congr (SameGuest.setDisk h d) a)] at hsteps
    rw [wlp_bind, wlp_lift, wlp_onDisk]
    intro _ d₂ hclose
    rw [wlp_pure]
    intro _ hwhole
    obtain ⟨hbefore, hafter⟩ := whole_append.mp (hlog ▸ hwhole)
    refine ⟨hbefore, fun k x hruns => ⟨h₁.disk.calls, _, rfl, ?_⟩⟩
    obtain ⟨hon, rfl, rfl⟩ := hruns
    obtain ⟨rfl, hsecond⟩ := hon.fopen_second _ _ hopen g' rfl
    obtain ⟨-, hlater⟩ := fopen_after path .append _ _ hopen
    obtain ⟨hon', hspills, -⟩ := hsteps hafter _ _ ⟨hsecond, hlater.spills, hlater.calls⟩
    have := hon'.fclose_second (Nat.lt_succ_self g') _ _ hclose
    rwa [hspills] at this

/-! ## The layout -/

/-- The sections one after the other: the header, the configuration, the vCPUs, the size of the device
section and what is in it, and each region. -/
def checkpointLayout (h : Host) (a : Addr) (v : Nexusvm) (header : CheckpointHeader) : List UInt8 :=
  checkpointHeaderCodec.encode header ++ stateImage h v ++
    (Codec.u64.encode (UInt64.ofNat v.deviceSize) ++ v.deviceData) ++ v.regions.flatMap (regionImage h a)

theorem flatten_stateWrites (h : Host) (v : Nexusvm) (header : CheckpointHeader) :
    (stateWrites h v header).flatten = checkpointHeaderCodec.encode header ++ stateImage h v := by
  rw [stateWrites, List.flatten_cons, List.flatten_cons, stateImage]
  rfl

theorem flatten_regionWrites (h : Host) (a : Addr) (rs : List MemoryRegion) :
    (rs.flatMap (regionWrites h a)).flatten = rs.flatMap (regionImage h a) := by
  induction rs with
  | nil => rfl
  | cons r rs ih =>
    rw [List.flatMap_cons, List.flatten_append, ih, List.flatMap_cons, regionWrites, regionImage,
      List.flatten_cons]
    by_cases hdata : regionData h a r = []
    · rw [if_pos hdata, hdata, List.flatten_nil]
    · rw [if_neg hdata, List.flatten_singleton]

/-- **Its writes make up the layout.** -/
theorem flatten_checkpointWrites (h : Host) (a : Addr) (v : Nexusvm) (header : CheckpointHeader) :
    (checkpointWrites h a v header).flatten = checkpointLayout h a v header := by
  have hdevices : (deviceWrites v).flatten = Codec.u64.encode (UInt64.ofNat v.deviceSize) ++ v.deviceData := by
    rw [deviceWrites, List.flatten_cons, List.flatten_singleton]
  rw [checkpointWrites, List.flatten_append, List.flatten_append, flatten_stateWrites, flatten_regionWrites,
    hdevices, checkpointLayout, List.append_assoc (_ ++ stateImage h v)]

/-- The file at `path` has the layout. -/
def LaidOut (h h' : Host) (a : Addr) (v : Nexusvm) (path : String) (timestamp : UInt64) : Prop :=
  ∃ vmName, strncpy (List.replicate 64 0) v.name 63 = some vmName ∧
    h'.disk.files path = some (checkpointLayout h a v (checkpointHeader v timestamp vmName))

/-- **The second stream waits for the first.** No byte that is written to it reaches the file while bytes
of the first are pending. -/
def StreamsInTurn (h : Host) (a : Addr) (v : Nexusvm) : Prop :=
  Waits h.disk.spills h.disk.opened (h.disk.opened + 1) (h.disk.calls + 1)
    (v.stateSizes ++ (deviceWrites v).map List.length)
    ((v.regions.flatMap (regionWrites h a)).map List.length)

instance : Decidable (StreamsInTurn h a v) := decidableWaits _ _ _ _ _ _

/-- **What is in the file** after a success with no short write, whatever reached it when. -/
theorem checkpointCreateLogged_file (hv : h.vms a = some v) (hidle : h.disk.Idle) :
    wlp (checkpointCreateLogged (some a) (some path) timestamp) (fun r s' => r = .ok → Whole s'.2 →
      ∃ vmName, strncpy (List.replicate 64 0) v.name 63 = some vmName ∧ ∃ K,
        s'.1.disk.files path = some (Tandem.outcome h.disk.spills h.disk.opened (h.disk.opened + 1)
          (h.disk.calls + 1) (stateWrites h v (checkpointHeader v timestamp vmName) ++
            if DeviceMemory h v then deviceWrites v else [])
          (v.regions.flatMap (regionWrites h a)) K)) (h, []) := by
  rw [checkpointCreateLogged, wlp_bind, wlp_lift, wlp_onDisk]
  refine wlp_mono (wlp_and (Tandem.fopen_first hidle) (fopen_after path .write)) ?_
  rintro o d ⟨hopen, -, hafter⟩
  cases o with
  | none =>
    rw [wlp_pure]
    exact fun hr => absurd hr (by decide)
  | some f =>
    obtain ⟨rfl, hfirst⟩ := hopen f rfl
    rw [wlp_bind, wlp_lift, wlp_getVm]
    intro v' hv'
    obtain rfl : v = v' := Option.some.inj (hv.symm.trans hv')
    have hwrite : Transfers
        (Tandem.Runs h.disk.spills path h.disk.opened (h.disk.opened + 1) (h.disk.opened + 1))
        (Tandem.writeFirst h.disk.spills h.disk.opened (h.disk.opened + 1)) h.disk.opened :=
      fun k x d data hR => hR.fwrite_first data
    rw [wlp_bind]
    refine wlp_mono (wlp_and (writeStateLogged_delivers hwrite) writeStateLogged_spec) ?_
    rintro r ⟨h₁, l₁⟩ ⟨hstate, _, -, hwriting⟩
    refine wlp_ite (fun hr => ?_) fun hr => ?_
    · rw [wlp_bind, wlp_lift, wlp_onDisk]
      refine wlp_mono (fclose_after _) fun _ d₂ _ => ?_
      rw [wlp_pure]
      exact fun hok => absurd hok hr
    obtain ⟨vmName, hname, hdelivers₁⟩ := hstate (not_not.mp hr)
    have hrest : h₁ = (h.setDisk d).setDisk h₁.disk := hwriting.rest
    have hmemory : DeviceMemory h₁ v ↔ DeviceMemory h v := by
      rw [hrest]
      rfl
    rw [wlp_bind]
    refine wlp_mono (writeDevicesLogged_delivers hwrite) ?_
    rintro _ ⟨h₂, l₂⟩ hdelivers₂
    simp only [hmemory] at hdelivers₂
    obtain ⟨hsame, log, hlog, hsteps⟩ := hdelivers₁.append hdelivers₂
    have hsame₂ : SameGuest h h₂ := (SameGuest.setDisk h d).trans hsame
    rw [wlp_bind]
    have hv₂ : h₂.vms a = some v := by
      rw [hsame₂.vms]
      exact hv
    refine wlp_mono (checkpointSaveMemoryLogged_tandem h.disk.spills h.disk.opened (h.disk.opened + 1)
      (s := (h₂, l₂)) hv₂) ?_
    rintro r ⟨h₃, l₃⟩ hmem
    rw [wlp_bind, wlp_lift, wlp_onDisk]
    intro _ d₄ hclose
    rw [wlp_pure]
    intro hok hwhole
    obtain ⟨hwhole₂, htandem⟩ := hmem hok hwhole
    -- the first stream is still open, with what is left of its bytes
    obtain rfl : l₂ = log := hlog
    have hruns := hsteps hwhole₂ _ _ ⟨hfirst, hafter.spills, hafter.calls⟩
    obtain ⟨K, y, rfl, hon⟩ := htandem _ _ hruns
    rw [funext (regionWrites_congr hsame₂ a)] at hon
    refine ⟨vmName, hname, K, ?_⟩
    exact hon.fclose_first (Tandem.settle_second_of_nil (Tandem.drained_second _)) _ _ hclose

theorem waits_iff_streamsInTurn (header : CheckpointHeader) :
    Waits h.disk.spills h.disk.opened (h.disk.opened + 1) (h.disk.calls + 1)
      ((stateWrites h v header ++ deviceWrites v).map List.length)
      ((v.regions.flatMap (regionWrites h a)).map List.length) ↔ StreamsInTurn h a v := by
  rw [StreamsInTurn, List.map_append, map_length_stateWrites]

theorem length_deviceWrites_pos (v : Nexusvm) : 0 < (deviceWrites v).flatten.length := by
  rw [deviceWrites, List.flatten_cons, List.length_append, Codec.length_encode]
  exact Nat.add_pos_left (by decide) _

/-- What the two streams leave is the layout just if the devices are written and the second waits. -/
theorem outcome_eq_iff {header : CheckpointHeader} {K : ℕ} :
    Tandem.outcome h.disk.spills h.disk.opened (h.disk.opened + 1) (h.disk.calls + 1)
        (stateWrites h v header ++ if DeviceMemory h v then deviceWrites v else [])
        (v.regions.flatMap (regionWrites h a)) K = checkpointLayout h a v header ↔
      DeviceMemory h v ∧ StreamsInTurn h a v := by
  rw [← flatten_checkpointWrites, checkpointWrites, ← List.append_assoc, List.flatten_append]
  by_cases hmemory : DeviceMemory h v
  · rw [if_pos hmemory, and_iff_right hmemory, ← waits_iff_streamsInTurn header]
    refine ⟨fun heq => ?_, Tandem.outcome_of_waits⟩
    by_contra hwaits
    have hlt := Tandem.outcome_of_not_waits (K := K) hwaits
    rw [heq, List.length_append] at hlt
    exact Nat.lt_irrefl _ hlt
  · rw [if_neg hmemory, List.append_nil]
    refine iff_of_false (fun heq => ?_) fun hall => hmemory hall.1
    -- the layout has the devices as well
    have hle := Tandem.length_outcome_le h.disk.spills h.disk.opened (h.disk.opened + 1) (h.disk.calls + 1)
      (stateWrites h v header) (v.regions.flatMap (regionWrites h a)) K
    rw [heq, List.flatten_append, List.length_append, List.length_append] at hle
    have hpos := length_deviceWrites_pos v
    omega

/-- **The file has the layout** just if there is memory for the devices and the second stream waits for the
first. -/
theorem checkpoint_layout_iff (hv : h.vms a = some v) (hidle : h.disk.Idle)
    (hrun : (checkpointCreate (some a) (some path) timestamp).run h = some (.ok, h')) :
    ∃ log, (checkpointCreateLogged (some a) (some path) timestamp).run (h, []) = some (.ok, (h', log)) ∧
      (Whole log → (LaidOut h h' a v path timestamp ↔ DeviceMemory h v ∧ StreamsInTurn h a v)) := by
  obtain ⟨log, hlogged⟩ := (checkpointCreateLogged_erases _ _ _).exists_log hrun []
  refine ⟨log, hlogged, fun hwhole => ?_⟩
  obtain ⟨vmName, hname, K, hfile⟩ := checkpointCreateLogged_file hv hidle _ _ hlogged rfl hwhole
  rw [← outcome_eq_iff (K := K), ← Option.some_inj, ← hfile]
  constructor
  · rintro ⟨vmName', hname', hlaid⟩
    rwa [Option.some.inj (hname'.symm.trans hname)] at hlaid
  · exact fun hlaid => ⟨vmName, hname, hlaid⟩

theorem checkpoint_layout_iff_one_vcpu : oneVcpuHost.disk.Idle ∧ ∃ h' log,
    (checkpointCreateLogged (some 8192) (some "vm.ckpt") 0).run (oneVcpuHost, []) = some (.ok, (h', log)) ∧
      Whole log ∧ (LaidOut oneVcpuHost h' 8192 oneVcpuVm "vm.ckpt" 0 ↔
        DeviceMemory oneVcpuHost oneVcpuVm ∧ StreamsInTurn oneVcpuHost 8192 oneVcpuVm) := by
  have hidle : oneVcpuHost.disk.Idle := fun _ _ hst => by cases hst
  have hres : ((checkpointCreateLogged (some 8192) (some "vm.ckpt") 0).run (oneVcpuHost, [])).any
      (fun p => p.1 = .ok && p.2.2.all fun e => e.2 = .ok) = true := by decide +kernel
  obtain ⟨⟨r, h', log⟩, hlogged, hok⟩ := (Option.any_eq_true _ _).mp hres
  rw [Bool.and_eq_true, decide_eq_true_eq, List.all_eq_true] at hok
  obtain ⟨rfl, hwhole⟩ := hok
  have hrun := (checkpointCreateLogged_erases _ _ _).run_of_log hlogged
  obtain ⟨log', hlogged', hiff⟩ := checkpoint_layout_iff (v := oneVcpuVm) rfl hidle hrun
  obtain ⟨-, rfl⟩ : h' = h' ∧ log = log' := by simpa [hlogged] using hlogged'
  have hwhole' : Whole log := fun e he => of_decide_eq_true (hwhole e he)
  exact ⟨hidle, h', log, hlogged, hwhole', hiff hwhole'⟩

/-- A disk on which no byte reaches its file before the stream is closed. -/
def lateHost : Host :=
  (bootHost 1 .intel).setDisk { (bootHost 1 .intel).disk with spills := fun _ _ _ => 0 }

/-- **The second stream overtakes the first.** The region is at the start of the file, and is overwritten
when the first stream is closed. -/
theorem region_overwritten : ∃ h₀ h h' v log,
    (runOps HvOp.run [.create { vcpuCount := 1, memoryRegionCount := 1 }]).run lateHost = some ((), h₀) ∧
      (vmAllocMemory (some 16384) 0 16 .ram).run h₀ = some (.ok, h) ∧ h.vms 16384 = some v ∧
      (checkpointCreate (some 16384) (some "vm.ckpt") 0).run h = some (.ok, h') ∧
      (checkpointCreateLogged (some 16384) (some "vm.ckpt") 0).run (h, []) = some (.ok, (h', log)) ∧
      Whole log ∧ ¬ LaidOut h h' 16384 v "vm.ckpt" 0 := by
  have hres : ((runOps HvOp.run [.create { vcpuCount := 1, memoryRegionCount := 1 }]).run lateHost).any
      (fun p => ((vmAllocMemory (some 16384) 0 16 .ram).run p.2).any fun q => q.1 = .ok &&
        (q.2.vms 16384).any fun v =>
          ((checkpointCreateLogged (some 16384) (some "vm.ckpt") 0).run (q.2, [])).any fun c =>
            c.1 = .ok && c.2.2.all (fun e => e.2 = .ok) &&
              (strncpy (List.replicate 64 0) v.name 63).all fun vmName => c.2.1.disk.files "vm.ckpt" !=
                some (checkpointLayout q.2 16384 v (checkpointHeader v 0 vmName))) = true := by
    decide +kernel
  obtain ⟨⟨⟨⟩, h₀⟩, hvm, hres⟩ := (Option.any_eq_true _ _).mp hres
  simp only [Bool.and_eq_true, Option.any_eq_true, List.all_eq_true, decide_eq_true_eq] at hres
  obtain ⟨⟨r, h⟩, halloc, rfl, v, hv, ⟨c, h', log⟩, hlogged, ⟨rfl, hwhole⟩, hfile⟩ := hres
  refine ⟨h₀, h, h', v, log, hvm, halloc, hv, (checkpointCreateLogged_erases _ _ _).run_of_log hlogged,
    hlogged, hwhole, ?_⟩
  rintro ⟨vmName, hname, hlaid⟩
  rw [hname, Option.all_some, bne_iff_ne] at hfile
  exact hfile hlaid

end NexusVM
