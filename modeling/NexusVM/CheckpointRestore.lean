import NexusVM.CheckpointImage

/-!
# Restoring a checkpoint

* `Host.guestByte`, `RoundTrips`: what a guest finds in its memory, and what a restored checkpoint
  should give back;
* `checkpointRead_spec`: a whole record is read;
* **`checkpoint_never_restored`**: no checkpoint that `checkpoint_create` has made is accepted.
-/

namespace NexusVM

open Prog Stdio

variable {h h₁ : Host} {a : Addr} {v : Nexusvm} {f pos : ℕ} {path : String} {file : List UInt8}

/-! ## What should come back -/

/-- What the VM at `a` finds at a guest-physical address. -/
def Host.guestByte (h : Host) (a : Addr) (gpa : UInt64) : Option UInt8 :=
  (h.translate a gpa).map fun hpa => h.mem.ram hpa.toNat

/-- The addresses of a region. -/
def MemoryRegion.Contains (r : MemoryRegion) (gpa : UInt64) : Prop :=
  ∃ k : ℕ, k < r.size.toNat ∧ gpa = r.guestPhys + UInt64.ofNat k

/-- The VM at `b` is what the VM at `a` was in `h`: its configuration, its vCPUs, and what is in its
mapped memory. -/
structure SameVm (h h' : Host) (a b : Addr) (v w : Nexusvm) : Prop where
  config : w.config = v.config
  count : w.vcpuCount = v.vcpuCount
  states : h'.cpuStates w.vcpus = h.cpuStates v.vcpus
  ram : ∀ r ∈ v.regions, r.type = .ram → ∀ gpa x, r.Contains gpa → h.guestByte a gpa = some x →
    h'.guestByte b gpa = some x

/-- From `h₁` on, a restore of the checkpoint gives the VM back that was at `a` in `h`. -/
def RoundTrips (stale : ℕ → ℕ → UInt8) (path : String) (a : Addr) (h h₁ : Host) : Prop :=
  ∃ v b h₂ w, h.vms a = some v ∧ (checkpointRestore stale (some path)).run h₁ = some (.ok b, h₂) ∧
    h₂.vms b = some w ∧ SameVm h h₂ a b v w

/-! ## Reads -/

theorem length_take_drop (file : List UInt8) (pos size : ℕ) :
    ((file.drop pos).take size).length = min size (file.length - pos) := by
  rw [List.length_take, List.length_drop]

theorem checkpointRead_spec (hr : h.disk.Reads f path file pos) {data : List UInt8}
    (hdata : data <+: file.drop pos) {size : ℕ} (hlen : data.length = size) :
    wp (checkpointRead f size) (fun r h' => r = (.ok, data) ∧ h' = h.setDisk h'.disk ∧
      h'.disk.Reads f path file (pos + size)) h := by
  rw [checkpointRead, wp_bind, wp_onDisk]
  refine wp_mono (fread_reads hr size) ?_
  rintro _ d ⟨rfl, hr'⟩
  rw [← hlen, ← List.prefix_iff_eq_take.mp hdata] at hr' ⊢
  rw [if_neg (not_not.mpr rfl), wp_pure]
  exact ⟨rfl, rfl, hr'⟩

theorem readConfig_refused {v : Nexusvm} {timestamp : UInt64} {vmName rest : List UInt8}
    (hr : h.disk.Reads f path
      (checkpointHeaderCodec.encode (checkpointHeader v timestamp vmName) ++ rest) 0) :
    wlp (readConfig f) (fun r _ => r = .error .errGeneric) h := by
  rw [readConfig, wlp_bind]
  refine wlp_mono (checkpointRead_spec hr (List.prefix_append _ _)
    (checkpointHeaderCodec.length_encode _)).wlp ?_
  rintro _ h₁ ⟨rfl, -, -⟩
  -- the two magics differ in their fourth letter
  have horder : strncmp (checkpointHeader v timestamp vmName).magic.toList restoreMagic 8 = some 5 := rfl
  dsimp only
  rw [if_neg (not_not.mpr rfl), Codec.decode_encode_self, wlp_bind, wlp_fetch, horder]
  rintro _ ⟨⟩
  rw [if_pos (by decide), wlp_pure]

/-! ## Round trips -/

/-- **A checkpoint is never restored.** Whatever the VM, its vCPUs and its memory: where
`checkpoint_create` succeeds, every write is whole and the bytes reach the file in order, the
checkpoint is not one that `checkpoint_restore` accepts. -/
theorem checkpoint_never_restored (hq : h.disk.Quiet) {timestamp : UInt64}
    (hcreate : (checkpointCreate (some a) (some path) timestamp).run h = some (.ok, h₁))
    (stale : ℕ → ℕ → UInt8) : ¬ RoundTrips stale path a h h₁ := by
  obtain ⟨v, vmName, -, -, -, -, -, -, hq₁, hfile⟩ := checkpointCreate_spec hq _ _ hcreate rfl
  rintro ⟨_, b, h₂, _, -, hrestore, -⟩
  suffices hfails : wlp (checkpointRestore stale (some path)) (fun r _ => ∀ b, r ≠ .ok b) h₁ from
    hfails _ _ hrestore b rfl
  rw [checkpointRestore, wlp_bind, wlp_onDisk]
  refine wlp_mono (fopen_read hq₁ hfile).wlp ?_
  rintro o d ⟨-, hopen⟩
  cases o with
  | none =>
    rw [wlp_pure]
    exact nofun
  | some f =>
    have hr := hopen f rfl
    rw [checkpointImage, List.append_assoc, List.append_assoc] at hr
    rw [wlp_bind]
    refine wlp_mono (readConfig_refused (h := h₁.setDisk d) hr) ?_
    rintro _ h₃ rfl
    simp only [wlp_bind, wlp_pure]
    exact fun _ _ _ => nofun

theorem quiet_bootHost (n : UInt32) (cpuVendor : CpuVendor) : (bootHost n cpuVendor).disk.Quiet :=
  ⟨fun _ _ _ => rfl, fun _ _ => rfl, nofun⟩

/-- A VM with one vCPU and a page of memory that is not mapped. -/
def oneVcpuHost : Host :=
  ((bootHost 1 .intel).setVcpu 16384 (some { vm := 8192 })).setVm 8192 (some {
    vcpus := [16384], vcpuCount := 1, memoryRegions := [{ size := 4096 }], memoryRegionCount := 1 })

theorem checkpoint_never_restored_one_vcpu : ∃ h₁,
    (checkpointCreate (some 8192) (some "vm.ckpt") 0).run oneVcpuHost = some (.ok, h₁) ∧
      ¬ RoundTrips (fun _ _ => 0) "vm.ckpt" 8192 oneVcpuHost h₁ := by
  have hres : ((checkpointCreate (some 8192) (some "vm.ckpt") 0).run oneVcpuHost).any
      (fun p => p.1 = .ok) = true := by decide +kernel
  obtain ⟨⟨r, h₁⟩, hrun, hr⟩ := (Option.any_eq_true _ _).mp hres
  obtain rfl := of_decide_eq_true hr
  exact ⟨h₁, hrun, checkpoint_never_restored (h := oneVcpuHost) (quiet_bootHost 1 .intel) hrun _⟩

/-- **A good checkpoint is refused.** A VM with one vCPU and 16 bytes of memory is written whole and in
order, and the file is taken for something else. -/
theorem good_checkpoint_refused : (bootHost 1 .intel).disk.Quiet ∧ ∃ h₀ h h₁ h₂,
    (runOps HvOp.run [.create { vcpuCount := 1, memoryRegionCount := 1 }]).run (bootHost 1 .intel) =
      some ((), h₀) ∧
      (vmAllocMemory (some 16384) 0 16 .ram).run h₀ = some (.ok, h) ∧
      (checkpointCreate (some 16384) (some "vm.ckpt") 0).run h = some (.ok, h₁) ∧
      (checkpointRestore (fun _ _ => 0) (some "vm.ckpt")).run h₁ = some (.error .errGeneric, h₂) ∧
      ¬ RoundTrips (fun _ _ => 0) "vm.ckpt" 16384 h h₁ := by
  have hres : ((runOps HvOp.run [.create { vcpuCount := 1, memoryRegionCount := 1 }]).run
      (bootHost 1 .intel)).any (fun p => ((vmAllocMemory (some 16384) 0 16 .ram).run p.2).any fun q =>
        q.1 = .ok && ((checkpointCreate (some 16384) (some "vm.ckpt") 0).run q.2).any fun c =>
          c.1 = .ok && ((checkpointRestore (fun _ _ => 0) (some "vm.ckpt")).run c.2).any fun r =>
            r.1 = .error .errGeneric) = true := by decide +kernel
  obtain ⟨⟨⟨⟩, h₀⟩, hvm, hres⟩ := (Option.any_eq_true _ _).mp hres
  simp only [Bool.and_eq_true, Option.any_eq_true, decide_eq_true_eq] at hres
  obtain ⟨⟨r, h⟩, halloc, rfl, ⟨c, h₁⟩, hcreate, rfl, ⟨o, h₂⟩, hrestore, rfl⟩ := hres
  refine ⟨quiet_bootHost 1 .intel, h₀, h, h₁, h₂, hvm, halloc, hcreate, hrestore, ?_⟩
  rintro ⟨_, b, _, _, -, hok, -⟩
  rw [hrestore] at hok
  cases hok

end NexusVM
