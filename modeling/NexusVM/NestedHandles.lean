import NexusVM.NestedMode

/-!
# The handle of a saved L2 state

`nested_save_l2_state` leaves the address of the saved state in the vCPU's R12, and
`nested_restore_l2_state` takes it from there.

* `L2Op`, `L2Op.perform`: what may happen between the two, the guest's own VMCALL included;
* `L2Base`, `L2Handle`: the saved states are live blocks, and R12 is zero or the address of one;
* `L2Op.LoadsOwned`, **`L2Op.perform_spec`**: operations that load no other value keep this;
* **`l2_handles_iff`**: a restore is safe wherever it comes just if no operation loads another value.
-/

namespace NexusVM

open Prog

/-! ## Operations -/

inductive L2Op
  | save
  | restore
  | setState (s : CpuState)
  /-- The guest has stored the registers at `buffer`. -/
  | vmcall (buffer : UInt64) (s : CpuState)

/-- A VMCALL of `HYPERCALL_VCPU_SET_STATE`. -/
def setStateVmcall (w : VmxWorld) (c : Addr) (buffer : UInt64) (s : CpuState) : VmxM Result := do
  onHost (writeRam buffer.toNat (cpuStateCodec.encode s))
  modifyGprs c fun g => { g with rax := HYPERCALL_VCPU_SET_STATE, rbx := buffer }
  vmxHandleVmcall w c

/-- Perform an operation on a vCPU. -/
def L2Op.perform (w : VmxWorld) (c : Addr) : L2Op → NestedM Result
  | .save => nestedSaveL2State w (some c)
  | .restore => nestedRestoreL2State (some c)
  | .setState s => onProgram (vcpuSetState (some c) s)
  | .vmcall buffer s => onMachine (setStateVmcall w c buffer s)

/-- The operation loads R12 with zero or with the address of a saved state, if it loads it at all. -/
def L2Op.LoadsOwned (n : NestedMachine) : L2Op → Prop
  | .save => True
  | .restore => True
  | .setState s => s.gprs.r12 = 0 ∨ ∃ l2, n.l2s s.gprs.r12.toNat = some l2
  | .vmcall buffer s => buffer = 0 ∨ s.gprs.r12 = 0 ∨ ∃ l2, n.l2s s.gprs.r12.toNat = some l2

/-! ## Invariants -/

/-- Nested VMX is enabled on the vCPU, and each saved state is a live block. -/
structure L2Base (c : Addr) (n : NestedMachine) : Prop where
  initialized : n.host.gInitialized = true
  vendor : n.host.hv.cpuVendor = .intel
  owner : ∃ u, n.host.vcpus c = some u ∧ ∃ v, n.host.vms u.vm = some v ∧ v.nestedVmx.isSome = true
  holds : ∀ a s, n.l2s a = some s → n.host.mem.heap.Holds .l2State a
  limit : n.host.mem.heap.limit ≤ 2 ^ 64

/-- R12 is zero or the address of a saved state. -/
def L2Handle (c : Addr) (n : NestedMachine) : Prop := ∀ u, n.host.vcpus c = some u →
  u.cpuState.gprs.r12 = 0 ∨ ∃ l2, n.l2s u.cpuState.gprs.r12.toNat = some l2

/-- No free of something that is not live. -/
def SameBadFrees (n n' : NestedMachine) : Prop :=
  n'.host.mem.heap.badFrees = n.host.mem.heap.badFrees

variable {w : VmxWorld} {c : Addr} {n n' : NestedMachine}

theorem L2Base.setVcpu (h : L2Base c n) {u u' : Nexusvcpu} (hu : n.host.vcpus c = some u)
    (hvm : u'.vm = u.vm) : L2Base c (n.setHost (n.host.setVcpu c (some u'))) := by
  obtain ⟨u₀, hu₀, v, hv, hnested⟩ := h.owner
  obtain rfl : u₀ = u := Option.some.inj (hu₀.symm.trans hu)
  refine ⟨h.initialized, h.vendor, ⟨u', Function.update_self _ _ _, v, ?_, hnested⟩, h.holds, h.limit⟩
  rw [hvm]
  exact hv

theorem L2Base.of_host (h : L2Base c n) (hhost : n'.host = n.host) (hl2s : n'.l2s = n.l2s) :
    L2Base c n' := by
  refine ⟨?_, ?_, ?_, ?_, ?_⟩
  · rw [hhost]
    exact h.initialized
  · rw [hhost]
    exact h.vendor
  · rw [hhost]
    exact h.owner
  · rw [hhost, hl2s]
    exact h.holds
  · rw [hhost]
    exact h.limit

/-! ## Loading R12 -/

/-- After an operation that sets the registers. -/
structure Loaded (c : Addr) (r12 : UInt64) (n n' : NestedMachine) : Prop where
  base : L2Base c n'
  l2s : n'.l2s = n.l2s
  badFrees : SameBadFrees n n'
  r12 : ∀ u, n'.host.vcpus c = some u → u.cpuState.gprs.r12 = r12

theorem Loaded.handle {r12 : UInt64} (hl : Loaded c r12 n n')
    (h : r12 = 0 ∨ ∃ l2, n.l2s r12.toNat = some l2) : L2Handle c n' := by
  intro u hu
  rw [hl.r12 u hu, hl.l2s]
  exact h

theorem L2Base.loaded (h : L2Base c n) {u : Nexusvcpu} (hu : n.host.vcpus c = some u)
    (u' : Nexusvcpu) (hvm : u'.vm = u.vm) (ram : Addr → UInt8) : Loaded c u'.cpuState.gprs.r12 n
      (n.setHost ((n.host.setMem { n.host.mem with ram := ram }).setVcpu c (some u'))) := by
  have hram : L2Base c (n.setHost (n.host.setMem { n.host.mem with ram := ram })) :=
    ⟨h.initialized, h.vendor, h.owner, h.holds, h.limit⟩
  refine ⟨hram.setVcpu hu hvm, rfl, rfl, fun u₁ hu₁ => ?_⟩
  have hself : some u' = some u₁ := Eq.trans (Function.update_self c (some u') n.host.vcpus).symm hu₁
  rw [Option.some.inj hself]

theorem Loaded.of_host {r12 : UInt64} {n₁ n₂ : NestedMachine} (h : Loaded c r12 n n₁)
    (hhost : n₂.host = n₁.host) (hl2s : n₂.l2s = n₁.l2s) : Loaded c r12 n n₂ := by
  refine ⟨h.base.of_host hhost hl2s, hl2s.trans h.l2s, ?_, ?_⟩
  · rw [SameBadFrees, hhost]
    exact h.badFrees
  · rw [hhost]
    exact h.r12

theorem setR12_loaded (h : L2Base c n) (r12 : UInt64) :
    wp (NexusVM.onMachine (setR12 c r12)) (fun _ n' => Loaded c r12 n n') n := by
  obtain ⟨u, hu, -⟩ := h.owner
  rw [setR12, wp_onMachine, wp_modifyGprs]
  exact ⟨u, hu, h.loaded hu (u.setGprs { u.cpuState.gprs with r12 := r12 }) rfl n.host.mem.ram⟩

theorem setState_loaded (h : L2Base c n) (s : CpuState) :
    wp ((L2Op.setState s).perform w c) (fun _ n' => Loaded c s.gprs.r12 n n') n := by
  obtain ⟨u, hu, -⟩ := h.owner
  rw [L2Op.perform, wp_onProgram, vcpuSetState, wp_bind, wp_getVcpu]
  refine ⟨u, hu, ?_⟩
  rw [wp_bind, wp_putVcpu, wp_pure]
  exact h.loaded hu { u with cpuState := s } rfl n.host.mem.ram

theorem hypercallHandle_setState {h : Host} {u : Nexusvcpu} {params : HypercallParams} {s : CpuState}
    (hu : h.vcpus c = some u) (hrax : params.rax = HYPERCALL_VCPU_SET_STATE)
    (hbuffer : (List.range sizeofCpuState).map (fun k => h.mem.ram (params.rbx.toNat + k)) =
      cpuStateCodec.encode s) :
    wp (Host.hypercallHandle c params) (fun _ h' => h' =
      h.setVcpu c (some (if params.rbx = 0 then u else { u with cpuState := s }))) h := by
  rw [Host.hypercallHandle, wp_bind, wp_getVcpu]
  refine ⟨u, hu, ?_⟩
  rw [hrax, if_neg (by decide), if_neg (by decide), if_pos rfl, wp_bind, wp_when]
  refine ⟨fun hrbx => ?_, fun hrbx => ?_⟩
  · rw [wp_bind, readRam, wp_bind, wp_get, wp_pure, wp_putVcpu, wp_pure, hbuffer,
      Codec.decode_encode_self, if_neg hrbx]
  · rw [wp_pure, if_pos (not_not.mp hrbx), Host.setVcpu, ← hu, Function.update_eq_self]

/-- **A VMCALL that sets the state** loads R12 from the guest's buffer. -/
theorem vmcall_loaded (h : L2Base c n) {u : Nexusvcpu} (hu : n.host.vcpus c = some u)
    (buffer : UInt64) (s : CpuState) : wp ((L2Op.vmcall buffer s).perform w c) (fun _ n' =>
      Loaded c (if buffer = 0 then u.cpuState.gprs.r12 else s.gprs.r12) n n') n := by
  have hread := n.host.mem.putRam_read buffer.toNat (cpuStateCodec.encode s)
  rw [cpuStateCodec.length_encode, size_codecs.1] at hread
  rw [L2Op.perform, wp_onMachine, setStateVmcall, wp_bind, wp_onHost, writeRam, wp_modify, wp_bind,
    wp_modifyGprs]
  refine ⟨u, hu, ?_⟩
  generalize hu₁ : u.setGprs _ = u₁
  have hparams : u₁.cpuState.gprs.rax = HYPERCALL_VCPU_SET_STATE ∧ u₁.cpuState.gprs.rbx = buffer ∧
      u₁.cpuState.gprs.r12 = u.cpuState.gprs.r12 ∧ u₁.vm = u.vm := by
    subst hu₁
    exact ⟨rfl, rfl, rfl, rfl⟩
  obtain ⟨hrax, hrbx, hr12, hvm⟩ := hparams
  rw [vmxHandleVmcall, wp_bind, wp_onHost, wp_getVcpu]
  refine ⟨u₁, Function.update_self _ _ _, ?_⟩
  rw [wp_bind, wp_onHost, hrax, hrbx]
  refine wp_mono (hypercallHandle_setState (Function.update_self _ _ _) rfl hread) ?_
  rintro ⟨status, result⟩ _ rfl
  rw [wp_bind, wp_modifyGprs]
  refine ⟨_, Function.update_self _ _ _, ?_⟩
  generalize hu₂ : Nexusvcpu.setGprs _ _ = u₂
  have hloaded : u₂.vm = u.vm ∧
      u₂.cpuState.gprs.r12 = if buffer = 0 then u.cpuState.gprs.r12 else s.gprs.r12 := by
    subst hu₂
    rw [Nexusvcpu.setGprs_vm, Nexusvcpu.setGprs_gprs]
    split_ifs
    · exact ⟨hvm, hr12⟩
    · exact ⟨hvm, rfl⟩
  rw [wp_bind]
  refine wp_mono (advanceRip_host w _ rfl) fun _ m hm => ?_
  rw [wp_pure, ← hloaded.2]
  have hl := h.loaded hu u₂ hloaded.1 (n.host.mem.putRam buffer.toNat (cpuStateCodec.encode s)).ram
  refine hl.of_host (hm.trans ?_) rfl
  change ((((n.host.setMem _).setVcpu c _).setVcpu c _).setVcpu c _) = _
  rw [Host.setVcpu_setVcpu, Host.setVcpu_setVcpu]
  rfl

/-! ## Saving and restoring -/

/-- Both hold, and no free was bad. -/
structure L2Safe (c : Addr) (n n' : NestedMachine) : Prop where
  base : L2Base c n'
  handle : L2Handle c n'
  badFrees : SameBadFrees n n'

theorem Loaded.safe {r12 : UInt64} (hl : Loaded c r12 n n')
    (h : r12 = 0 ∨ ∃ l2, n.l2s r12.toNat = some l2) : L2Safe c n n' :=
  ⟨hl.base, hl.handle h, hl.badFrees⟩

theorem L2Base.grant (h : L2Base c n) (b : Addr) (s : L2State) : L2Base c
    ((n.setHost (n.host.grant ⟨.l2State, b, 1 * sizeofL2State⟩)).setL2 b (some s)) := by
  refine ⟨h.initialized, h.vendor, h.owner, fun a s' hs' => ?_, h.limit⟩
  by_cases hab : a = b
  · subst hab
    exact Heap.holds_grant_self n.host.mem.heap ⟨.l2State, a, 1 * sizeofL2State⟩
  · exact (h.holds a s' ((Function.update_of_ne hab _ _).symm.trans hs')).grant _

/-- **Saving** leaves the address of the saved state in R12. -/
theorem save_spec (h : L2Base c n) (hh : L2Handle c n) :
    wp (nestedSaveL2State w (some c)) (fun _ n' => L2Safe c n n') n := by
  obtain ⟨u, hu, v, hv, hnested⟩ := h.owner
  simp only [nestedSaveL2State, wp_bind, wp_onProgram, wp_getHv, NestedMachine.setHost_self,
    wp_getOwner]
  refine ⟨h.initialized, u, hu, v, hv, ?_⟩
  rw [if_pos ⟨h.vendor, hnested⟩, wp_bind, wp_onProgram]
  refine wp_calloc (fun b hf => ?_) ?_
  · have hlt : b < 2 ^ 64 := by
      have hend : b + 1 * sizeofL2State ≤ n.host.mem.heap.limit := hf.2.2.1
      have hlimit := h.limit
      unfold sizeofL2State at hend
      omega
    rw [wp_bind]
    refine wp_onMachine_of_host (readL2State_host w) fun s m hm => ?_
    rw [wp_bind, wp_modify, wp_bind]
    have hbase : L2Base c (NestedMachine.setL2 (NestedMachine.setMachine _ m) b (some s)) :=
      (h.grant b s).of_host hm rfl
    refine wp_mono (setR12_loaded hbase _) fun _ n₁ hl => ?_
    rw [wp_pure]
    refine ⟨hl.base, hl.handle (.inr ⟨s, ?_⟩), hl.badFrees.trans ?_⟩
    · rw [UInt64.toNat_ofNat', Nat.mod_eq_of_lt hlt]
      exact Function.update_self _ _ _
    · change m.host.mem.heap.badFrees = _
      rw [hm]
      rfl
  · rw [wp_pure]
    exact ⟨⟨h.initialized, h.vendor, h.owner, h.holds, h.limit⟩, hh, rfl⟩

theorem L2Base.release (h : L2Base c n) (a : Addr) :
    L2Base c ((n.setHost (n.host.release .l2State a)).setL2 a none) := by
  refine ⟨h.initialized, h.vendor, h.owner, fun a' s' hs' => ?_, ?_⟩
  · by_cases haa : a' = a
    · subst haa
      cases (Function.update_self _ _ _).symm.trans hs'
    · have hheld := h.holds a' s' ((Function.update_of_ne haa _ _).symm.trans hs')
      exact hheld.release fun he => haa he.2
  · exact (n.host.mem.heap.release_limit .l2State a).trans_le h.limit

/-- **Restoring** is safe where R12 is zero or the address of a saved state. -/
theorem restore_spec (h : L2Base c n) (hh : L2Handle c n) :
    wp (nestedRestoreL2State (some c)) (fun _ n' => L2Safe c n n') n := by
  obtain ⟨u, hu, v, hv, hnested⟩ := h.owner
  simp only [nestedRestoreL2State, wp_bind, wp_onProgram, wp_getHv, NestedMachine.setHost_self,
    wp_getOwner]
  refine ⟨h.initialized, u, hu, v, hv, ?_⟩
  rw [if_pos ⟨h.vendor, hnested⟩, wp_bind, wp_onProgram, wp_getVcpu]
  refine ⟨u, hu, ?_⟩
  rw [NestedMachine.setHost_self]
  refine wp_ite (fun _ => ?_) fun hne => ?_
  · rw [wp_pure]
    exact ⟨h, hh, rfl⟩
  · obtain ⟨s, hs⟩ := (hh u hu).resolve_left hne
    rw [wp_bind, wp_fetch]
    refine ⟨s, hs, ?_⟩
    rw [wp_bind]
    refine wp_onMachine_of_host (fun _ => writeFields_host _) fun _ m hm => ?_
    rw [wp_bind, wp_onProgram, wp_freeBuffer_some, wp_bind, wp_modify, wp_bind]
    have hbase : L2Base c (n.setMachine m) := h.of_host hm rfl
    refine wp_mono (setR12_loaded (hbase.release _) 0) fun _ n₁ hl => ?_
    rw [wp_pure]
    refine ⟨hl.base, hl.handle (.inl rfl), hl.badFrees.trans ?_⟩
    change ((m.host.mem.heap.release .l2State _).badFrees : ℕ) = _
    rw [show m.host = n.host from hm]
    exact (h.holds _ s hs).release_badFrees

/-- Restoring reads the state at the address in R12. -/
theorem restore_needs (h : L2Base c n) {Q : Result → NestedMachine → Prop}
    (hwp : wp (nestedRestoreL2State (some c)) Q n) : L2Handle c n := by
  obtain ⟨u, hu, v, hv, hnested⟩ := h.owner
  simp only [nestedRestoreL2State, wp_bind, wp_onProgram, wp_getHv, NestedMachine.setHost_self,
    wp_getOwner] at hwp
  obtain ⟨-, u₁, hu₁, v₁, hv₁, hwp⟩ := hwp
  obtain rfl : u₁ = u := Option.some.inj (hu₁.symm.trans hu)
  obtain rfl : v₁ = v := Option.some.inj (hv₁.symm.trans hv)
  rw [if_pos ⟨h.vendor, hnested⟩, wp_bind, wp_onProgram, wp_getVcpu] at hwp
  obtain ⟨u₂, hu₂, hwp⟩ := hwp
  obtain rfl : u₂ = u₁ := Option.some.inj (hu₂.symm.trans hu₁)
  intro u₃ hu₃
  obtain rfl : u₃ = u₂ := Option.some.inj (hu₃.symm.trans hu₂)
  by_cases hzero : u₃.cpuState.gprs.r12 = 0
  · exact .inl hzero
  · rw [if_neg hzero, wp_bind, wp_fetch] at hwp
    obtain ⟨s, hs, -⟩ := hwp
    exact .inr ⟨s, hs⟩

/-! ## Runs -/

/-- **One operation.** -/
theorem L2Op.perform_spec (op : L2Op) (h : L2Base c n) (hh : L2Handle c n) (hop : op.LoadsOwned n) :
    wp (op.perform w c) (fun _ n' => L2Safe c n n') n := by
  cases op with
  | save => exact save_spec h hh
  | restore => exact restore_spec h hh
  | setState s => exact wp_mono (setState_loaded h s) fun _ _ hl => hl.safe hop
  | vmcall buffer s =>
    obtain ⟨u, hu, -⟩ := h.owner
    refine wp_mono (vmcall_loaded h hu buffer s) fun _ _ hl => hl.safe ?_
    split_ifs with hbuffer
    · exact hh u hu
    · exact hop.resolve_left hbuffer

/-- An operation after which a restore is safe loads zero or the address of a saved state. -/
theorem L2Op.loadsOwned (op : L2Op) (h : L2Base c n) {Q : Result → NestedMachine → Prop}
    (hsafe : wp (op.perform w c) (fun _ n' => wp (nestedRestoreL2State (some c)) Q n') n) :
    op.LoadsOwned n := by
  have hloaded : ∀ {r12}, wp (op.perform w c) (fun _ n' => Loaded c r12 n n') n →
      r12 = 0 ∨ ∃ l2, n.l2s r12.toNat = some l2 := by
    intro r12 hl
    obtain ⟨_, n', -, hl, hrestore⟩ := wp_and hl hsafe
    obtain ⟨u, hu, -⟩ := hl.base.owner
    have hhandle := restore_needs hl.base hrestore u hu
    rwa [hl.r12 u hu, hl.l2s] at hhandle
  cases op with
  | save => trivial
  | restore => trivial
  | setState s => exact hloaded (setState_loaded h s)
  | vmcall buffer s =>
    obtain ⟨u, hu, -⟩ := h.owner
    by_cases hbuffer : buffer = 0
    · exact .inl hbuffer
    · have hl := vmcall_loaded (w := w) h hu buffer s
      rw [if_neg hbuffer] at hl
      exact .inr (hloaded hl)

theorem L2Safe.refl (h : L2Base c n) (hh : L2Handle c n) : L2Safe c n n := ⟨h, hh, rfl⟩

theorem L2Safe.trans {n₁ n₂ : NestedMachine} (h₁ : L2Safe c n n₁) (h₂ : L2Safe c n₁ n₂) :
    L2Safe c n n₂ := ⟨h₂.base, h₂.handle, h₂.badFrees.trans h₁.badFrees⟩

/-- **A run** all of whose operations load zero or the address of a saved state. -/
theorem L2Op.run_spec (h : L2Base c n) (hh : L2Handle c n) (pre : List L2Op)
    (hloads : ∀ pre' op n₁, pre' ++ [op] <+: pre →
      (runOps (L2Op.perform w c) pre').run n = some ((), n₁) → op.LoadsOwned n₁) :
    wp (runOps (L2Op.perform w c) pre) (fun _ n' => L2Safe c n n') n := by
  induction pre using List.reverseRecOn with
  | nil =>
    rw [runOps, wp_pure]
    exact .refl h hh
  | append_singleton pre op ih =>
    obtain ⟨_, n₁, hrun, hsafe⟩ := ih fun pre' op' n₁ hp =>
      hloads pre' op' n₁ (hp.trans (List.prefix_append pre [op]))
    rw [wp_runOps_append]
    refine wp_of_run hrun (wp_mono (op.perform_spec hsafe.base hsafe.handle ?_) fun _ _ => hsafe.trans)
    exact hloads pre op n₁ List.prefix_rfl hrun

/-- The run so far and a restore that comes next: each finds the state that it reads, and gives back a
live block. -/
def RestoreSafe (w : VmxWorld) (c : Addr) (n : NestedMachine) (pre : List L2Op) : Prop :=
  wp (runOps (L2Op.perform w c) (pre ++ [.restore])) (fun _ n' => SameBadFrees n n') n

/-- **The handle of a saved state.** -/
theorem l2_handles_iff (h : L2Base c n) (ops : List L2Op) :
    (∀ pre, pre <+: ops → RestoreSafe w c n pre) ↔
      L2Handle c n ∧ ∀ pre op n₁, pre ++ [op] <+: ops →
        (runOps (L2Op.perform w c) pre).run n = some ((), n₁) → op.LoadsOwned n₁ := by
  constructor
  · intro hrestore
    have hh : L2Handle c n := by
      have hfirst := hrestore [] (List.nil_prefix)
      rw [RestoreSafe, wp_runOps_append, runOps, wp_pure] at hfirst
      exact restore_needs h hfirst
    have hsafe : ∀ pre, pre <+: ops →
        wp (runOps (L2Op.perform w c) pre) (fun _ n' => L2Safe c n n') n := by
      intro pre
      induction pre using List.reverseRecOn with
      | nil =>
        intro _
        rw [runOps, wp_pure]
        exact .refl h hh
      | append_singleton pre op ih =>
        intro hpre
        obtain ⟨_, n₁, hrun, hs⟩ := ih ((List.prefix_append pre [op]).trans hpre)
        have hnext := hrestore _ hpre
        rw [RestoreSafe, wp_runOps_append, wp_runOps_append] at hnext
        rw [wp_runOps_append]
        have hrest := wp_run hnext hrun
        have hop := op.loadsOwned hs.base hrest
        exact wp_of_run hrun (wp_mono (op.perform_spec hs.base hs.handle hop) fun _ _ => hs.trans)
    refine ⟨hh, fun pre op n₁ hpre hrun => ?_⟩
    have hs := wp_run (hsafe pre ((List.prefix_append pre [op]).trans hpre)) hrun
    have hnext := hrestore _ hpre
    rw [RestoreSafe, wp_runOps_append, wp_runOps_append] at hnext
    have hrest := wp_run hnext hrun
    exact op.loadsOwned hs.base hrest
  · rintro ⟨hh, hloads⟩ pre hpre
    have hrun := L2Op.run_spec h hh pre fun pre' op n₁ hp => hloads pre' op n₁ (hp.trans hpre)
    rw [RestoreSafe, wp_runOps_append]
    refine wp_mono hrun fun _ n₁ hs => ?_
    exact wp_mono (restore_spec hs.base hs.handle) fun _ _ hs' => (hs.trans hs').badFrees

theorem l2Enabled (henable : (nestedVmxEnable (some 2)).run (nestedStart .intel) = some (.ok, n)) :
    L2Base 2 n ∧ L2Handle 2 n ∧ ∀ a, n.l2s a = none := by
  cases henable
  refine ⟨⟨rfl, rfl, ⟨_, rfl, _, rfl, rfl⟩, fun _ _ hs => ?_, by decide⟩, fun u hu => ?_, fun _ => rfl⟩
  · cases hs
  · cases hu
    exact .inl rfl

theorem l2_handles_iff_save : ∃ n,
    (nestedVmxEnable (some 2)).run (nestedStart .intel) = some (.ok, n) ∧
      ((∀ pre, pre <+: [.save, .restore] → RestoreSafe bareWorld 2 n pre) ↔
        L2Handle 2 n ∧ ∀ pre (op : L2Op) n₁, pre ++ [op] <+: [.save, .restore] →
          (runOps (L2Op.perform bareWorld 2) pre).run n = some ((), n₁) → op.LoadsOwned n₁) := by
  have henable : (nestedVmxEnable (some 2)).run (nestedStart .intel) = some (.ok, _) := rfl
  exact ⟨_, henable, l2_handles_iff (l2Enabled henable).1 _⟩

/-- Setting the registers puts a wild address into R12. -/
theorem forged_handle : ∃ n,
    (nestedVmxEnable (some 2)).run (nestedStart .intel) = some (.ok, n) ∧ L2Handle 2 n ∧
      ¬ RestoreSafe bareWorld 2 n [.setState { gprs := { r12 := 4096 } }] := by
  have henable : (nestedVmxEnable (some 2)).run (nestedStart .intel) = some (.ok, _) := rfl
  obtain ⟨hbase, hhandle, hnone⟩ := l2Enabled henable
  refine ⟨_, henable, hhandle, fun hsafe => ?_⟩
  change wp (runOps _ ([] ++ [_] ++ [_])) _ _ at hsafe
  rw [wp_runOps_append, wp_runOps_append, runOps, wp_pure] at hsafe
  rcases L2Op.loadsOwned _ hbase hsafe with hzero | ⟨l2, hl2⟩
  · revert hzero
    decide
  · rw [hnone] at hl2
    cases hl2

end NexusVM
