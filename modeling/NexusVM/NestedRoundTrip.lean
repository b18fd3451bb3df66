import NexusVM.NestedHandles

/-!
# Saving and restoring an L2 state

`nested_save_l2_state`, VMWRITEs, then `nested_restore_l2_state`.

* `readField`, `wp_vmxVmread_bind`, `vmxVmwrite_spec`: what an instruction reads and stores;
* `readL2State_spec`, `writeFields_current`, `writeFields_contents`: the reads of the save, and writes;
* `L2Ready`, `L2Saved`, `nestedSaveL2State_spec`, `nestedRestoreL2State_spec`: the two functions where
  nested VMX is enabled;
* `L2RoundTrip`, **`l2_round_trip_iff`**: a restore gives all back just if R12 was zero, or nothing was
  saved.
-/

namespace NexusVM

open Prog

variable {w : VmxWorld} {c : Addr} {n n₁ : NestedMachine} {m : Machine} {u : Nexusvcpu}

/-! ## Instructions -/

/-- What a VMREAD leaves in the register. -/
def readField (w : VmxWorld) (cpu : Vmx.Cpu VmcsField) (f : VmcsField) : UInt64 :=
  match cpu.current with
  | some x => cpu.contents x f
  | none => (w.encoding f).toUInt64

theorem wp_vmxVmread_bind {α : Type} {h : Host} {cpu : Vmx.Cpu VmcsField} {f : VmcsField}
    {k : UInt64 → VmxM α} {Q : α → Machine → Prop} (hm : m.host = h ∧ m.vmx.cpu = cpu)
    (hk : ∀ m' : Machine, m'.host = h ∧ m'.vmx.cpu = cpu → wp (k (readField w cpu f)) Q m') :
    wp (vmxVmread w f >>= k) Q m := by
  obtain ⟨rfl, rfl⟩ := hm
  rw [readField] at hk
  rw [vmxVmread, wp_bind, wp_bind, wp_instr, Vmx.wp_issue, Vmx.Cpu.step]
  cases hx : m.vmx.cpu.current with
  | some x =>
    rw [hx] at hk
    refine ⟨fun cpu hcpu => ?_, by simp⟩
    cases hcpu
    rw [wp_bind, wp_get]
    simp only [Machine.setVmx, hx, wp_pure]
    exact hk _ ⟨rfl, rfl⟩
  | none =>
    rw [hx] at hk
    refine ⟨by simp, fun _ => ?_⟩
    rw [wp_bind, wp_get]
    simp only [Machine.setVmx, hx, wp_pure]
    exact hk _ ⟨rfl, rfl⟩

/-- A VMWRITE stores one field of the current VMCS. -/
structure Stored (f : VmcsField) (value : UInt64) (m m' : Machine) : Prop where
  host : m'.host = m.host
  current : m'.vmx.cpu.current = m.vmx.cpu.current
  contents : ∀ x, m.vmx.cpu.current = some x →
    m'.vmx.cpu.contents x = Function.update (m.vmx.cpu.contents x) f value

theorem vmxVmwrite_spec (f : VmcsField) (value : UInt64) (m : Machine) :
    wp (vmxVmwrite f value) (fun _ m' => Stored f value m m') m := by
  rw [vmxVmwrite, wp_discard, wp_instr, Vmx.wp_issue, Vmx.Cpu.step]
  refine ⟨fun cpu hcpu => ?_, fun hnone => ⟨rfl, rfl, fun x hx => ?_⟩⟩
  · obtain ⟨x, hx, rfl⟩ := Option.map_eq_some_iff.mp hcpu
    refine ⟨rfl, rfl, fun y hy => ?_⟩
    rw [hx] at hy
    cases hy
    exact Function.update_self _ _ _
  · rw [hx] at hnone
    cases hnone

theorem readL2State_spec (w : VmxWorld) (m : Machine) :
    wp (readL2State w) (fun s m' => (m'.host = m.host ∧ m'.vmx.cpu = m.vmx.cpu) ∧
      ∀ p ∈ l2Fields s.guestState, p.2 = readField w m.vmx.cpu p.1) m := by
  obtain ⟨h, cpu, hm⟩ : ∃ h cpu, m.host = h ∧ m.vmx.cpu = cpu := ⟨_, _, rfl, rfl⟩
  unfold readL2State
  rw [hm.1, hm.2]
  repeat' refine wp_vmxVmread_bind ‹_› fun m hm => ?_
  rw [wp_pure]
  refine ⟨hm, ?_⟩
  simp [l2Fields]

theorem writeFields_current (fields : List (VmcsField × UInt64)) (m : Machine) :
    wp (writeFields fields) (fun _ m' => m'.host = m.host ∧
      m'.vmx.cpu.current = m.vmx.cpu.current) m := by
  refine wp_forEach _ (fun _ (m' : Machine) => m'.host = m.host ∧
    m'.vmx.cpu.current = m.vmx.cpu.current) fields ?_ ⟨rfl, rfl⟩
  rintro pre p post m' - ⟨hhost, hcurrent⟩
  refine wp_mono (vmxVmwrite_spec p.1 p.2 m') fun _ m'' hs => ?_
  exact ⟨hs.host.trans hhost, hs.current.trans hcurrent⟩

theorem writeFields_contents {fields : List (VmcsField × UInt64)} {value : VmcsField → UInt64}
    (hvalue : ∀ p ∈ fields, p.2 = value p.1) (m : Machine) :
    wp (writeFields fields) (fun _ m' => m'.host = m.host ∧
      ∀ x, m.vmx.cpu.current = some x → ∀ p ∈ fields, m'.vmx.cpu.contents x p.1 = value p.1) m := by
  refine wp_mono (wp_forEach _ (fun pre (m' : Machine) => (m'.host = m.host ∧
    m'.vmx.cpu.current = m.vmx.cpu.current) ∧ ∀ x, m.vmx.cpu.current = some x →
      ∀ p ∈ pre, m'.vmx.cpu.contents x p.1 = value p.1) fields ?_ ⟨⟨rfl, rfl⟩, by simp⟩)
    fun _ m' hm' => ⟨hm'.1.1, hm'.2⟩
  rintro pre p post m' hsplit ⟨⟨hhost, hcurrent⟩, hpre⟩
  have hp : p.2 = value p.1 := hvalue p (by rw [hsplit]; simp)
  refine wp_mono (vmxVmwrite_spec p.1 p.2 m') fun _ m'' hs => ?_
  refine ⟨⟨hs.host.trans hhost, hs.current.trans hcurrent⟩, fun x hx q hq => ?_⟩
  rw [hs.contents x (hcurrent.trans hx), Function.update_apply]
  split_ifs with hqp
  · rw [hp, hqp]
  · rcases List.mem_append.mp hq with hq | hq
    · exact hpre x hx q hq
    · exact absurd (congrArg Prod.fst (List.mem_singleton.mp hq)) hqp

/-! ## The two functions -/

/-- The guest fields that are saved. -/
def l2SavedFields : List VmcsField := (l2Fields {}).map Prod.fst

/-- The vCPU with a word in R12. -/
def Nexusvcpu.withR12 (u : Nexusvcpu) (r12 : UInt64) : Nexusvcpu :=
  u.setGprs { u.cpuState.gprs with r12 := r12 }

@[simp] theorem Nexusvcpu.withR12_vm (u : Nexusvcpu) (r12 : UInt64) : (u.withR12 r12).vm = u.vm := rfl
@[simp] theorem Nexusvcpu.withR12_r12 (u : Nexusvcpu) (r12 : UInt64) :
    (u.withR12 r12).cpuState.gprs.r12 = r12 := rfl
@[simp] theorem Nexusvcpu.withR12_withR12 (u : Nexusvcpu) (r s : UInt64) :
    (u.withR12 r).withR12 s = u.withR12 s := rfl
theorem Nexusvcpu.withR12_self (u : Nexusvcpu) : u.withR12 u.cpuState.gprs.r12 = u := rfl

theorem wp_setR12 {r12 : UInt64} {Q : Unit → NestedMachine → Prop} :
    wp (onMachine (setR12 c r12)) Q n ↔ ∃ u, n.host.vcpus c = some u ∧
      Q () (n.setHost (n.host.setVcpu c (some (u.withR12 r12)))) := by
  rw [setR12, wp_onMachine, wp_modifyGprs]
  rfl

/-- Nested VMX is enabled on the vCPU `u` at `c`; an address fits in a register. -/
structure L2Ready (c : Addr) (u : Nexusvcpu) (n : NestedMachine) : Prop where
  initialized : n.host.gInitialized = true
  vendor : n.host.hv.cpuVendor = .intel
  vcpu : n.host.vcpus c = some u
  nested : ∃ v, n.host.vms u.vm = some v ∧ v.nestedVmx.isSome = true
  limit : n.host.mem.heap.limit ≤ 2 ^ 64

theorem L2Ready.of_host (h : L2Ready c u n) (hhost : n₁.host = n.host) : L2Ready c u n₁ := by
  refine ⟨?_, ?_, ?_, ?_, ?_⟩ <;> rw [hhost]
  · exact h.initialized
  · exact h.vendor
  · exact h.vcpu
  · exact h.nested
  · exact h.limit

theorem L2Ready.withR12 (h : L2Ready c u n) (r12 : UInt64) :
    L2Ready c (u.withR12 r12) (n.setHost (n.host.setVcpu c (some (u.withR12 r12)))) :=
  ⟨h.initialized, h.vendor, Function.update_self _ _ _, h.nested, h.limit⟩

/-- The fields as they were in `n` are saved at `l2`, and R12 says so. -/
structure L2Saved (w : VmxWorld) (c : Addr) (u : Nexusvcpu) (l2 : Addr) (n n₁ : NestedMachine) :
    Prop where
  ready : L2Ready c (u.withR12 (UInt64.ofNat l2)) n₁
  ne_zero : l2 ≠ 0
  lt : l2 < 2 ^ 64
  state : ∃ s, n₁.l2s l2 = some s ∧
    ∀ p ∈ l2Fields s.guestState, p.2 = readField w n.machine.vmx.cpu p.1
  current : n₁.machine.vmx.cpu.current = n.machine.vmx.cpu.current

/-- **Saving**, where there is memory for the state. -/
theorem nestedSaveL2State_spec (h : L2Ready c u n) : wp (nestedSaveL2State w (some c)) (fun r n₁ =>
    (r = .ok ↔ n.host.mem.heap.Serves .l2State 16 (1 * sizeofL2State) 1) ∧
      (r = .ok → ∃ l2, L2Saved w c u l2 n n₁)) n := by
  obtain ⟨v, hv, hnested⟩ := h.nested
  simp only [nestedSaveL2State, wp_bind, wp_onProgram, wp_getHv, NestedMachine.setHost_self,
    wp_getOwner]
  refine ⟨h.initialized, u, h.vcpu, v, hv, ?_⟩
  rw [if_pos ⟨h.vendor, hnested⟩, wp_bind, wp_onProgram, calloc]
  refine wp_alignedAlloc_iff.mpr ⟨fun l2 hanswer hfits => ?_, fun hno => ?_⟩
  · have hlt : l2 < 2 ^ 64 := by
      have hend : l2 + 1 * sizeofL2State ≤ n.host.mem.heap.limit := hfits.2.2.1
      have hlimit := h.limit
      unfold sizeofL2State at hend
      omega
    have hgrant : L2Ready c u (n.setHost (n.host.grant ⟨.l2State, l2, 1 * sizeofL2State⟩)) :=
      ⟨h.initialized, h.vendor, h.vcpu, h.nested, h.limit⟩
    generalize hn₀ : n.setHost (n.host.grant ⟨.l2State, l2, 1 * sizeofL2State⟩) = n₀ at hgrant
    have hcpu₀ : n₀.machine.vmx.cpu = n.machine.vmx.cpu := by rw [← hn₀]; rfl
    rw [wp_bind, wp_onMachine]
    refine wp_mono (readL2State_spec w n₀.machine) ?_
    rintro s m ⟨⟨hhost, hcpu⟩, hfields⟩
    rw [hcpu₀] at hcpu hfields
    have hready : L2Ready c u ((n₀.setMachine m).setL2 l2 (some s)) := hgrant.of_host hhost
    rw [wp_bind, wp_modify, wp_bind, wp_setR12]
    refine ⟨u, hready.vcpu, ?_⟩
    rw [wp_pure]
    refine ⟨iff_of_true rfl ⟨l2, hanswer, hfits, trivial⟩, fun _ => ⟨l2, hready.withR12 _, hfits.1, hlt,
      ⟨s, Function.update_self _ _ _, hfields⟩, ?_⟩⟩
    exact congrArg Vmx.Cpu.current hcpu
  · rw [wp_pure]
    exact ⟨iff_of_false (by simp) hno, by simp⟩

/-- **Restoring** what was saved. -/
theorem nestedRestoreL2State_spec {n₂ : NestedMachine} {l2 : Addr} (h : L2Saved w c u l2 n n₂) :
    wp (nestedRestoreL2State (some c)) (fun r n₃ => r = .ok ∧
      (∀ x, n.machine.vmx.cpu.current = some x → ∀ f ∈ l2SavedFields,
        n₃.machine.vmx.cpu.contents x f = n.machine.vmx.cpu.contents x f) ∧
      n₃.host.vcpus c = some (u.withR12 0)) n₂ := by
  obtain ⟨v, hv, hnested⟩ := h.ready.nested
  obtain ⟨s, hs, hfields⟩ := h.state
  simp only [nestedRestoreL2State, wp_bind, wp_onProgram, wp_getHv, NestedMachine.setHost_self,
    wp_getOwner]
  refine ⟨h.ready.initialized, _, h.ready.vcpu, v, hv, ?_⟩
  rw [if_pos ⟨h.ready.vendor, hnested⟩, wp_bind, wp_onProgram, wp_getVcpu]
  refine ⟨_, h.ready.vcpu, ?_⟩
  have hl2 : (UInt64.ofNat l2).toNat = l2 := UInt64.toNat_ofNat_of_lt' h.lt
  have hne : UInt64.ofNat l2 ≠ 0 := fun hz => h.ne_zero (by rw [← hl2, hz, UInt64.toNat_zero])
  rw [NestedMachine.setHost_self, Nexusvcpu.withR12_r12, if_neg hne, wp_bind, wp_fetch, hl2]
  refine ⟨s, hs, ?_⟩
  rw [wp_bind, wp_onMachine]
  refine wp_mono (writeFields_contents hfields _) ?_
  rintro _ m ⟨hhost, hcontents⟩
  rw [wp_bind, wp_onProgram, wp_freeBuffer_some, wp_bind, wp_modify, wp_bind, wp_setR12]
  refine ⟨u.withR12 (UInt64.ofNat l2), ?_, ?_⟩
  · change m.host.vcpus c = _
    rw [hhost]
    exact h.ready.vcpu
  rw [wp_pure]
  refine ⟨rfl, fun x hx f hf => ?_, Function.update_self _ _ _⟩
  obtain ⟨p, hp, rfl⟩ := List.mem_map.mp (show f ∈ (l2Fields s.guestState).map Prod.fst from hf)
  refine (hcontents x (h.current.trans hx) p hp).trans ?_
  rw [readField, hx]

theorem L2Saved.of_host {n₂ : NestedMachine} {l2 : Addr} (h : L2Saved w c u l2 n n₁)
    (hhost : n₂.host = n₁.host) (hl2s : n₂.l2s = n₁.l2s)
    (hcurrent : n₂.machine.vmx.cpu.current = n₁.machine.vmx.cpu.current) : L2Saved w c u l2 n n₂ :=
  ⟨h.ready.of_host hhost, h.ne_zero, h.lt, by rw [hl2s]; exact h.state, hcurrent.trans h.current⟩

/-! ## The round trip -/

/-- After a save that returns `NEXUSVM_OK`, and VMWRITEs to the saved fields, a restore returns
`NEXUSVM_OK`, and the saved fields and all registers of the vCPU are what they were before the save. -/
def L2RoundTrip (w : VmxWorld) (c : Addr) (n : NestedMachine) : Prop :=
  wp (nestedSaveL2State w (some c)) (fun r n₁ => r = .ok →
    ∀ fields : List (VmcsField × UInt64), (∀ p ∈ fields, p.1 ∈ l2SavedFields) →
      wp (onMachine (writeFields fields)) (fun _ n₂ =>
        wp (nestedRestoreL2State (some c)) (fun r' n₃ => r' = .ok ∧
          (∀ x, n.machine.vmx.cpu.current = some x → ∀ f ∈ l2SavedFields,
            n₃.machine.vmx.cpu.contents x f = n.machine.vmx.cpu.contents x f) ∧
          (n₃.host.vcpus c).map Nexusvcpu.cpuState = (n.host.vcpus c).map Nexusvcpu.cpuState) n₂) n₁) n

theorem withR12_zero_iff (u : Nexusvcpu) :
    (u.withR12 0).cpuState = u.cpuState ↔ u.cpuState.gprs.r12 = 0 := by
  constructor
  · intro he
    rw [← he, Nexusvcpu.withR12_r12]
  · intro hz
    rw [← hz, Nexusvcpu.withR12_self]

/-- R12 is lost. -/
theorem not_l2RoundTrip (h : L2Ready c u n) (hr12 : u.cpuState.gprs.r12 ≠ 0)
    (hserves : n.host.mem.heap.Serves .l2State 16 (1 * sizeofL2State) 1) : ¬ L2RoundTrip w c n := by
  intro htrip
  obtain ⟨r, n₁, -, ⟨hserved, hsaved⟩, htrip⟩ := wp_and (nestedSaveL2State_spec h) htrip
  have hok := hserved.mpr hserves
  obtain ⟨l2, hl2⟩ := hsaved hok
  -- the restore comes at once
  have hrestore := htrip hok [] (by simp)
  rw [wp_onMachine, writeFields, forEach, wp_pure] at hrestore
  obtain ⟨r', n₃, -, ⟨-, -, hvcpu⟩, -, -, hstate⟩ := wp_and
    (nestedRestoreL2State_spec (hl2.of_host rfl rfl rfl)) hrestore
  rw [hvcpu, h.vcpu] at hstate
  exact hr12 ((withR12_zero_iff u).mp (Option.some.inj hstate))

/-- **When a restore gives all back.** For every vCPU with nested VMX, all contents of the VMCSs and every
state of the vCPU. -/
theorem l2_round_trip_iff (h : L2Ready c u n) (w : VmxWorld) : L2RoundTrip w c n ↔
    u.cpuState.gprs.r12 = 0 ∨ ¬ n.host.mem.heap.Serves .l2State 16 (1 * sizeofL2State) 1 := by
  constructor
  · intro htrip
    by_contra hn
    rw [not_or, not_not] at hn
    exact not_l2RoundTrip h hn.1 hn.2 htrip
  · intro hor
    refine wp_mono (nestedSaveL2State_spec h) ?_
    rintro r n₁ ⟨hserved, hsaved⟩ hok fields -
    obtain ⟨l2, hl2⟩ := hsaved hok
    rw [wp_onMachine]
    refine wp_mono (writeFields_current fields _) ?_
    rintro _ m ⟨hhost, hcurrent⟩
    refine wp_mono (nestedRestoreL2State_spec (hl2.of_host hhost rfl hcurrent)) ?_
    rintro r' n₃ ⟨hok', hcontents, hvcpu⟩
    refine ⟨hok', hcontents, ?_⟩
    have hzero := hor.resolve_right (not_not.mpr (hserved.mp hok))
    rw [hvcpu, h.vcpu]
    exact congrArg some ((withR12_zero_iff u).mpr hzero)

/-- The state with a VMCS that is current, and the same in all its fields. -/
def NestedMachine.withVmcs (n : NestedMachine) (x : ℕ) (value : UInt64) : NestedMachine :=
  n.setMachine (n.machine.setVmx ⟨⟨some x, fun _ => false, fun _ _ => value⟩, []⟩)

theorem l2_round_trip_iff_fresh : ∃ n,
    (nestedVmxEnable (some 2)).run (nestedStart .intel) = some (.ok, n) ∧
      (L2RoundTrip bareWorld 2 (n.withVmcs 8192 7) ↔ (0 : UInt64) = 0 ∨
        ¬ (n.withVmcs 8192 7).host.mem.heap.Serves .l2State 16 (1 * sizeofL2State) 1) := by
  have henable : (nestedVmxEnable (some 2)).run (nestedStart .intel) = some (.ok, _) := rfl
  exact ⟨_, henable, l2_round_trip_iff (u := { vm := 1 })
    ⟨rfl, rfl, rfl, ⟨_, rfl, rfl⟩, by decide⟩ bareWorld⟩

/-- **R12 is lost.** The guest had 5 in it. -/
theorem r12_lost : ∃ n n',
    (nestedVmxEnable (some 2)).run (nestedStart .intel) = some (.ok, n) ∧
      (onProgram (vcpuSetState (some 2) { gprs := { r12 := 5 } })).run n = some (.ok, n') ∧
      ¬ L2RoundTrip bareWorld 2 (n'.withVmcs 8192 7) := by
  have henable : (nestedVmxEnable (some 2)).run (nestedStart .intel) = some (.ok, _) := rfl
  refine ⟨_, _, henable, rfl, ?_⟩
  exact not_l2RoundTrip (u := { vm := 1, cpuState := { gprs := { r12 := 5 } } })
    ⟨rfl, rfl, rfl, ⟨_, rfl, rfl⟩, by decide⟩ (by decide) (by decide +kernel)

end NexusVM
