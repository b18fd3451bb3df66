import NexusVM.Lib.Bits
import NexusVM.VmxLaunch

/-!
# The words of a setup

What `vmx_vcpu_setup` of `vmx/vmx.c` writes into the control fields and the EPT pointer of a VMCS, as the
processor reads it.

* `setupVmcs_issues`: the instructions of a setup, in order;
* `Control`, `mustBeOne`, `mayBeOne`, `Respects`: the control fields, and what their capabilities ask for;
* `Detected`, `Control.word`, `ones_toUInt64`: the words, as sets of bits;
* **`controls_respect_iff`**: for which processors all words are valid;
* `vmxSetEptp`, `decodeEptp`, **`eptp_never_faithful`**: no EPT pointer is read as it was meant.
-/

namespace NexusVM

open Prog Bits

variable {w : VmxWorld} {c region : Addr} {m : Machine} {h : Host} {u : Nexusvcpu} {v : Nexusvm}
variable {l : List (Vmx.Instr VmcsField)} {hv : Hypervisor} {p : Processor}

/-! ## The instructions of a setup -/

/-- The instructions so far. -/
def Issued (l : List (Vmx.Instr VmcsField)) (t : Vmx.Traced VmcsField) : Prop := t.instrs = l

/-- The VMWRITEs of fields. -/
def writes (fields : List (VmcsField × UInt64)) : List (Vmx.Instr VmcsField) :=
  fields.map fun q => .vmwrite q.1 q.2

/-- The EPT pointer, where it is written. -/
def eptFields (hv : Hypervisor) (v : Nexusvm) : List (VmcsField × UInt64) :=
  if hv.hasEpt = true ∧ v.eptPointer.isSome = true then [(.eptPointer, eptpValue v.eptp)] else []

/-- All fields that a setup writes. -/
def setupFields (w : VmxWorld) (hv : Hypervisor) (u : Nexusvcpu) (v : Nexusvm) :
    List (VmcsField × UInt64) :=
  controlFields hv u ++ eptFields hv v ++ stateFields w.hostRegs u.cpuState

theorem leads_issued (l : List (Vmx.Instr VmcsField)) (i : Vmx.Instr VmcsField) :
    Leads (Issued l) i (Issued (l ++ [i])) := by
  rintro t rfl
  exact Vmx.issue_instrs i t

theorem vmxVmwrite_issues {f : VmcsField} {value : UInt64} (hm : At h (Issued l) m) :
    wp (vmxVmwrite f value) (fun _ => At h (Issued (l ++ [.vmwrite f value]))) m := by
  rw [vmxVmwrite, wp_discard]
  exact instr_spec (leads_issued l _) hm

theorem writeFields_issues (fields : List (VmcsField × UInt64)) (hm : At h (Issued l) m) :
    wp (writeFields fields) (fun _ => At h (Issued (l ++ writes fields))) m := by
  induction fields generalizing l m with
  | nil =>
    rw [writeFields, forEach, wp_pure, writes, List.map_nil, List.append_nil]
    exact hm
  | cons q fields ih =>
    rw [writeFields, forEach, wp_bind]
    refine wp_mono (vmxVmwrite_issues hm) fun _ m₁ hm₁ => ?_
    refine wp_mono (ih hm₁) fun _ m₂ hm₂ => ?_
    rw [List.append_assoc] at hm₂
    exact hm₂

theorem writeEptp_issues (hvm : h.vms u.vm = some v) (hm : At h (Issued l) m) :
    wp (Prog.when hv.hasEpt do
      let v ← onHost (getVm u.vm)
      Prog.when v.eptPointer.isSome (vmxVmwrite .eptPointer (eptpValue v.eptp)))
      (fun _ => At h (Issued (l ++ writes (eptFields hv v)))) m := by
  have hnone : eptFields hv v = [] → At h (Issued (l ++ writes (eptFields hv v))) m := by
    intro hnil
    rw [hnil, writes, List.map_nil, List.append_nil]
    exact hm
  rw [wp_when]
  refine ⟨fun hept => ?_, fun hept => hnone (if_neg fun hboth => hept hboth.1)⟩
  rw [wp_bind, wp_onHost, wp_getVm, hm.1]
  refine ⟨v, hvm, ?_⟩
  rw [← hm.1, Machine.setHost_self, wp_when, hm.1]
  refine ⟨fun hsome => ?_, fun hsome => hnone (if_neg fun hboth => hsome hboth.2)⟩
  rw [eptFields, if_pos ⟨hept, hsome⟩]
  exact vmxVmwrite_issues hm

theorem writeVmcs_issues (hvm : h.vms u.vm = some v) (hm : At h (Issued l) m) :
    wp (writeVmcs w hv u) (fun _ => At h (Issued (l ++ writes (setupFields w hv u v)))) m := by
  rw [writeVmcs, wp_bind]
  refine wp_mono (writeFields_issues _ hm) fun _ m₁ hm₁ => ?_
  rw [wp_bind]
  refine wp_mono (writeEptp_issues hvm hm₁) fun _ m₂ hm₂ => ?_
  refine wp_mono (writeFields_issues _ hm₂) fun _ m₃ hm₃ => ?_
  rw [setupFields, writes, List.map_append, List.map_append, ← List.append_assoc, ← List.append_assoc]
  exact hm₃

/-- A vCPU whose regions have been allocated. -/
structure Prepared (h : Host) (c region : Addr) (u : Nexusvcpu) : Prop extends HasVcpu h c u where
  initialized : h.gInitialized = true
  vmxon : u.vmxOnRegion.isSome
  vmcs : u.vmxVmcsRegion = some region

/-- **A setup** issues these instructions, whatever the processor makes of them. -/
theorem setupVmcs_issues (hs : Prepared m.host c region u) (hvm : m.host.vms u.vm = some v) :
    wp (setupVmcs w c) (fun r m' => r = .ok ∧ m'.vmx.instrs = m.vmx.instrs ++
      ([.vmxon (w.enters m.host.setups), .vmclear region] ++ writes (setupFields w m.host.hv u v) ++
        [.vmclear region])) m := by
  have hself : (m.host.setUp c u).vcpus c = some { u with vcpuId := m.host.vmxOnResult } :=
    Function.update_self _ _ _
  have hregions : ¬ (u.vmxOnRegion.isNone || u.vmxVmcsRegion.isNone) = true := by
    rw [hs.vmcs, Option.isNone_some, Bool.or_false, Option.isNone_eq_false_iff.mpr hs.vmxon]
    exact Bool.false_ne_true
  rw [setupVmcs, wp_bind, wp_onHost, wp_getVcpu, Machine.setHost_self]
  refine ⟨u, hs.vcpu, ?_⟩
  rw [if_neg hregions, wp_bind, wp_onHost, wp_getHv, Machine.setHost_self]
  refine ⟨hs.initialized, ?_⟩
  rw [wp_bind]
  refine wp_mono (vmxOn_spec hs.vcpu hs.vmxon (leads_issued m.vmx.instrs _ m.vmx rfl)) fun _ m₁ hm₁ => ?_
  rw [wp_bind]
  refine wp_mono (vmxVmcsClear_spec hself hs.vmcs (leads_issued _ _) hm₁) fun _ m₂ hm₂ => ?_
  rw [wp_bind]
  refine wp_mono (writeVmcs_issues (h := m.host.setUp c u) hvm hm₂) fun _ m₃ hm₃ => ?_
  rw [wp_bind]
  refine wp_mono (vmxVmcsClear_spec hself hs.vmcs (leads_issued _ _) hm₃) fun _ m₄ hm₄ => ?_
  rw [wp_pure]
  refine ⟨rfl, hm₄.2.trans ?_⟩
  simp only [List.append_assoc, List.cons_append, List.nil_append]

/-! ## Capabilities -/

/-- The fields that control a guest. -/
inductive Control
  | pinBased
  | primary
  | secondary
  | exit
  | entry
deriving DecidableEq

/-- The field of the VMCS. -/
def Control.field : Control → VmcsField
  | .pinBased => .pinBasedVmExecutionControls
  | .primary => .primaryProcBasedVmExecControls
  | .secondary => .secondaryProcBasedVmExecControls
  | .exit => .vmExitControls
  | .entry => .vmEntryControls

/-- The MSR with the capabilities. -/
def Control.msr : Control → UInt32
  | .pinBased => 0x481
  | .primary => 0x482
  | .secondary => 0x48B
  | .exit => 0x483
  | .entry => 0x484

/-- What is written. -/
def Control.word (hv : Hypervisor) : Control → UInt32
  | .pinBased => pinControls hv
  | .primary => procControls
  | .secondary => proc2Controls hv
  | .exit => exitControls hv
  | .entry => entryControls

/-- What is written in any case. -/
def Control.demanded : Control → UInt32
  | .pinBased => VMX_PIN_BASED_CTLS_EXT_INT_EXIT ||| VMX_PIN_BASED_CTLS_NMI_EXIT
  | .primary => procControls
  | .secondary => VMX_PROC_BASED_CTLS2_UNRESTRICTED_GUEST
  | .exit => VMX_EXIT_CTLS_SAVE_DEBUG ||| VMX_EXIT_CTLS_ACK_INTERRUPT |||
      VMX_EXIT_CTLS_HOST_ADDRESS_SPACE_SIZE
  | .entry => entryControls

/-- What is written where a capability is looked at and found. -/
def Control.optional : Control → UInt32
  | .pinBased => VMX_PIN_BASED_CTLS_VIRTUAL_NMI
  | .primary => 0
  | .secondary => VMX_PROC_BASED_CTLS2_EPT ||| VMX_PROC_BASED_CTLS2_VPID
  | .exit => VMX_EXIT_CTLS_SAVE_PAT ||| VMX_EXIT_CTLS_LOAD_PAT ||| VMX_EXIT_CTLS_SAVE_EFER |||
      VMX_EXIT_CTLS_LOAD_EFER
  | .entry => 0

/-- The controls of a word. -/
def controlBits (x : UInt32) : Set ℕ := ones x.toNat

/-- The bits that must be 1, in the lower half of a capability MSR. -/
def mustBeOne (cap : UInt64) : Set ℕ := ones (cap.toNat % 2 ^ 32)

/-- The bits that may be 1, in its upper half. -/
def mayBeOne (cap : UInt64) : Set ℕ := ones (cap.toNat / 2 ^ 32)

/-- What the processor asks of a control field. -/
def Respects (cap value : UInt64) : Prop :=
  mustBeOne cap ⊆ ones value.toNat ∧ ones value.toNat ⊆ mayBeOne cap

/-- The processor may be asked for all that must be 1, and for what a setup demands in any case. -/
structure Capable (p : Processor) : Prop where
  consistent : ∀ k : Control, mustBeOne (p.rdmsr k.msr) ⊆ mayBeOne (p.rdmsr k.msr)
  demanded : ∀ k : Control, controlBits k.demanded ⊆ mayBeOne (p.rdmsr k.msr)

/-- What must be 1 is something a setup asks for. -/
structure Covered (p : Processor) : Prop where
  known : ∀ k : Control,
    mustBeOne (p.rdmsr k.msr) ⊆ controlBits k.demanded ∪ controlBits k.optional
  /-- VPIDs are asked for where unrestricted guests must be 1. -/
  vpid : 5 ∈ mustBeOne (p.rdmsr Control.secondary.msr) → 7 ∈ mustBeOne (p.rdmsr Control.secondary.msr)
  unrestricted : 7 ∈ mustBeOne (p.rdmsr Control.secondary.msr) →
    5 ∈ mayBeOne (p.rdmsr Control.secondary.msr)

/-- What `detect_vmx_features` leaves of the capabilities that a setup looks at. -/
structure Detected (p : Processor) (hv : Hypervisor) : Prop where
  pinBased : hv.vmxCapPinbased = p.rdmsr 0x481
  exit : hv.vmxCapExit = p.rdmsr 0x483
  hasEpt : hv.hasEpt = bit64 (p.rdmsr 0x48B) 1
  hasVpid : hv.hasVpid = bit64 (p.rdmsr 0x48B) 7

theorem detected_detectVmxFeatures (hvmx : bit32 (p.cpuid 1).ecx 5 = true) :
    Detected p (detectVmxFeatures p hv) := by
  simp only [detectVmxFeatures, hvmx, Bool.not_true, Bool.false_eq_true, if_false]
  exact ⟨rfl, rfl, rfl, rfl⟩

/-! ## The words -/

theorem controlBits_or (x y : UInt32) : controlBits (x ||| y) = controlBits x ∪ controlBits y := by
  rw [controlBits, UInt32.toNat_or, ones_or]
  rfl

theorem controlBits_zero : controlBits 0 = ∅ := ones_zero

theorem controlBits_bit {n : UInt32} (hn : n.toNat < 32) : controlBits (bit n) = {n.toNat} := by
  have hlt : 2 ^ n.toNat < 2 ^ 32 := Nat.pow_lt_pow_right (by decide) hn
  rw [controlBits, bit, UInt32.toNat_shiftLeft, Nat.mod_eq_of_lt hn, UInt32.toNat_one, Nat.one_shiftLeft,
    Nat.mod_eq_of_lt hlt, ones_two_pow]

theorem mem_mustBeOne {cap : UInt64} {i : ℕ} : i ∈ mustBeOne cap ↔ i < 32 ∧ i ∈ ones cap.toNat := by
  rw [mustBeOne, mem_ones, Nat.testBit_mod_two_pow, Bool.and_eq_true, decide_eq_true_eq]
  rfl

theorem bit64_iff {cap n : UInt64} (hn : n.toNat < 32) :
    bit64 cap n = true ↔ n.toNat ∈ mustBeOne cap := by
  have hbit : (cap >>> n) &&& 1 = 1 ↔ (cap.toNat >>> n.toNat) &&& 1 = 1 := by
    rw [← UInt64.toNat_inj, UInt64.toNat_and, UInt64.toNat_shiftRight, UInt64.toNat_one,
      Nat.mod_eq_of_lt (by omega)]
  rw [bit64, decide_eq_true_eq, hbit, shift_and_one_iff, mem_mustBeOne, and_iff_right hn]

theorem controlBits_controlIf {cap n : UInt64} {k : UInt32} (hn : n.toNat < 32)
    (hk : k.toNat = n.toNat) : controlBits (controlIf (bit64 cap n) (bit k)) =
      mustBeOne cap ∩ controlBits (bit k) := by
  rw [controlBits_bit (by omega), hk]
  by_cases hbit : bit64 cap n = true
  · rw [controlIf, if_pos hbit, controlBits_bit (by omega), hk,
      Set.inter_eq_right.mpr (Set.singleton_subset_iff.mpr ((bit64_iff hn).mp hbit))]
  · rw [controlIf, if_neg hbit, controlBits_zero, Set.inter_singleton_eq_empty.mpr fun hmem =>
      hbit ((bit64_iff hn).mpr hmem)]

theorem controlBits_pinControls (hp : Detected p hv) : controlBits (pinControls hv) =
    controlBits Control.pinBased.demanded ∪
      (mustBeOne (p.rdmsr 0x481) ∩ controlBits Control.pinBased.optional) := by
  have hopt : controlBits Control.pinBased.optional = {5} := controlBits_bit (by decide)
  have htest : hv.vmxCapPinbased &&& VMX_PIN_BASED_CTLS_VIRTUAL_NMI.toUInt64 ≠ 0 ↔
      5 ∈ mustBeOne (p.rdmsr 0x481) := by
    rw [hp.pinBased, Ne, ← UInt64.toNat_inj, UInt64.toNat_and,
      show VMX_PIN_BASED_CTLS_VIRTUAL_NMI.toUInt64.toNat = 2 ^ 5 from rfl, mem_mustBeOne,
      and_iff_right (by decide : 5 < 32)]
    exact and_two_pow_ne_zero_iff
  rw [pinControls, hopt]
  by_cases h5 : 5 ∈ mustBeOne (p.rdmsr 0x481)
  · rw [if_pos (htest.mpr h5), controlBits_or, Set.inter_eq_right.mpr (Set.singleton_subset_iff.mpr h5)]
    exact congrArg _ hopt
  · rw [if_neg fun hne => h5 (htest.mp hne), Set.inter_singleton_eq_empty.mpr h5, Set.union_empty]
    rfl

theorem controlBits_exitControls (hp : Detected p hv) : controlBits (exitControls hv) =
    controlBits Control.exit.demanded ∪
      (mustBeOne (p.rdmsr 0x483) ∩ controlBits Control.exit.optional) := by
  have hif : ∀ (n : UInt64) (k : UInt32), n.toNat < 32 → k.toNat = n.toNat →
      controlBits (controlIf (bit64 (p.rdmsr 0x483) n) (bit k)) =
        mustBeOne (p.rdmsr 0x483) ∩ controlBits (bit k) := fun _ _ => controlBits_controlIf
  have h18 := hif 18 18 (by decide) rfl
  have h19 := hif 19 19 (by decide) rfl
  have h20 := hif 20 20 (by decide) rfl
  have h21 := hif 21 21 (by decide) rfl
  rw [exitControls, hp.exit, VMX_EXIT_CTLS_SAVE_PAT, VMX_EXIT_CTLS_LOAD_PAT, VMX_EXIT_CTLS_SAVE_EFER,
    VMX_EXIT_CTLS_LOAD_EFER, controlBits_or _ (controlIf _ _), controlBits_or _ (controlIf _ _),
    controlBits_or _ (controlIf _ _), controlBits_or _ (controlIf _ _), h18, h19, h20, h21]
  simp only [Control.demanded, Control.optional, VMX_EXIT_CTLS_SAVE_PAT, VMX_EXIT_CTLS_LOAD_PAT,
    VMX_EXIT_CTLS_SAVE_EFER, VMX_EXIT_CTLS_LOAD_EFER, controlBits_or, Set.inter_union_distrib_left,
    ← Set.union_assoc]

/-- **The words but one** are what is demanded, with all that must be 1 of what is optional. -/
theorem controlBits_word (hp : Detected p hv) {k : Control} (hk : k ≠ .secondary) :
    controlBits (k.word hv) =
      controlBits k.demanded ∪ (mustBeOne (p.rdmsr k.msr) ∩ controlBits k.optional) := by
  have hconst : ∀ x : UInt32, ∀ s, controlBits x = controlBits x ∪ (s ∩ controlBits 0) := fun x s => by
    rw [controlBits_zero, Set.inter_empty, Set.union_empty]
  cases k with
  | pinBased => exact controlBits_pinControls hp
  | primary => exact hconst _ _
  | secondary => exact absurd rfl hk
  | exit => exact controlBits_exitControls hp
  | entry => exact hconst _ _

theorem mem_proc2Controls (hp : Detected p hv) {i : ℕ} : i ∈ controlBits (proc2Controls hv) ↔
    i = 7 ∨ i = 1 ∧ 1 ∈ mustBeOne (p.rdmsr 0x48B) ∨ i = 5 ∧ 7 ∈ mustBeOne (p.rdmsr 0x48B) := by
  have h1 : controlBits VMX_PROC_BASED_CTLS2_EPT = {1} := controlBits_bit (by decide)
  have h5 : controlBits VMX_PROC_BASED_CTLS2_VPID = {5} := controlBits_bit (by decide)
  have h7 : controlBits VMX_PROC_BASED_CTLS2_UNRESTRICTED_GUEST = {7} := controlBits_bit (by decide)
  have hif : ∀ (b : Bool) (x : UInt32), i ∈ controlBits (controlIf b x) ↔ b = true ∧ i ∈ controlBits x := by
    intro b x
    cases b <;> simp [controlIf, controlBits_zero]
  rw [proc2Controls, controlBits_or, controlBits_or, Set.mem_union, Set.mem_union, hif, hif, h1, h5, h7,
    hp.hasEpt, hp.hasVpid, bit64_iff (n := 1) (by decide), bit64_iff (n := 7) (by decide)]
  simp only [Set.mem_singleton_iff]
  rw [or_comm, and_comm, and_comm (b := i = 5)]
  rfl

theorem ones_toUInt64 (x : UInt32) : ones x.toUInt64.toNat = controlBits x := by
  rw [UInt32.toNat_toUInt64, controlBits]

theorem respects_secondary_iff (hp : Detected p hv) (hc : Capable p) :
    Respects (p.rdmsr Control.secondary.msr) (Control.secondary.word hv).toUInt64 ↔
      mustBeOne (p.rdmsr Control.secondary.msr) ⊆
        controlBits Control.secondary.demanded ∪ controlBits Control.secondary.optional ∧
      (5 ∈ mustBeOne (p.rdmsr Control.secondary.msr) → 7 ∈ mustBeOne (p.rdmsr Control.secondary.msr)) ∧
      (7 ∈ mustBeOne (p.rdmsr Control.secondary.msr) → 5 ∈ mayBeOne (p.rdmsr Control.secondary.msr)) := by
  have hdemanded : controlBits Control.secondary.demanded = {7} := controlBits_bit (by decide)
  have hoptional : controlBits Control.secondary.optional = {1} ∪ {5} := by
    rw [Control.optional, controlBits_or]
    exact congrArg₂ _ (controlBits_bit (by decide)) (controlBits_bit (by decide))
  have hseven : 7 ∈ mayBeOne (p.rdmsr Control.secondary.msr) :=
    hc.demanded .secondary (hdemanded ▸ rfl)
  have hword := fun i => mem_proc2Controls hp (i := i)
  rw [Respects, ones_toUInt64, hdemanded, hoptional]
  constructor
  · rintro ⟨hmust, hmay⟩
    refine ⟨fun i hi => ?_, fun h5 => ?_, fun h7 => hmay ((hword 5).mpr (.inr (.inr ⟨rfl, h7⟩)))⟩
    · obtain rfl | ⟨rfl, -⟩ | ⟨rfl, -⟩ := (hword i).mp (hmust hi)
      · exact .inl rfl
      · exact .inr (.inl rfl)
      · exact .inr (.inr rfl)
    · obtain h | ⟨h, -⟩ | ⟨-, h7⟩ := (hword 5).mp (hmust h5)
      · cases h
      · cases h
      · exact h7
  · rintro ⟨hknown, hvpid, hunrestricted⟩
    constructor
    · intro i hi
      obtain rfl | rfl | rfl := hknown hi
      · exact (hword 7).mpr (.inl rfl)
      · exact (hword 1).mpr (.inr (.inl ⟨rfl, hi⟩))
      · exact (hword 5).mpr (.inr (.inr ⟨rfl, hvpid hi⟩))
    · intro i hi
      obtain rfl | ⟨rfl, h1⟩ | ⟨rfl, h7⟩ := (hword i).mp hi
      · exact hseven
      · exact hc.consistent .secondary h1
      · exact hunrestricted h7

/-- **All words are valid** if and only if what must be 1 is asked for. -/
theorem forall_respects_iff (hp : Detected p hv) (hc : Capable p) :
    (∀ k : Control, Respects (p.rdmsr k.msr) (k.word hv).toUInt64) ↔ Covered p := by
  have hother : ∀ k : Control, k ≠ .secondary → (Respects (p.rdmsr k.msr) (k.word hv).toUInt64 ↔
      mustBeOne (p.rdmsr k.msr) ⊆ controlBits k.demanded ∪ controlBits k.optional) := by
    intro k hk
    rw [Respects, ones_toUInt64, controlBits_word hp hk]
    exact sup_inf_mem_Icc_iff (hc.consistent k) (hc.demanded k)
  have hsecondary := respects_secondary_iff hp hc
  constructor
  · intro h
    obtain ⟨hknown, hvpid, hunrestricted⟩ := hsecondary.mp (h .secondary)
    refine ⟨fun k => ?_, hvpid, hunrestricted⟩
    by_cases hk : k = .secondary
    · subst hk
      exact hknown
    · exact (hother k hk).mp (h k)
  · rintro ⟨hknown, hvpid, hunrestricted⟩ k
    by_cases hk : k = .secondary
    · subst hk
      exact hsecondary.mpr ⟨hknown .secondary, hvpid, hunrestricted⟩
    · exact (hother k hk).mpr (hknown k)

/-- The control words that the instructions of a setup write are valid. -/
def ControlsValid (p : Processor) (w : VmxWorld) (c : Addr) (m : Machine) : Prop :=
  wp (setupVmcs w c) (fun _ m' => ∃ l, m'.vmx.instrs = m.vmx.instrs ++ l ∧
    ∀ k : Control, ∀ value, .vmwrite k.field value ∈ l → Respects (p.rdmsr k.msr) value) m

theorem vmwrite_mem_iff {k : Control} {value : UInt64} {enters : Bool} :
    .vmwrite k.field value ∈ [.vmxon enters, .vmclear region] ++ writes (setupFields w hv u v) ++
      [.vmclear region] ↔ value = (k.word hv).toUInt64 := by
  have hept : ∀ f : VmcsField, f ≠ .eptPointer → (f, value) ∉ eptFields hv v := by
    intro f hf hmem
    unfold eptFields at hmem
    split_ifs at hmem
    · exact hf (congrArg Prod.fst (List.mem_singleton.mp hmem))
    · cases hmem
  have hfield : .vmwrite k.field value ∈ [.vmxon enters, .vmclear region] ++
      writes (setupFields w hv u v) ++ [.vmclear region] ↔ (k.field, value) ∈ setupFields w hv u v := by
    simp [writes]
  rw [hfield, setupFields, List.mem_append, List.mem_append]
  cases k <;> simp [Control.field, Control.word, controlFields, stateFields, hept]

theorem controlsValid_iff (hs : Prepared m.host c region u) : ControlsValid p w c m ↔
    ∀ k : Control, Respects (p.rdmsr k.msr) (k.word m.host.hv).toUInt64 := by
  obtain ⟨v, hvm⟩ := Option.ne_none_iff_exists'.mp hs.vm
  obtain ⟨r, m', hrun, -, hissued⟩ := setupVmcs_issues (w := w) hs hvm
  constructor
  · intro h k
    obtain ⟨l, hl, hvalid⟩ := wp_run h hrun
    rw [hissued] at hl
    obtain rfl := List.append_cancel_left hl
    exact hvalid k _ (vmwrite_mem_iff.mpr rfl)
  · intro h
    refine wp_of_run hrun ⟨_, hissued, fun k value hmem => ?_⟩
    rw [vmwrite_mem_iff.mp hmem]
    exact h k

/-- **Which processors accept the controls of a setup.** Where all that a setup demands is permitted, it
writes valid control words if and only if what must be 1 is something it asks for. -/
theorem controls_respect_iff (hs : Prepared m.host c region u) (hp : Detected p m.host.hv)
    (hc : Capable p) : ControlsValid p w c m ↔ Covered p :=
  (controlsValid_iff hs).trans (forall_respects_iff hp hc)

/-! ## Two processors -/

/-- A processor with these capabilities. -/
def capableProcessor (cap : Control → UInt64) : Processor where
  cpuid _ := { ecx := 0x20 }
  rdmsr i :=
    if i = 0x481 then cap .pinBased
    else if i = 0x482 then cap .primary
    else if i = 0x48B then cap .secondary
    else if i = 0x483 then cap .exit
    else if i = 0x484 then cap .entry
    else 0

/-- A vCPU on it, before its setup. -/
def preparedMachine (p : Processor) : Machine :=
  bareMachine (({ bootHost 1 .intel with hv := detectVmxFeatures p {} }.setVcpu 16384 (some {
    vm := 8192, vmxOnRegion := some 20480, vmxVmcsRegion := some 12288 })).setVm 8192 (some {
      vcpus := [16384], vcpuCount := 1 }))

/-- Its record. -/
def preparedVcpu : Nexusvcpu where
  vm := 8192
  vmxOnRegion := some 20480
  vmxVmcsRegion := some 12288

theorem prepared_preparedMachine (p : Processor) :
    Prepared (preparedMachine p).host 16384 12288 preparedVcpu where
  vcpu := rfl
  vm := by simp [preparedMachine, bareMachine, preparedVcpu, Host.setVm]
  initialized := rfl
  vmxon := rfl
  vmcs := rfl

theorem capable_of_and (hconsistent : ∀ k : Control, (p.rdmsr k.msr).toNat % 2 ^ 32 &&&
      (p.rdmsr k.msr).toNat / 2 ^ 32 = (p.rdmsr k.msr).toNat % 2 ^ 32)
    (hdemanded : ∀ k : Control, k.demanded.toNat &&& (p.rdmsr k.msr).toNat / 2 ^ 32 =
      k.demanded.toNat) : Capable p :=
  ⟨fun k => ones_subset_iff.mpr (hconsistent k), fun k => ones_subset_iff.mpr (hdemanded k)⟩

/-- A processor that permits all controls and requires none. -/
def lenientProcessor : Processor := capableProcessor fun _ => 0xFFFFFFFF00000000

theorem controls_respect_iff_lenient :
    ControlsValid lenientProcessor bareWorld 16384 (preparedMachine lenientProcessor) := by
  have hnone : ∀ k : Control, mustBeOne (lenientProcessor.rdmsr k.msr) = ∅ := by
    intro k
    rw [show lenientProcessor.rdmsr k.msr = 0xFFFFFFFF00000000 by cases k <;> rfl]
    exact ones_zero
  refine (controls_respect_iff (prepared_preparedMachine lenientProcessor)
    (detected_detectVmxFeatures (by decide)) (capable_of_and ?_ ?_)).mpr ⟨fun k => ?_, ?_, ?_⟩
  · rintro ⟨⟩ <;> decide
  · rintro ⟨⟩ <;> decide
  · rw [hnone k]
    exact Set.empty_subset _
  · rw [hnone]
    exact fun h => h.elim
  · rw [hnone]
    exact fun h => h.elim

/-- A processor that requires the controls that processors without newer ones always have. -/
def ordinaryProcessor : Processor := capableProcessor fun
  | .pinBased => 0x0000007F00000016
  | .primary => 0xFFF9FFFE0401E172
  | .secondary => 0x00577CFF00000000
  | .exit => 0x01FFFFFF00036DFF
  | .entry => 0x0000FFFF000011FF

/-- **Bits that must be 1 are not asked for**, on an ordinary processor. -/
theorem ordinary_controls_invalid :
    Prepared (preparedMachine ordinaryProcessor).host 16384 12288 preparedVcpu ∧
    Detected ordinaryProcessor (preparedMachine ordinaryProcessor).host.hv ∧ Capable ordinaryProcessor ∧
    pinControls (preparedMachine ordinaryProcessor).host.hv = 0x9 ∧
    ¬ ControlsValid ordinaryProcessor bareWorld 16384 (preparedMachine ordinaryProcessor) := by
  refine ⟨prepared_preparedMachine _, detected_detectVmxFeatures (by decide), capable_of_and ?_ ?_,
    by decide, fun h => ?_⟩
  · rintro ⟨⟩ <;> decide
  · rintro ⟨⟩ <;> decide
  · -- bit 1 of the pin-based controls
    have hmust := ((controlsValid_iff (prepared_preparedMachine _)).mp h .pinBased).1
    exact absurd (ones_subset_iff.mp hmust) (by decide)

/-! ## The EPT pointer -/

/-- `vmx_set_eptp` -/
def vmxSetEptp (e : Eptp) : VmxM Unit := vmxVmwrite .eptPointer (eptpValue e)

/-- The fields of an EPT pointer where the processor has them. -/
def decodeEptp (word : UInt64) : Eptp where
  memoryType := word.toBitVec.extractLsb' 0 3
  pageWalkLength := word.toBitVec.extractLsb' 3 3
  enableAccessedDirty := word.toBitVec.getLsbD 6
  pml4PhysicalAddress := word.toBitVec.extractLsb' 12 40

/-- The part of the word that does not come from the address. -/
def eptpFlags (memoryType pageWalkLength : BitVec 3) (accessedDirty : Bool) : UInt64 :=
  UInt64.ofNat memoryType.toNat <<< 3 ||| (UInt64.ofNat pageWalkLength.toNat - 1) <<< 6 |||
    (if accessedDirty then (1 : UInt64) else 0) <<< 6

theorem eptpValue_toNat (e : Eptp) : (eptpValue e).toNat =
    (eptpFlags e.memoryType e.pageWalkLength e.enableAccessedDirty).toNat |||
      e.pml4PhysicalAddress.toNat := by
  have hlt : e.pml4PhysicalAddress.toNat < 2 ^ 40 := e.pml4PhysicalAddress.isLt
  have haddress : (UInt64.ofNat e.pml4PhysicalAddress.toNat &&& 0xFFFFFFFFFF).toNat =
      e.pml4PhysicalAddress.toNat := by
    rw [UInt64.toNat_and, UInt64.toNat_ofNat_of_lt' (hlt.trans (by decide))]
    exact (Nat.and_two_pow_sub_one_eq_mod _ 40).trans (Nat.mod_eq_of_lt hlt)
  rw [eptpValue, UInt64.toNat_or, haddress]
  rfl

/-- A walk length of zero is decremented: it fills the word. -/
theorem eptpFlags_zero : ∀ memoryType accessedDirty,
    (eptpFlags memoryType 0 accessedDirty).toNat / 2 ^ 6 = 2 ^ 58 - 1 := by decide

theorem eptpFlags_ne_zero : ∀ memoryType pageWalkLength accessedDirty, pageWalkLength ≠ 0 →
    (eptpFlags memoryType pageWalkLength accessedDirty).toNat < 2 ^ 12 ∧
      (eptpFlags memoryType pageWalkLength accessedDirty).toNat % 2 ^ 6 = memoryType.toNat * 8 := by decide

theorem decodeEptp_toNat (word : UInt64) :
    (decodeEptp word).memoryType.toNat = word.toNat % 2 ^ 3 ∧
    (decodeEptp word).pageWalkLength.toNat = word.toNat / 2 ^ 3 % 2 ^ 3 ∧
    (decodeEptp word).pml4PhysicalAddress.toNat = word.toNat / 2 ^ 12 % 2 ^ 40 := by
  simp only [decodeEptp, BitVec.extractLsb'_toNat, UInt64.toNat_toBitVec, Nat.shiftRight_eq_div_pow,
    Nat.pow_zero, Nat.div_one, and_self]

/-- **No EPT pointer is read as it was meant.** -/
theorem decodeEptp_eptpValue_ne (e : Eptp) : decodeEptp (eptpValue e) ≠ e := by
  intro he
  obtain ⟨htype, hlength, haddress⟩ := decodeEptp_toNat (eptpValue e)
  rw [he] at htype hlength haddress
  have hword := eptpValue_toNat e
  have hlt : e.pml4PhysicalAddress.toNat < 2 ^ 40 := e.pml4PhysicalAddress.isLt
  generalize (eptpValue e).toNat = x at htype hlength haddress hword
  generalize e.pml4PhysicalAddress.toNat = address at hlt haddress hword
  -- what the word has from bit 6 on, from bit 12 on, and below bit 6
  have hmiddle := congrArg (· / 2 ^ 6) hword
  have hhigh := congrArg (· / 2 ^ 12) hword
  have hlow := congrArg (· % 2 ^ 6) hword
  simp only [Nat.or_div_two_pow, Nat.or_mod_two_pow] at hmiddle hhigh hlow
  by_cases hzero : e.pageWalkLength = 0
  · -- the address is all ones, and covers the fields below
    have hfull := eptpFlags_zero e.memoryType e.enableAccessedDirty
    rw [hzero] at hlength hmiddle
    rw [hfull] at hmiddle
    rw [full_or (by omega)] at hmiddle
    obtain rfl : address = 2 ^ 40 - 1 := by omega
    rw [Nat.or_comm, show (2 ^ 40 - 1) % 2 ^ 6 = 2 ^ 6 - 1 from rfl,
      full_or (Nat.mod_lt _ (by decide))] at hlow
    have hseven : (0 : BitVec 3).toNat = 7 := by omega
    exact absurd hseven (by decide)
  · obtain ⟨hflags, hmod⟩ := eptpFlags_ne_zero e.memoryType e.pageWalkLength e.enableAccessedDirty hzero
    -- the address is its own quotient, so it is zero
    rw [Nat.div_eq_of_lt hflags, Nat.zero_or] at hhigh
    rw [hhigh, Nat.mod_eq_of_lt (by omega)] at haddress
    obtain rfl : address = 0 := by omega
    rw [hmod, Nat.zero_mod, Nat.or_zero] at hlow
    have hlength0 : e.pageWalkLength.toNat = 0 := by omega
    exact hzero (BitVec.eq_of_toNat_eq hlength0)

/-- **No EPT pointer is faithful**: whatever `vmx_set_eptp` is given, the processor reads something else
in the word that is written. -/
theorem eptp_never_faithful (e : Eptp) (m : Machine) : ¬ wp (vmxSetEptp e) (fun _ m' => ∃ word,
    m'.vmx.instrs = m.vmx.instrs ++ [.vmwrite .eptPointer word] ∧ decodeEptp word = e) m := by
  intro h
  have hm : At m.host (Issued m.vmx.instrs) m := ⟨rfl, rfl⟩
  have hwrite : wp (vmxVmwrite .eptPointer (eptpValue e))
      (fun _ => At m.host (Issued (m.vmx.instrs ++ [.vmwrite .eptPointer (eptpValue e)]))) m :=
    vmxVmwrite_issues hm
  obtain ⟨_, m', hrun, hissued⟩ := hwrite
  obtain ⟨word, hword, he⟩ := wp_run h hrun
  have hsame : [Vmx.Instr.vmwrite VmcsField.eptPointer word] = [.vmwrite .eptPointer (eptpValue e)] :=
    List.append_cancel_left (hword.symm.trans hissued.2)
  simp only [List.cons.injEq, Vmx.Instr.vmwrite.injEq, true_and, and_true] at hsame
  exact decodeEptp_eptpValue_ne e (hsame ▸ he)

/-- **The pointer of `vm_create`** to a root in frame 5 is read as one to frame 0, with another type and
another walk length. -/
theorem eptp_of_vm_create_misread : makeEptp 20480 = ⟨6, 3, true, 5⟩ ∧
    decodeEptp (eptpValue (makeEptp 20480)) = ⟨5, 6, true, 0⟩ ∧
    decodeEptp (eptpValue (makeEptp 20480)) ≠ makeEptp 20480 := by
  refine ⟨?_, ?_, ?_⟩ <;> decide

end NexusVM
