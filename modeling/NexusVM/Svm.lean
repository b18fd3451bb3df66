import NexusVM.Intercepts
import NexusVM.Vmx

/-!
# Emulating instructions on AMD processors

The set-up of a VMCB and the exit handlers of `amd-v/svm.c` that emulate an instruction, beside those
of `vmx/vmx.c`.

* `wordAt`, `putWord`: 64-bit words in host memory;
* `setupVmcb`, `SavedGprs`, `setupVmcb_spec`: where a set-up stores the registers of the guest;
* `svmHandleCpuid`, `svmHandleRdmsr`, `svmHandleWrmsr`, `svmHandleRdtsc`, `svmHandleVmmcall`: the
  handlers, on the slots of the VMCB;
* `Emulated`, `Agrees`: an instruction that both vendors emulate, and when the two do the same;
* **`exit_emulation_iff`**: the exact registers for which they do.
-/

namespace NexusVM

open Prog

/-! ## Words of host memory -/

/-- The bytes of a memory from `a` on. -/
def PhysMem.bytesAt (m : PhysMem) (a size : ℕ) : List UInt8 :=
  (List.range size).map fun k => m.ram (a + k)

/-- The 64-bit word at `a`. -/
def PhysMem.wordAt (m : PhysMem) (a : ℕ) : UInt64 := Codec.u64.decode (m.bytesAt a 8)

/-- Store a 64-bit word at `a`. -/
def PhysMem.putWord (m : PhysMem) (a : ℕ) (value : UInt64) : PhysMem :=
  m.putRam a (Codec.u64.encode value)

def readWord (a : Addr) : HostM UInt64 := do
  let h ← get
  return h.mem.wordAt a

def writeWord (a : Addr) (value : UInt64) : HostM Unit :=
  modify fun h => h.setMem (h.mem.putWord a value)

section Words

variable {m : PhysMem} {a b : ℕ} {value : UInt64} {h : Host}

@[simp] theorem wp_readWord {Q : UInt64 → Host → Prop} :
    wp (readWord a) Q h ↔ Q (h.mem.wordAt a) h := by
  rw [readWord, wp_bind, wp_get, wp_pure]

@[simp] theorem wp_writeWord {Q : Unit → Host → Prop} :
    wp (writeWord a value) Q h ↔ Q () (h.setMem (h.mem.putWord a value)) := wp_modify _

@[simp] theorem PhysMem.wordAt_putWord : (m.putWord a value).wordAt a = value := by
  have hbytes := m.putRam_read a (Codec.u64.encode value)
  rw [Codec.length_encode] at hbytes
  change Codec.u64.decode ((m.putWord a value).bytesAt a 8) = value
  rw [show (m.putWord a value).bytesAt a 8 = Codec.u64.encode value from hbytes,
    Codec.decode_encode_self]

theorem PhysMem.putWord_ram (h : b < a ∨ a + 8 ≤ b) : (m.putWord a value).ram b = m.ram b := by
  have hout : ¬ (a ≤ b ∧ b < a + (Codec.u64.encode value).length) := by
    rw [Codec.length_encode]
    change ¬ (a ≤ b ∧ b < a + 8)
    omega
  exact if_neg hout

theorem PhysMem.wordAt_congr {m' : PhysMem} (h : ∀ k : ℕ, k < 8 → m.ram (a + k) = m'.ram (a + k)) :
    m.wordAt a = m'.wordAt a := by
  refine congrArg Codec.u64.decode (List.map_congr_left fun k hk => h k ?_)
  exact List.mem_range.mp hk

theorem PhysMem.wordAt_putWord_of_apart (h : b + 8 ≤ a ∨ a + 8 ≤ b) :
    (m.putWord a value).wordAt b = m.wordAt b := by
  apply wordAt_congr
  intro k hk
  apply putWord_ram
  omega

end Words

/-! ## The VMCB -/

def VMCB_OFFSET_INTERCEPT : ℕ := 0x00
def VMCB_OFFSET_MSR_MAP : ℕ := 0x20
def VMCB_OFFSET_NESTED_PAGING_ROOT : ℕ := 0x60

/-- The intercepts that `svm_vcpu_setup` enables, in order. -/
def interceptBits : List ℕ :=
  [0x78, 0x7C, 0x7D, 0x00, 0x02, 0x03, 0x04, 0x10, 0x12, 0x13, 0x14, 0x60, 0x61, 0x76, 0x7A, 0x7B, 0x7F,
    0xC0, 0xC1, 0xC2, 0xC3, 0xC4, 0xC5]

/-- The offsets of the general registers. -/
def gprSlots (g : GuestGprs) : List (ℕ × UInt64) :=
  [(0x00, g.rax), (0x08, g.rbx), (0x10, g.rcx), (0x18, g.rdx),
    (0x20, g.rsi), (0x28, g.rdi), (0x30, g.rbp), (0x38, g.rsp)]

/-- The rest of the guest state, in the order in which it is written. -/
def stateSlots (s : CpuState) : List (ℕ × UInt64) :=
  [(0x78, s.gprs.rip), (0x80, s.gprs.rflags),
    (0x88, s.cr.cr0), (0x90, s.cr.cr2), (0x98, s.cr.cr3), (0xA0, s.cr.cr4),
    (0xA8, s.cs.selector.toUInt64), (0xB0, s.ss.selector.toUInt64), (0xB8, s.ds.selector.toUInt64),
    (0xC0, s.es.selector.toUInt64), (0xC8, s.fs.selector.toUInt64), (0xD0, s.gs.selector.toUInt64),
    (0xD8, s.cs.base), (0xE0, s.ss.base), (0xE8, s.ds.base),
    (0xF0, s.es.base), (0xF8, s.fs.base), (0x100, s.gs.base),
    (0x108, s.gdtrLimit), (0x110, s.gdtBase.base), (0x118, s.idtrLimit), (0x120, s.idtBase.base),
    (0x1E0, s.msrs.ia32Efer), (0x1E8, 0xFEE00000)]

/-- Write words of the VMCB, one after the other. -/
def writeSlots (vmcb : Addr) (slots : List (ℕ × UInt64)) : HostM Unit :=
  Prog.forEach (fun p => writeWord (vmcb + p.1) p.2) slots

/-- The intercepts of `svm_vcpu_setup`. -/
def enableIntercepts (vmcb : Addr) : HostM Unit :=
  Prog.forEach (fun bit => changeByte true (vmcb + VMCB_OFFSET_INTERCEPT + bit / 8) (bit % 8))
    interceptBits

/-- The MSR bitmap and the root of the page tables, where they are there. -/
def writeMaps (u : Nexusvcpu) (vmcb : Addr) : HostM Unit := do
  let hv ← getHv
  Prog.when u.msrBitmap.isSome (writeWord (vmcb + VMCB_OFFSET_MSR_MAP) (pointerValue u.msrBitmap))
  Prog.when hv.hasNpt do
    let v ← getVm u.vm
    Prog.when v.eptRoot.isSome
      (writeWord (vmcb + VMCB_OFFSET_NESTED_PAGING_ROOT) (pointerValue v.eptRoot))

/-- `svm_vcpu_setup`, with its stores. -/
def setupVmcb (c : Addr) : HostM Result := do
  let u ← getVcpu c
  match u.vmcb with
  | none => return .errInvalidParam
  | some vmcb =>
    enableIntercepts vmcb
    writeMaps u vmcb
    writeSlots vmcb (gprSlots u.cpuState.gprs ++ stateSlots u.cpuState)
    return .ok

/-- Words of the VMCB hold some values. -/
def SlotsHold (vmcb : ℕ) (slots : List (ℕ × UInt64)) (m : PhysMem) : Prop :=
  ∀ p ∈ slots, m.wordAt (vmcb + p.1) = p.2

/-- The VMCB holds the general registers where `svm_vcpu_setup` stores them. -/
def SavedGprs (vmcb : ℕ) (g : GuestGprs) (m : PhysMem) : Prop := SlotsHold vmcb (gprSlots g) m

section Setup

variable {m : PhysMem} {h : Host} {vmcb : ℕ} {slots : List (ℕ × UInt64)}

/-- Slots that do not overlap. -/
def Apart (slots : List (ℕ × UInt64)) : Prop :=
  slots.Pairwise fun p q => p.1 + 8 ≤ q.1 ∨ q.1 + 8 ≤ p.1

theorem SlotsHold.put (hs : SlotsHold vmcb slots m) {p : ℕ × UInt64}
    (hp : ∀ q ∈ slots, q.1 + 8 ≤ p.1 ∨ p.1 + 8 ≤ q.1) :
    SlotsHold vmcb (slots ++ [p]) (m.putWord (vmcb + p.1) p.2) := by
  intro q hq
  rcases List.mem_append.mp hq with hq | hq
  · rw [PhysMem.wordAt_putWord_of_apart, hs q hq]
    have := hp q hq
    omega
  · rw [List.mem_singleton.mp hq, PhysMem.wordAt_putWord]

/-- Words stored to slots, one after the other. -/
def PhysMem.putSlots (m : PhysMem) (vmcb : ℕ) (slots : List (ℕ × UInt64)) : PhysMem :=
  slots.foldl (fun m p => m.putWord (vmcb + p.1) p.2) m

theorem wp_writeSlots {Q : Unit → Host → Prop} :
    wp (writeSlots vmcb slots) Q h ↔ Q () (h.setMem (h.mem.putSlots vmcb slots)) := by
  unfold writeSlots
  induction slots generalizing h with
  | nil => rw [forEach, wp_pure]; rfl
  | cons p slots ih =>
    rw [forEach, wp_bind, wp_writeWord, ih]
    rfl

/-- **The slots of a set-up** hold what was written if they do not overlap. -/
theorem slotsHold_putSlots (hslots : Apart slots) : SlotsHold vmcb slots (m.putSlots vmcb slots) := by
  induction slots using List.reverseRecOn with
  | nil =>
    intro p hp
    cases hp
  | append_singleton slots p ih =>
    obtain ⟨hslots, -, hp⟩ := List.pairwise_append.mp hslots
    rw [PhysMem.putSlots, List.foldl_append]
    exact (ih hslots).put fun q hq => hp q hq p List.mem_cons_self

theorem apart_of_offsets {offsets : List ℕ} (hslots : slots.map Prod.fst = offsets)
    (h : offsets.Pairwise fun i j => i + 8 ≤ j ∨ j + 8 ≤ i) : Apart slots := by
  subst hslots
  exact List.pairwise_map.mp h

/-- The slots of `svm_vcpu_setup` do not overlap. -/
theorem apart_slots (s : CpuState) : Apart (gprSlots s.gprs ++ stateSlots s) := by
  apply @apart_of_offsets _
    [0x00, 0x08, 0x10, 0x18, 0x20, 0x28, 0x30, 0x38, 0x78, 0x80, 0x88, 0x90, 0x98, 0xA0, 0xA8, 0xB0,
      0xB8, 0xC0, 0xC8, 0xD0, 0xD8, 0xE0, 0xE8, 0xF0, 0xF8, 0x100, 0x108, 0x110, 0x118, 0x120,
      0x1E0, 0x1E8]
  · rfl
  · decide +kernel

/-- The host, but for its memory. -/
def SameButMem (h h' : Host) : Prop := h' = h.setMem h'.mem

theorem SameButMem.setMem {h' : Host} (hsame : SameButMem h h') (m : PhysMem) : SameButMem h (h'.setMem m) := by
  rw [hsame]
  rfl

theorem enableIntercepts_spec : wp (enableIntercepts vmcb) (fun _ h' => SameButMem h h') h := by
  refine Keeps.forEach (I := SameButMem h) (fun bit _ h' hsame => ?_) h rfl
  rw [wp_changeByte]
  exact hsame.setMem _

theorem writeMaps_spec {u : Nexusvcpu} {v : Nexusvm} (hg : h.gInitialized = true)
    (hv : h.vms u.vm = some v) : wp (writeMaps u vmcb) (fun _ h' => SameButMem h h') h := by
  rw [writeMaps, wp_bind, wp_getHv]
  refine ⟨hg, ?_⟩
  rw [wp_bind, wp_when]
  have hroot : ∀ h' : Host, SameButMem h h' → wp (Prog.when h.hv.hasNpt do
      let v ← getVm u.vm
      Prog.when v.eptRoot.isSome
        (writeWord (vmcb + VMCB_OFFSET_NESTED_PAGING_ROOT) (pointerValue v.eptRoot)))
      (fun _ h' => SameButMem h h') h' := by
    intro h' hsame
    refine wp_when.mpr ⟨fun _ => ?_, fun _ => hsame⟩
    rw [wp_bind, wp_getVm]
    refine ⟨v, by rw [hsame]; exact hv, wp_when.mpr ⟨fun _ => ?_, fun _ => hsame⟩⟩
    rw [wp_writeWord]
    exact hsame.setMem _
  refine ⟨fun _ => ?_, fun _ => hroot h rfl⟩
  rw [wp_writeWord]
  exact hroot _ rfl

/-- **A set-up** stores the general registers of the guest in their slots. -/
theorem setupVmcb_spec {c : Addr} {u : Nexusvcpu} {v : Nexusvm} (hg : h.gInitialized = true)
    (hu : h.vcpus c = some u) (hvmcb : u.vmcb = some vmcb) (hv : h.vms u.vm = some v) :
    wp (setupVmcb c) (fun r h' => r = .ok ∧ SameButMem h h' ∧ SavedGprs vmcb u.cpuState.gprs h'.mem) h := by
  rw [setupVmcb, wp_bind, wp_getVcpu]
  refine ⟨u, hu, ?_⟩
  rw [hvmcb, wp_bind]
  refine wp_mono enableIntercepts_spec fun _ h₁ hsame₁ => ?_
  rw [wp_bind]
  refine wp_mono (writeMaps_spec (by rw [hsame₁]; exact hg) (by rw [hsame₁]; exact hv)) fun _ h₂ hsame₂ => ?_
  have hsame : SameButMem h h₂ := by
    rw [hsame₂, hsame₁]
    rfl
  rw [wp_bind, wp_writeSlots, wp_pure]
  exact ⟨rfl, hsame.setMem _, fun p hp =>
    slotsHold_putSlots (apart_slots u.cpuState) p (List.mem_append_left _ hp)⟩

end Setup

/-! ## Handlers -/

/-- `svm_handle_cpuid` -/
def svmHandleCpuid (w : VmxWorld) (vmcb : Addr) : VmxM Result := do
  let eax ← onHost (readWord (vmcb + 0x00))
  let ecx ← onHost (readWord (vmcb + 0x18))
  let r := w.cpuid eax.toUInt32 ecx.toUInt32
  onHost (writeSlots vmcb
    [(0x00, r.eax.toUInt64), (0x08, r.ebx.toUInt64), (0x10, r.ecx.toUInt64), (0x18, r.edx.toUInt64)])
  return .ok

/-- `svm_handle_rdmsr`; RDMSR leaves the low half of the register in RAX, which is all that is looked
at. -/
def svmHandleRdmsr (vmcb : Addr) : VmxM Result := do
  let ecx ← onHost (readWord (vmcb + 0x18))
  let m ← get
  let value := m.msrs ecx.toUInt32 &&& 0xFFFFFFFF
  onHost (writeSlots vmcb [(0x00, value &&& 0xFFFFFFFF), (0x10, (value >>> 32) &&& 0xFFFFFFFF)])
  return .ok

/-- `svm_handle_wrmsr` -/
def svmHandleWrmsr (vmcb : Addr) : VmxM Result := do
  let ecx ← onHost (readWord (vmcb + 0x18))
  let low ← onHost (readWord (vmcb + 0x00))
  let high ← onHost (readWord (vmcb + 0x10))
  let value := low ||| high <<< 32
  modify fun m => { m with msrs := Function.update m.msrs ecx.toUInt32 value }
  return .ok

/-- `svm_handle_vmmcall`; no hypercall is made, and what the local `result` holds is stored. -/
def svmHandleVmmcall (result : HypercallResult) (vmcb : Addr) : VmxM Result := do
  onHost (writeSlots vmcb
    [(0x00, result.ret0), (0x08, result.ret1), (0x10, result.ret2), (0x18, result.ret3)])
  return .errNotSupported

/-- `svm_handle_rdtsc` -/
def svmHandleRdtsc (w : VmxWorld) (vmcb : Addr) : VmxM Result := do
  let m ← get
  let tsc := w.tsc m.entries
  onHost (writeSlots vmcb [(0x00, tsc &&& 0xFFFFFFFF), (0x10, (tsc >>> 32) &&& 0xFFFFFFFF)])
  return .ok

/-! ## Both vendors -/

/-- An instruction of the guest that both vendors emulate. -/
inductive Emulated
  | cpuid
  | rdmsr
  | wrmsr
  | rdtsc
  | hypercall

/-- The handler of an Intel processor. -/
def Emulated.onVmx (w : VmxWorld) (c : Addr) : Emulated → VmxM Result
  | .cpuid => vmxHandleCpuid w c
  | .rdmsr => vmxHandleMsrRead w c
  | .wrmsr => vmxHandleMsrWrite w c
  | .rdtsc => vmxHandleRdtsc w c
  | .hypercall => vmxHandleVmcall w c

/-- The handler of an AMD processor; `stale` is what its locals hold. -/
def Emulated.onSvm (w : VmxWorld) (stale : HypercallResult) (vmcb : Addr) : Emulated → VmxM Result
  | .cpuid => svmHandleCpuid w vmcb
  | .rdmsr => svmHandleRdmsr vmcb
  | .wrmsr => svmHandleWrmsr vmcb
  | .rdtsc => svmHandleRdtsc w vmcb
  | .hypercall => svmHandleVmmcall stale vmcb

/-- RAX, RBX, RCX and RDX. -/
structure MainRegs where
  rax : UInt64
  rbx : UInt64
  rcx : UInt64
  rdx : UInt64
deriving DecidableEq

def GuestGprs.main (g : GuestGprs) : MainRegs := ⟨g.rax, g.rbx, g.rcx, g.rdx⟩

def CpuidRegs.main (r : CpuidRegs) : MainRegs :=
  ⟨r.eax.toUInt64, r.ebx.toUInt64, r.ecx.toUInt64, r.edx.toUInt64⟩

theorem CpuidRegs.main_inj {r s : CpuidRegs} : r.main = s.main ↔ r = s := by
  rw [main, main, MainRegs.mk.injEq, UInt32.toUInt64_inj, UInt32.toUInt64_inj, UInt32.toUInt64_inj,
    UInt32.toUInt64_inj, CpuidRegs.mk.injEq]

/-- The registers in the slots of a VMCB. -/
def PhysMem.slotRegs (m : PhysMem) (vmcb : ℕ) : MainRegs :=
  ⟨m.wordAt (vmcb + 0x00), m.wordAt (vmcb + 0x08), m.wordAt (vmcb + 0x10), m.wordAt (vmcb + 0x18)⟩

/-- The two handlers, from the same registers and MSRs, leave the same registers and MSRs, whatever
the MSRs hold and whatever is on the stack. -/
def Agrees (w : VmxWorld) (c : Addr) (vmcb : ℕ) (i : Emulated) (m : Machine) : Prop :=
  ∀ msrs stale, wp (i.onVmx w c) (fun _ m₁ => wp (i.onSvm w stale vmcb) (fun _ m₂ =>
    (m₁.host.vcpus c).map (fun u => u.cpuState.gprs.main) = some (m₂.host.mem.slotRegs vmcb) ∧
      m₁.msrs = m₂.msrs) { m with msrs := msrs }) { m with msrs := msrs }

section Handlers

variable {w : VmxWorld} {c : Addr} {vmcb : ℕ} {m : Machine} {u : Nexusvcpu} {g : GuestGprs}

/-- What an Intel handler has left in the vCPU and in the MSRs. -/
def LeftOnVmx (c : Addr) (r : MainRegs) (msrs : UInt32 → UInt64) (m : Machine) : Prop :=
  (m.host.vcpus c).map (fun u => u.cpuState.gprs.main) = some r ∧ m.msrs = msrs

/-- What an AMD handler has left in the VMCB and in the MSRs. -/
def LeftOnSvm (vmcb : ℕ) (r : MainRegs) (msrs : UInt32 → UInt64) (m : Machine) : Prop :=
  m.host.mem.slotRegs vmcb = r ∧ m.msrs = msrs

theorem same_left_iff {x y : VmxM Result} {r s : MainRegs} {f k : UInt32 → UInt64}
    (hx : wp x (fun _ => LeftOnVmx c r f) m) (hy : wp y (fun _ => LeftOnSvm vmcb s k) m) :
    wp x (fun _ m₁ => wp y (fun _ m₂ =>
      (m₁.host.vcpus c).map (fun u => u.cpuState.gprs.main) = some (m₂.host.mem.slotRegs vmcb) ∧
        m₁.msrs = m₂.msrs) m) m ↔ r = s ∧ f = k := by
  obtain ⟨_, m₁, hrun₁, hr, hf⟩ := hx
  obtain ⟨_, m₂, hrun₂, hs, hk⟩ := hy
  constructor
  · intro h
    have h₁ := wp_run h hrun₁
    have h₂ := wp_run h₁ hrun₂
    rw [hr, hs, hf, hk] at h₂
    exact ⟨Option.some.inj h₂.1, h₂.2⟩
  · rintro ⟨rfl, rfl⟩
    exact wp_of_run hrun₁ (wp_of_run hrun₂ ⟨by rw [hr, hs], by rw [hf, hk]⟩)

theorem instr_leaves (i : Vmx.Instr VmcsField) {r : MainRegs} {f : UInt32 → UInt64} :
    Keeps (LeftOnVmx c r f) (instr i) := by
  intro m hm
  rw [wp_instr, Vmx.wp_issue]
  exact ⟨fun _ _ => hm, fun _ => hm⟩

theorem advanceRip_leaves {r : MainRegs} {f : UInt32 → UInt64} :
    Keeps (LeftOnVmx c r f) (advanceRip w) := by
  have hread : ∀ field, Keeps (LeftOnVmx c r f) (vmxVmread w field) := by
    intro field
    refine (instr_leaves _).bind fun accepted => Keeps.get.bind fun m => ?_
    split <;> exact .pure _
  exact (hread _).bind fun _ => (hread _).bind fun _ => (instr_leaves _).discard

theorem finish_leaves {r : MainRegs} {f : UInt32 → UInt64} {status : Result} (h : LeftOnVmx c r f m) :
    wp (advanceRip w >>= fun _ => pure status) (fun _ => LeftOnVmx c r f) m := by
  rw [wp_bind]
  refine wp_mono (advanceRip_leaves m h) fun _ m' h' => ?_
  rw [wp_pure]
  exact h'

theorem leftOnVmx_setGprs : LeftOnVmx c g.main m.msrs
    (m.setHost (m.host.setVcpu c (some (u.setGprs g)))) := by
  refine ⟨?_, rfl⟩
  change (Function.update m.host.vcpus c (some (u.setGprs g)) c).map _ = _
  rw [Function.update_self]
  rfl

theorem modifyGprs_left {f : GuestGprs → GuestGprs} {status : Result} (hu : m.host.vcpus c = some u) :
    wp (modifyGprs c f >>= fun _ => advanceRip w >>= fun _ => pure status)
      (fun _ => LeftOnVmx c (f u.cpuState.gprs).main m.msrs) m := by
  rw [wp_bind, wp_modifyGprs]
  exact ⟨u, hu, finish_leaves leftOnVmx_setGprs⟩

theorem vmxHandleCpuid_left (hu : m.host.vcpus c = some u) :
    wp (vmxHandleCpuid w c) (fun _ => LeftOnVmx c
      (w.cpuid u.cpuState.gprs.rax.toUInt32 0).main m.msrs) m := by
  rw [vmxHandleCpuid, wp_bind, wp_onHost, wp_getVcpu]
  exact ⟨u, hu, modifyGprs_left hu⟩

theorem high_low (x : UInt64) : ((x &&& 0xFFFFFFFF) >>> 32) &&& 0xFFFFFFFF = 0 := by
  apply UInt64.toNat_inj.mp
  rw [UInt64.toNat_and, UInt64.toNat_shiftRight, UInt64.toNat_and,
    show (0xFFFFFFFF : UInt64).toNat = 2 ^ 32 - 1 from rfl, Nat.and_two_pow_sub_one_eq_mod,
    Nat.and_two_pow_sub_one_eq_mod, show (32 : UInt64).toNat % 64 = 32 from rfl,
    Nat.shiftRight_eq_div_pow]
  change _ = 0
  omega

theorem low_low (x : UInt64) : (x &&& 0xFFFFFFFF) &&& 0xFFFFFFFF = x &&& 0xFFFFFFFF := by
  rw [UInt64.and_assoc]
  rfl

theorem high_high (x : UInt64) : (x >>> 32) &&& (0xFFFFFFFF : UInt64) = x >>> (32 : UInt64) := by
  apply UInt64.toNat_inj.mp
  have hlt := x.toNat_lt
  rw [UInt64.toNat_and, UInt64.toNat_shiftRight,
    show (0xFFFFFFFF : UInt64).toNat = 2 ^ 32 - 1 from rfl, Nat.and_two_pow_sub_one_eq_mod,
    show (32 : UInt64).toNat % 64 = 32 from rfl, Nat.shiftRight_eq_div_pow]
  omega

theorem shiftLeft_congr {x y : UInt64} (h : x.toUInt32 = y.toUInt32) : x <<< 32 = y <<< 32 := by
  have h' := congrArg UInt32.toNat h
  rw [UInt64.toNat_toUInt32, UInt64.toNat_toUInt32] at h'
  apply UInt64.toNat_inj.mp
  rw [UInt64.toNat_shiftLeft, UInt64.toNat_shiftLeft, show (32 : UInt64).toNat % 64 = 32 from rfl,
    Nat.shiftLeft_eq, Nat.shiftLeft_eq]
  omega

theorem vmxHandleMsrRead_left (hu : m.host.vcpus c = some u) :
    wp (vmxHandleMsrRead w c) (fun _ => LeftOnVmx c
      { u.cpuState.gprs.main with
        rax := m.msrs u.cpuState.gprs.rcx.toUInt32 &&& 0xFFFFFFFF
        rdx := 0 } m.msrs) m := by
  rw [vmxHandleMsrRead, wp_bind, wp_onHost, wp_getVcpu]
  refine ⟨u, hu, ?_⟩
  rw [wp_bind, wp_get]
  have hregs : GuestGprs.main { u.cpuState.gprs with
      rax := (m.msrs u.cpuState.gprs.rcx.toUInt32 &&& 0xFFFFFFFF) &&& 0xFFFFFFFF
      rdx := ((m.msrs u.cpuState.gprs.rcx.toUInt32 &&& 0xFFFFFFFF) >>> 32) &&& 0xFFFFFFFF } =
      { u.cpuState.gprs.main with
        rax := m.msrs u.cpuState.gprs.rcx.toUInt32 &&& 0xFFFFFFFF
        rdx := 0 } := by
    rw [high_low, low_low]
    rfl
  rw [← hregs]
  exact modifyGprs_left hu

theorem vmxHandleMsrWrite_left (hu : m.host.vcpus c = some u) :
    wp (vmxHandleMsrWrite w c) (fun _ => LeftOnVmx c u.cpuState.gprs.main
      (Function.update m.msrs u.cpuState.gprs.rcx.toUInt32
        (u.cpuState.gprs.rax ||| u.cpuState.gprs.rdx <<< 32))) m := by
  rw [vmxHandleMsrWrite, wp_bind, wp_onHost, wp_getVcpu]
  refine ⟨u, hu, ?_⟩
  rw [wp_bind, wp_modify]
  refine finish_leaves ⟨?_, rfl⟩
  change (m.host.vcpus c).map _ = _
  rw [hu]
  rfl

theorem vmxHandleRdtsc_left (hu : m.host.vcpus c = some u) :
    wp (vmxHandleRdtsc w c) (fun _ => LeftOnVmx c
      { u.cpuState.gprs.main with
        rax := w.tsc m.entries &&& 0xFFFFFFFF
        rdx := (w.tsc m.entries >>> 32) &&& 0xFFFFFFFF } m.msrs) m := by
  rw [vmxHandleRdtsc, wp_bind, wp_get]
  exact modifyGprs_left hu

/-! ### The handlers on a VMCB -/

theorem SavedGprs.rax (hs : SavedGprs vmcb g m.host.mem) : m.host.mem.wordAt (vmcb + 0x00) = g.rax :=
  hs (0x00, g.rax) (by simp [gprSlots])

theorem SavedGprs.rbx (hs : SavedGprs vmcb g m.host.mem) : m.host.mem.wordAt (vmcb + 0x08) = g.rbx :=
  hs (0x08, g.rbx) (by simp [gprSlots])

theorem SavedGprs.rcx (hs : SavedGprs vmcb g m.host.mem) : m.host.mem.wordAt (vmcb + 0x10) = g.rcx :=
  hs (0x10, g.rcx) (by simp [gprSlots])

theorem SavedGprs.rdx (hs : SavedGprs vmcb g m.host.mem) : m.host.mem.wordAt (vmcb + 0x18) = g.rdx :=
  hs (0x18, g.rdx) (by simp [gprSlots])

theorem writeSlots_left {slots : List (ℕ × UInt64)} {r : MainRegs} {status : Result}
    (hr : (m.host.mem.putSlots vmcb slots).slotRegs vmcb = r) :
    wp (onHost (writeSlots vmcb slots) >>= fun _ => pure status)
      (fun _ => LeftOnSvm vmcb r m.msrs) m := by
  rw [wp_bind, wp_onHost, wp_writeSlots, wp_pure]
  exact ⟨hr, rfl⟩

theorem wp_readSlot {a : Addr} {Q : UInt64 → Machine → Prop} :
    wp (onHost (readWord a)) Q m ↔ Q (m.host.mem.wordAt a) m := by
  rw [wp_onHost, wp_readWord, Machine.setHost_self]

theorem svmHandleCpuid_left (hs : SavedGprs vmcb g m.host.mem) :
    wp (svmHandleCpuid w vmcb) (fun _ => LeftOnSvm vmcb
      (w.cpuid g.rax.toUInt32 g.rdx.toUInt32).main m.msrs) m := by
  rw [svmHandleCpuid, wp_bind, wp_readSlot, wp_bind, wp_readSlot, hs.rax, hs.rdx]
  refine writeSlots_left ?_
  simp (disch := omega) [PhysMem.putSlots, PhysMem.slotRegs, PhysMem.wordAt_putWord_of_apart]
  rfl

theorem svmHandleRdmsr_left (hs : SavedGprs vmcb g m.host.mem) :
    wp (svmHandleRdmsr vmcb) (fun _ => LeftOnSvm vmcb
      { g.main with
        rax := m.msrs g.rdx.toUInt32 &&& 0xFFFFFFFF
        rcx := 0 } m.msrs) m := by
  rw [svmHandleRdmsr, wp_bind, wp_readSlot, wp_bind, wp_get, hs.rdx]
  refine writeSlots_left ?_
  simp (disch := omega) only [PhysMem.putSlots, PhysMem.slotRegs, PhysMem.wordAt_putWord_of_apart,
    List.foldl, PhysMem.wordAt_putWord, hs.rbx, hs.rdx, high_low, low_low]
  rfl

theorem svmHandleWrmsr_left (hs : SavedGprs vmcb g m.host.mem) :
    wp (svmHandleWrmsr vmcb) (fun _ => LeftOnSvm vmcb g.main
      (Function.update m.msrs g.rdx.toUInt32 (g.rax ||| g.rcx <<< 32))) m := by
  rw [svmHandleWrmsr, wp_bind, wp_readSlot, wp_bind, wp_readSlot, wp_bind, wp_readSlot, wp_bind,
    wp_modify, wp_pure, hs.rax, hs.rcx, hs.rdx]
  refine ⟨?_, rfl⟩
  change PhysMem.slotRegs m.host.mem vmcb = _
  rw [PhysMem.slotRegs, hs.rax, hs.rbx, hs.rcx, hs.rdx]
  rfl

theorem svmHandleRdtsc_left (hs : SavedGprs vmcb g m.host.mem) :
    wp (svmHandleRdtsc w vmcb) (fun _ => LeftOnSvm vmcb
      { g.main with
        rax := w.tsc m.entries &&& 0xFFFFFFFF
        rcx := (w.tsc m.entries >>> 32) &&& 0xFFFFFFFF } m.msrs) m := by
  rw [svmHandleRdtsc, wp_bind, wp_get]
  refine writeSlots_left ?_
  simp (disch := omega) only [PhysMem.putSlots, PhysMem.slotRegs, PhysMem.wordAt_putWord_of_apart,
    List.foldl, PhysMem.wordAt_putWord, hs.rbx, hs.rdx]
  rfl

theorem svmHandleVmmcall_left (result : HypercallResult) :
    wp (svmHandleVmmcall result vmcb) (fun _ => LeftOnSvm vmcb
      ⟨result.ret0, result.ret1, result.ret2, result.ret3⟩ m.msrs) m := by
  refine writeSlots_left ?_
  simp (disch := omega) only [PhysMem.putSlots, PhysMem.slotRegs, PhysMem.wordAt_putWord_of_apart,
    List.foldl, PhysMem.wordAt_putWord]

/-! ### Agreement -/

theorem agrees_cpuid_iff (hu : m.host.vcpus c = some u) (hs : SavedGprs vmcb u.cpuState.gprs m.host.mem) :
    Agrees w c vmcb .cpuid m ↔ w.cpuid u.cpuState.gprs.rax.toUInt32 0 =
      w.cpuid u.cpuState.gprs.rax.toUInt32 u.cpuState.gprs.rdx.toUInt32 := by
  have hiff := fun msrs => same_left_iff (m := { m with msrs := msrs }) (vmxHandleCpuid_left (w := w) hu)
    (svmHandleCpuid_left (w := w) hs)
  constructor
  · intro h
    exact CpuidRegs.main_inj.mp ((hiff m.msrs).mp (h m.msrs {})).1
  · intro h msrs stale
    rw [Emulated.onVmx, Emulated.onSvm, hiff, h]
    exact ⟨rfl, rfl⟩

theorem agrees_rdmsr_iff (hu : m.host.vcpus c = some u) (hs : SavedGprs vmcb u.cpuState.gprs m.host.mem) :
    Agrees w c vmcb .rdmsr m ↔ u.cpuState.gprs.rcx = 0 ∧ u.cpuState.gprs.rdx = 0 := by
  have hiff := fun msrs => same_left_iff (m := { m with msrs := msrs }) (vmxHandleMsrRead_left (w := w) hu)
    (svmHandleRdmsr_left hs)
  constructor
  · intro h
    have hregs := ((hiff m.msrs).mp (h m.msrs {})).1
    exact ⟨congrArg MainRegs.rcx hregs, (congrArg MainRegs.rdx hregs).symm⟩
  · rintro ⟨hrcx, hrdx⟩ msrs stale
    rw [Emulated.onVmx, Emulated.onSvm, hiff]
    simp only [GuestGprs.main, hrcx, hrdx, and_self]

theorem agrees_wrmsr_iff (hu : m.host.vcpus c = some u) (hs : SavedGprs vmcb u.cpuState.gprs m.host.mem) :
    Agrees w c vmcb .wrmsr m ↔ u.cpuState.gprs.rcx.toUInt32 = u.cpuState.gprs.rdx.toUInt32 := by
  have hiff := fun msrs => same_left_iff (m := { m with msrs := msrs }) (vmxHandleMsrWrite_left (w := w) hu)
    (svmHandleWrmsr_left hs)
  generalize u.cpuState.gprs = g at hiff
  constructor
  · intro h
    by_contra hne
    -- MSRs that hold another value than the one that is written
    have hmsrs := ((hiff fun _ => (g.rax ||| g.rdx <<< 32) + 1).mp (h _ {})).2
    have hat := congrFun hmsrs g.rcx.toUInt32
    rw [Function.update_self, Function.update_of_ne hne] at hat
    exact absurd hat (by simp)
  · intro h msrs stale
    rw [Emulated.onVmx, Emulated.onSvm, hiff, h, shiftLeft_congr h]
    exact ⟨rfl, rfl⟩

theorem agrees_rdtsc_iff (hu : m.host.vcpus c = some u) (hs : SavedGprs vmcb u.cpuState.gprs m.host.mem) :
    Agrees w c vmcb .rdtsc m ↔ u.cpuState.gprs.rcx = w.tsc m.entries >>> 32 ∧
      u.cpuState.gprs.rdx = w.tsc m.entries >>> 32 := by
  have hiff := fun msrs => same_left_iff (m := { m with msrs := msrs }) (vmxHandleRdtsc_left (w := w) hu)
    (svmHandleRdtsc_left (w := w) hs)
  simp only [high_high] at hiff
  constructor
  · intro h
    have hregs := ((hiff m.msrs).mp (h m.msrs {})).1
    exact ⟨congrArg MainRegs.rcx hregs, (congrArg MainRegs.rdx hregs).symm⟩
  · rintro ⟨hrcx, hrdx⟩ msrs stale
    rw [Emulated.onVmx, Emulated.onSvm, hiff]
    simp only [GuestGprs.main, hrcx, hrdx, and_self]

theorem not_agrees_hypercall : ¬ Agrees w c vmcb .hypercall m := by
  intro h
  obtain ⟨_, m₁, hrun, -⟩ := h m.msrs {}
  have hany : ∀ x : UInt64, ((m₁.host.vcpus c).map fun u => u.cpuState.gprs.main.rax) = some x := by
    intro x
    have h₁ := wp_run (h m.msrs { ret0 := x }) hrun
    obtain ⟨_, m₂, -, ⟨hsame, -⟩, hregs, -⟩ := wp_and h₁ (svmHandleVmmcall_left { ret0 := x })
    rw [hregs] at hsame
    obtain ⟨u, hu, hmain⟩ := Option.map_eq_some_iff.mp hsame
    rw [hu]
    exact congrArg (fun r => some (MainRegs.rax r)) hmain
  have := (hany 0).symm.trans (hany 1)
  cases this

/-- The registers with which the handlers of the two vendors do the same. -/
def Emulated.Coincides (w : VmxWorld) (g : GuestGprs) (tsc : UInt64) : Emulated → Prop
  | .cpuid => w.cpuid g.rax.toUInt32 0 = w.cpuid g.rax.toUInt32 g.rdx.toUInt32
  | .rdmsr => g.rcx = 0 ∧ g.rdx = 0
  | .wrmsr => g.rcx.toUInt32 = g.rdx.toUInt32
  | .rdtsc => g.rcx = tsc >>> 32 ∧ g.rdx = tsc >>> 32
  | .hypercall => False

/-- **Two handlers of an instruction agree** just with these registers. -/
theorem exit_emulation_iff (hu : m.host.vcpus c = some u)
    (hs : SavedGprs vmcb u.cpuState.gprs m.host.mem) (i : Emulated) :
    Agrees w c vmcb i m ↔ i.Coincides w u.cpuState.gprs (w.tsc m.entries) := by
  cases i with
  | cpuid => exact agrees_cpuid_iff hu hs
  | rdmsr => exact agrees_rdmsr_iff hu hs
  | wrmsr => exact agrees_wrmsr_iff hu hs
  | rdtsc => exact agrees_rdtsc_iff hu hs
  | hypercall => exact iff_false_intro not_agrees_hypercall

end Handlers

/-- A vCPU with some registers, and a VMCB that holds them. -/
def savedMachine (g : GuestGprs) : Machine := bareMachine {
  bootHost 1 .amd with
  vcpus := fun a => if a = 16384 then some { cpuState := { gprs := g }, vmcb := some 32768 } else none
  mem := { bumpMem.putSlots 32768 (gprSlots g) with
    heap := { bumpHeap with live := [⟨.vmcb, 32768, 4096⟩], asked := 2 } } }

theorem savedGprs_savedMachine (g : GuestGprs) : SavedGprs 32768 g (savedMachine g).host.mem :=
  slotsHold_putSlots (m := bumpMem) (List.pairwise_append.mp (apart_slots { gprs := g })).1

/-- A vCPU of a VM, before its VMCB is set up. -/
def unsavedHost (g : GuestGprs) : Host :=
  { bootHost 1 .amd with
    gInitialized := true
    vms := fun a => if a = 8192 then some { vcpus := [16384], vcpuCount := 1 } else none
    vcpus := fun a => if a = 16384
      then some { cpuState := { gprs := g }, vm := 8192, vmcb := some 32768 } else none }

/-- A set-up with the same number in RCX and RDX: a WRMSR does the same on both processors. -/
theorem exit_emulation_iff_wrmsr : ∃ h, (setupVmcb 16384).run (unsavedHost { rcx := 0x10, rdx := 0x10 }) =
    some (.ok, h) ∧ Agrees bareWorld 16384 32768 .wrmsr (bareMachine h) := by
  have hu : (unsavedHost { rcx := 0x10, rdx := 0x10 }).vcpus 16384 =
    some { cpuState := { gprs := { rcx := 0x10, rdx := 0x10 } }, vm := 8192, vmcb := some 32768 } := rfl
  obtain ⟨_, h, hrun, rfl, hsame, hsaved⟩ := setupVmcb_spec rfl hu rfl rfl
  refine ⟨h, hrun, (exit_emulation_iff (m := bareMachine h) ?_ hsaved .wrmsr).mpr rfl⟩
  change h.vcpus 16384 = _
  rw [hsame]
  exact hu

/-- A write to one MSR is made to another. -/
theorem wrmsr_to_other_msr : SavedGprs 32768 { rcx := 0xC0000080 }
      (savedMachine { rcx := 0xC0000080 }).host.mem ∧
    ¬ Agrees bareWorld 16384 32768 .wrmsr (savedMachine { rcx := 0xC0000080 }) := by
  refine ⟨savedGprs_savedMachine _, ?_⟩
  rw [agrees_wrmsr_iff (u := { cpuState := { gprs := { rcx := 0xC0000080 } }, vmcb := some 32768 }) rfl
    (savedGprs_savedMachine _)]
  decide

end NexusVM
