import NexusVM.Svm

/-!
# Dispatching the exits of an AMD guest

`svm_handle_exit` of `amd-v/svm.c`, and the fields of the VMCB it reads.

* `PhysMem.halfAt`, `PhysMem.wordAt_halves`: 32-bit words in host memory, and the halves of a 64-bit one;
* `svmGetExitCode`, `svmGetExitInfo1`, `svmGetExitInfo2`: the fields, each read as a 64-bit word;
* `SvmExit`, `SvmExitCodes.select`, `svmHandleExit`: the cases of the `switch` and their handlers;
* `svmGetExit_iff`, `svmHandleExit_selects`: the exit code is read with half of a neighbour;
* **`svm_dispatch_iff`**: when the neighbour does no harm.
-/

namespace NexusVM

open Prog

/-! ## 32-bit words -/

/-- The 32-bit word at `a`. -/
def PhysMem.halfAt (m : PhysMem) (a : ℕ) : UInt32 := Codec.u32.decode (m.bytesAt a 4)

theorem PhysMem.wordAt_halves (m : PhysMem) (a : ℕ) :
    (m.wordAt a).toNat = (m.halfAt a).toNat + 2 ^ 32 * (m.halfAt (a + 4)).toNat := by
  have hword : (m.wordAt a).toNat = ofLittleEndian 8 (m.bytesAt a 8) :=
    UInt64.toNat_ofNat_of_lt' (ofLittleEndian_lt 8 _)
  have hhalf : ∀ b, (m.halfAt b).toNat = ofLittleEndian 4 (m.bytesAt b 4) := fun b =>
    UInt32.toNat_ofNat_of_lt' (ofLittleEndian_lt 4 _)
  have hbytes : m.bytesAt a 8 = m.bytesAt a 4 ++ m.bytesAt (a + 4) 4 := rfl
  have happend := ofLittleEndian_append (m.bytesAt a 4) 4 (m.bytesAt (a + 4) 4)
  rw [show (m.bytesAt a 4).length = 4 from rfl] at happend
  rw [hword, hhalf, hhalf, hbytes]
  exact happend

theorem PhysMem.wordAt_toUInt32 (m : PhysMem) (a : ℕ) : (m.wordAt a).toUInt32 = m.halfAt a := by
  have hlt := (m.halfAt a).toNat_lt
  apply UInt32.toNat_inj.mp
  rw [UInt64.toNat_toUInt32, m.wordAt_halves]
  omega

/-- Store a 32-bit word at `a`. -/
def PhysMem.putHalf (m : PhysMem) (a : ℕ) (value : UInt32) : PhysMem :=
  m.putRam a (Codec.u32.encode value)

theorem PhysMem.halfAt_putHalf (m : PhysMem) (a : ℕ) (value : UInt32) :
    (m.putHalf a value).halfAt a = value := by
  have hbytes := m.putRam_read a (Codec.u32.encode value)
  rw [Codec.length_encode] at hbytes
  change Codec.u32.decode ((m.putHalf a value).bytesAt a 4) = value
  rw [show (m.putHalf a value).bytesAt a 4 = Codec.u32.encode value from hbytes,
    Codec.decode_encode_self]

theorem PhysMem.halfAt_putWord (m : PhysMem) {a b : ℕ} (h : b + 4 ≤ a) (value : UInt64) :
    (m.putWord a value).halfAt b = m.halfAt b := by
  refine congrArg Codec.u32.decode (List.map_congr_left fun (k : ℕ) hk => PhysMem.putWord_ram ?_)
  have hlt : k < 4 := List.mem_range.mp hk
  omega

/-! ## The fields of an exit -/

def VMCB_OFFSET_EXITCODE : ℕ := 0x44
def VMCB_OFFSET_EXITINFO1 : ℕ := 0x48
def VMCB_OFFSET_EXITINFO2 : ℕ := 0x50

/-- `svm_get_exit_code` -/
def svmGetExitCode (vmcb : Addr) : HostM UInt64 := readWord (vmcb + VMCB_OFFSET_EXITCODE)

/-- `svm_get_exit_info1` -/
def svmGetExitInfo1 (vmcb : Addr) : HostM UInt64 := readWord (vmcb + VMCB_OFFSET_EXITINFO1)

/-- `svm_get_exit_info2` -/
def svmGetExitInfo2 (vmcb : Addr) : HostM UInt64 := readWord (vmcb + VMCB_OFFSET_EXITINFO2)

/-! ## Dispatch -/

/-- The cases of `svm_handle_exit`. -/
inductive SvmExit
  | cpuid
  | rdmsr
  | wrmsr
  | crRead
  | crWrite
  | invlpg
  | hlt
  | vmmcall
  | npf
  | rdtsc
  | interrupt
  | vmrun
  | unhandled
deriving DecidableEq

/-- The exit codes that the headers do not define; they fit into the field. -/
structure SvmExitCodes where
  vmmcall : UInt32
  vmrun : UInt32

/-- Which case of the `switch` an exit code selects. RDTSCP is defined twice, and the later definition
holds. -/
def SvmExitCodes.select (codes : SvmExitCodes) (exitCode : UInt64) : SvmExit :=
  if exitCode = 0x072 then .cpuid
  else if exitCode = 0x086 then .rdmsr
  else if exitCode = 0x087 then .wrmsr
  else if exitCode = 0x001 ∨ exitCode = 0x005 ∨ exitCode = 0x007 ∨ exitCode = 0x009 then .crRead
  else if exitCode = 0x002 ∨ exitCode = 0x006 ∨ exitCode = 0x008 ∨ exitCode = 0x00A then .crWrite
  else if exitCode = 0x076 then .invlpg
  else if exitCode = 0x08A then .hlt
  else if exitCode = codes.vmmcall.toUInt64 then .vmmcall
  else if exitCode = 0x400 then .npf
  else if exitCode = 0x07C ∨ exitCode = 0x082 then .rdtsc
  else if exitCode = 0x060 ∨ exitCode = 0x061 then .interrupt
  else if exitCode = codes.vmrun.toUInt64 then .vmrun
  else .unhandled

/-- `svm_handle_cr_read` -/
def svmHandleCrRead (_vmcb : Addr) (_exitCode : UInt64) : VmxM Result := return .ok

/-- `svm_handle_cr_write` -/
def svmHandleCrWrite (_vmcb : Addr) (_exitCode : UInt64) : VmxM Result := return .ok

/-- `svm_handle_invlpg`; no translation is cached here. -/
def svmHandleInvlpg (_vmcb : Addr) (_addr : UInt64) : VmxM Result := return .ok

/-- `svm_handle_hlt` -/
def svmHandleHlt (_vmcb : Addr) : VmxM Result := return .ok

/-- `svm_handle_npf` -/
def svmHandleNpf (_vmcb : Addr) (_exitInfo1 _exitInfo2 : UInt64) : VmxM Result := return .ok

/-- `svm_handle_interrupt` -/
def svmHandleInterrupt (_vmcb : Addr) : VmxM Result := return .ok

/-- `svm_handle_vmrun` -/
def svmHandleVmrun (_vmcb : Addr) : VmxM Result := return .errNotSupported

/-- The handler of a case, with what has been read. -/
def SvmExit.handler (w : VmxWorld) (stale : HypercallResult) (vmcb : Addr)
    (exitCode exitInfo1 exitInfo2 : UInt64) : SvmExit → VmxM Result
  | .cpuid => svmHandleCpuid w vmcb
  | .rdmsr => svmHandleRdmsr vmcb
  | .wrmsr => svmHandleWrmsr vmcb
  | .crRead => svmHandleCrRead vmcb exitCode
  | .crWrite => svmHandleCrWrite vmcb exitCode
  | .invlpg => svmHandleInvlpg vmcb exitInfo2
  | .hlt => svmHandleHlt vmcb
  | .vmmcall => svmHandleVmmcall stale vmcb
  | .npf => svmHandleNpf vmcb exitInfo1 exitInfo2
  | .rdtsc => svmHandleRdtsc w vmcb
  | .interrupt => svmHandleInterrupt vmcb
  | .vmrun => svmHandleVmrun vmcb
  | .unhandled => return .errGeneric

/-- `svm_handle_exit`; `stale` is what the locals of a handler hold. -/
def svmHandleExit (w : VmxWorld) (codes : SvmExitCodes) (stale : HypercallResult) (vmcb : Option Addr) :
    VmxM Result :=
  match vmcb with
  | none => return .errInvalidParam
  | some vmcb => do
    let exitCode ← onHost (svmGetExitCode vmcb)
    let exitInfo1 ← onHost (svmGetExitInfo1 vmcb)
    let exitInfo2 ← onHost (svmGetExitInfo2 vmcb)
    (codes.select exitCode).handler w stale vmcb exitCode exitInfo1 exitInfo2

/-! ## What is read -/

/-- The EXITCODE field: it goes up to EXITINFO1. -/
def PhysMem.exitCode (m : PhysMem) (vmcb : ℕ) : UInt32 := m.halfAt (vmcb + VMCB_OFFSET_EXITCODE)

/-- The EXITINFO1 field. -/
def PhysMem.exitInfo1 (m : PhysMem) (vmcb : ℕ) : UInt64 := m.wordAt (vmcb + VMCB_OFFSET_EXITINFO1)

/-- The EXITINFO2 field. -/
def PhysMem.exitInfo2 (m : PhysMem) (vmcb : ℕ) : UInt64 := m.wordAt (vmcb + VMCB_OFFSET_EXITINFO2)

/-- The processor stores the three fields. -/
def PhysMem.putExit (m : PhysMem) (vmcb : ℕ) (exitCode : UInt32) (exitInfo1 exitInfo2 : UInt64) :
    PhysMem :=
  ((m.putHalf (vmcb + VMCB_OFFSET_EXITCODE) exitCode).putWord (vmcb + VMCB_OFFSET_EXITINFO1)
    exitInfo1).putWord (vmcb + VMCB_OFFSET_EXITINFO2) exitInfo2

/-- The handler that `svm_handle_exit` selects. -/
def SvmExitCodes.selected (codes : SvmExitCodes) (m : PhysMem) (vmcb : ℕ) : SvmExit :=
  codes.select (m.wordAt (vmcb + VMCB_OFFSET_EXITCODE))

section Reads

variable {codes : SvmExitCodes} {m : PhysMem} {vmcb : ℕ} {exitCode : UInt32}
  {exitInfo1 exitInfo2 : UInt64}

@[simp] theorem PhysMem.exitCode_putExit :
    (m.putExit vmcb exitCode exitInfo1 exitInfo2).exitCode vmcb = exitCode := by
  unfold putExit PhysMem.exitCode
  rw [halfAt_putWord _ (by unfold VMCB_OFFSET_EXITCODE VMCB_OFFSET_EXITINFO2; omega),
    halfAt_putWord _ (by unfold VMCB_OFFSET_EXITCODE VMCB_OFFSET_EXITINFO1; omega), halfAt_putHalf]

@[simp] theorem PhysMem.exitInfo1_putExit :
    (m.putExit vmcb exitCode exitInfo1 exitInfo2).exitInfo1 vmcb = exitInfo1 := by
  unfold putExit PhysMem.exitInfo1
  rw [wordAt_putWord_of_apart (by unfold VMCB_OFFSET_EXITINFO1 VMCB_OFFSET_EXITINFO2; omega),
    wordAt_putWord]

@[simp] theorem PhysMem.exitInfo2_putExit :
    (m.putExit vmcb exitCode exitInfo1 exitInfo2).exitInfo2 vmcb = exitInfo2 := wordAt_putWord

/-- **What is read as the exit code** has the lower half of EXITINFO1 above the field. -/
theorem PhysMem.wordAt_exitCode (m : PhysMem) (vmcb : ℕ) :
    (m.wordAt (vmcb + VMCB_OFFSET_EXITCODE)).toNat =
      (m.exitCode vmcb).toNat + 2 ^ 32 * (m.exitInfo1 vmcb).toUInt32.toNat := by
  rw [wordAt_halves, PhysMem.exitInfo1, wordAt_toUInt32]
  rfl

theorem PhysMem.wordAt_exitCode_iff : m.wordAt (vmcb + VMCB_OFFSET_EXITCODE) =
    (m.exitCode vmcb).toUInt64 ↔ (m.exitInfo1 vmcb).toUInt32 = 0 := by
  rw [← UInt64.toNat_inj, m.wordAt_exitCode, UInt32.toNat_toUInt64, ← UInt32.toNat_inj, UInt32.toNat_zero]
  omega

/-- A word that does not fit into the field is the code of no case. -/
theorem SvmExitCodes.select_of_ge (codes : SvmExitCodes) {x : UInt64} (hx : 2 ^ 32 ≤ x.toNat) :
    codes.select x = .unhandled := by
  have hne : ∀ y : UInt64, y.toNat < 2 ^ 32 → x ≠ y := by
    rintro y hy rfl
    omega
  have hlit : ∀ y : UInt32, x ≠ y.toUInt64 := fun y => hne _ (by
    rw [UInt32.toNat_toUInt64]
    exact y.toNat_lt)
  simp only [select, hlit, hne 0x072 (by decide), hne 0x086 (by decide), hne 0x087 (by decide),
    hne 0x001 (by decide), hne 0x005 (by decide), hne 0x007 (by decide), hne 0x009 (by decide),
    hne 0x002 (by decide), hne 0x006 (by decide), hne 0x008 (by decide), hne 0x00A (by decide),
    hne 0x076 (by decide), hne 0x08A (by decide), hne 0x400 (by decide), hne 0x07C (by decide),
    hne 0x082 (by decide), hne 0x060 (by decide), hne 0x061 (by decide), or_self, if_false]

/-- **What is selected**: the case of the field, if the lower half of EXITINFO1 is zero, and none if not. -/
theorem SvmExitCodes.selected_eq (codes : SvmExitCodes) (m : PhysMem) (vmcb : ℕ) :
    codes.selected m vmcb = if (m.exitInfo1 vmcb).toUInt32 = 0
      then codes.select (m.exitCode vmcb).toUInt64 else .unhandled := by
  rw [selected]
  split_ifs with hlow
  · rw [PhysMem.wordAt_exitCode_iff.mpr hlow]
  · refine codes.select_of_ge ?_
    have hpos : (m.exitInfo1 vmcb).toUInt32.toNat ≠ 0 := fun hc => hlow (UInt32.toNat_inj.mp hc)
    rw [m.wordAt_exitCode]
    omega

/-- `svm_handle_exit` does what the selected handler does. -/
theorem svmHandleExit_selects {w : VmxWorld} {stale : HypercallResult} {s : Machine}
    {Q : Result → Machine → Prop} : wp (svmHandleExit w codes stale (some vmcb)) Q s ↔
      wp ((codes.selected s.host.mem vmcb).handler w stale vmcb
        (s.host.mem.wordAt (vmcb + VMCB_OFFSET_EXITCODE)) (s.host.mem.exitInfo1 vmcb)
        (s.host.mem.exitInfo2 vmcb)) Q s := by
  rw [svmHandleExit, wp_bind, svmGetExitCode, wp_readSlot, wp_bind, svmGetExitInfo1, wp_readSlot, wp_bind,
    svmGetExitInfo2, wp_readSlot]
  rfl

/-- **The getters.** The two last fields are read as they are; the exit code is, if the lower half of
EXITINFO1 is zero. -/
theorem svmGetExit_iff {h : Host} (hmem : h.mem = m.putExit vmcb exitCode exitInfo1 exitInfo2) :
    (wp (svmGetExitCode vmcb) (fun r _ => r = exitCode.toUInt64) h ∧
      wp (svmGetExitInfo1 vmcb) (fun r _ => r = exitInfo1) h ∧
      wp (svmGetExitInfo2 vmcb) (fun r _ => r = exitInfo2) h) ↔ exitInfo1.toUInt32 = 0 := by
  have h1 : h.mem.exitInfo1 vmcb = exitInfo1 := by rw [hmem, PhysMem.exitInfo1_putExit]
  have h2 : h.mem.exitInfo2 vmcb = exitInfo2 := by rw [hmem, PhysMem.exitInfo2_putExit]
  have hcode : h.mem.exitCode vmcb = exitCode := by rw [hmem, PhysMem.exitCode_putExit]
  rw [svmGetExitCode, svmGetExitInfo1, svmGetExitInfo2, wp_readWord, wp_readWord, wp_readWord, ← hcode,
    PhysMem.wordAt_exitCode_iff, h1]
  exact ⟨fun h => h.1, fun h => ⟨h, h1, h2⟩⟩

end Reads

/-- **Dispatch by the exit code.** Two VMCBs with the same exit code are handled the same just if the lower
halves of their EXITINFO1 are both zero or both not, or the code is not handled at all; and the three fields
are read as they are stored just if the lower half of EXITINFO1 is zero. -/
theorem svm_dispatch_iff (codes : SvmExitCodes) (vmcb : ℕ) :
    (∀ m m' : PhysMem, m.exitCode vmcb = m'.exitCode vmcb →
      (codes.selected m vmcb = codes.selected m' vmcb ↔
        ((m.exitInfo1 vmcb).toUInt32 = 0 ↔ (m'.exitInfo1 vmcb).toUInt32 = 0) ∨
          codes.select (m.exitCode vmcb).toUInt64 = .unhandled)) ∧
    ∀ (h : Host) (m : PhysMem) (exitCode : UInt32) (exitInfo1 exitInfo2 : UInt64),
      h.mem = m.putExit vmcb exitCode exitInfo1 exitInfo2 →
      ((wp (svmGetExitCode vmcb) (fun r _ => r = exitCode.toUInt64) h ∧
        wp (svmGetExitInfo1 vmcb) (fun r _ => r = exitInfo1) h ∧
        wp (svmGetExitInfo2 vmcb) (fun r _ => r = exitInfo2) h) ↔ exitInfo1.toUInt32 = 0) := by
  refine ⟨fun m m' hcode => ?_, fun h m exitCode exitInfo1 exitInfo2 => svmGetExit_iff⟩
  rw [codes.selected_eq, codes.selected_eq, ← hcode]
  split_ifs with h h'
  · simp [h, h']
  · simp [h, h']
  · rename_i h'
    simp [h, h', eq_comm]
  · rename_i h'
    simp [h, h']

theorem svm_dispatch_iff_npf : ∀ codes : SvmExitCodes, ∀ exitInfo2 : UInt64,
    codes.selected (bumpMem.putExit 32768 0x400 0 exitInfo2) 32768 =
      codes.selected (bumpMem.putExit 32768 0x400 0x100000000 exitInfo2) 32768 := by
  intro codes exitInfo2
  refine ((svm_dispatch_iff codes 32768).1 _ _ ?_).mpr (.inl ?_)
  · rw [PhysMem.exitCode_putExit, PhysMem.exitCode_putExit]
  · rw [PhysMem.exitInfo1_putExit, PhysMem.exitInfo1_putExit]
    decide

/-- **A page fault is not handled**: what it is about is taken for a part of the exit code. -/
theorem npf_not_handled : ∃ m m' : PhysMem, m.exitCode 32768 = 0x400 ∧ m'.exitCode 32768 = 0x400 ∧
    (SvmExitCodes.mk 0x81 0x80).selected m 32768 = .npf ∧
    (SvmExitCodes.mk 0x81 0x80).selected m' 32768 = .unhandled := by
  refine ⟨bumpMem.putExit 32768 0x400 0 0x5000, bumpMem.putExit 32768 0x400 4 0x5000, ?_, ?_, ?_, ?_⟩
  · rw [PhysMem.exitCode_putExit]
  · rw [PhysMem.exitCode_putExit]
  · rw [SvmExitCodes.selected_eq, PhysMem.exitInfo1_putExit, PhysMem.exitCode_putExit]
    decide
  · rw [SvmExitCodes.selected_eq, PhysMem.exitInfo1_putExit, if_neg (by decide)]

end NexusVM
