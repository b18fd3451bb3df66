import NexusVM.IoEmul
import NexusVM.Scheduler

/-!
# Detection and initialisation

`hypervisor_init` with the detection of the processor's features.

* `CpuidRegs`, `Processor`: what the processor answers;
* `detectVmxFeatures`, `detectSvmFeatures`, `detectCpuFeatures`: the fields set from these answers;
* `hypervisorInit`: the initialisation of all parts, undone where one fails;
* `detectCpuFeatures_onlineCpuCount`, **`hypervisorInit_spec`**: what the initialisation leaves.
-/

namespace NexusVM

open Prog

/-! ## The processor -/

/-- The registers after a CPUID. -/
structure CpuidRegs where
  eax : UInt32 := 0
  ebx : UInt32 := 0
  ecx : UInt32 := 0
  edx : UInt32 := 0

/-- What CPUID returns for a leaf, and what RDMSR reads. -/
structure Processor where
  cpuid : UInt32 → CpuidRegs
  rdmsr : UInt32 → UInt64

/-- Bit `i` of a register or of an MSR. -/
def bit32 (x : UInt32) (i : UInt32) : Bool := (x >>> i) &&& 1 = 1
def bit64 (x : UInt64) (i : UInt64) : Bool := (x >>> i) &&& 1 = 1

/-- The bytes of a register, as it is stored. -/
def bytes32 (x : UInt32) : List UInt8 :=
  [x.toUInt8, (x >>> 8).toUInt8, (x >>> 16).toUInt8, (x >>> 24).toUInt8]

/-! ## Detection -/

/-- `detect_vmx_features`; the flag of unrestricted guests overwrites that of VPIDs. -/
def detectVmxFeatures (p : Processor) (hv : Hypervisor) : Hypervisor :=
  let hv := { hv with hasVmx := bit32 (p.cpuid 1).ecx 5 }
  if !hv.hasVmx then hv
  else
    let hv := { hv with
      vmxRevisionId := (p.rdmsr 0x480).toUInt32
      vmxCapPinbased := p.rdmsr 0x481
      vmxCapProcbased := p.rdmsr 0x482
      vmxCapProcbased2 := p.rdmsr 0x48B
      vmxCapExit := p.rdmsr 0x483
      vmxCapEntry := p.rdmsr 0x484
      vmxCapEptVpid := p.rdmsr 0x48C }
    let hv := { hv with hasEpt := bit64 hv.vmxCapProcbased2 1 }
    let hv := { hv with hasVpid := bit64 hv.vmxCapProcbased2 5 }
    { hv with hasVpid := bit64 hv.vmxCapProcbased2 7 }

/-- `detect_svm_features` -/
def detectSvmFeatures (p : Processor) (hv : Hypervisor) : Hypervisor :=
  let hv := { hv with hasSvm := bit32 (p.cpuid 0x80000001).edx 2 }
  if !hv.hasSvm then hv
  else { hv with hasNpt := bit32 (p.cpuid 0x8000000A).edx 0 }

/-- The vendor string, with EDX and ECX in the places where `detect_cpu_features` stores them. -/
def vendorString (p : Processor) : List UInt8 :=
  bytes32 (p.cpuid 0).ebx ++ bytes32 (p.cpuid 0).ecx ++ bytes32 (p.cpuid 0).edx ++ [0]

/-- `"GenuineIntel"` -/
def genuineIntel : List UInt8 := [71, 101, 110, 117, 105, 110, 101, 73, 110, 116, 101, 108, 0]
/-- `"AuthenticAMD"` -/
def authenticAMD : List UInt8 := [65, 117, 116, 104, 101, 110, 116, 105, 99, 65, 77, 68, 0]

/-- The vendor's part of `detect_cpu_features`. -/
def detectVendor (p : Processor) (hv : Hypervisor) : Hypervisor :=
  if strncmp (vendorString p) genuineIntel 12 = some 0 then
    detectVmxFeatures p { hv with cpuVendor := .intel }
  else if strncmp (vendorString p) authenticAMD 12 = some 0 then
    detectSvmFeatures p { hv with cpuVendor := .amd }
  else { hv with cpuVendor := .unknown }

/-- `detect_cpu_features` -/
def detectCpuFeatures (p : Processor) (hv : Hypervisor) : Hypervisor :=
  let r₁ := p.cpuid 1
  let r₇ := p.cpuid 7
  { detectVendor p hv with
    hasRdrand := bit32 r₁.edx 30
    hasSmep := bit32 r₇.ebx 7
    hasSmap := bit32 r₇.ebx 20
    hasFsgsbase := bit32 r₇.ebx 0
    hasMpx := bit32 r₇.ebx 3
    hasPcid := bit32 r₇.ebx 17
    hasUmip := bit32 r₇.ebx 2
    hasPku := bit32 r₇.ebx 3
    hasXsaves := bit32 r₇.ecx 3
    logicalCpuCount := (r₁.ebx >>> 16) &&& 0xFF }

/-! ## Initialisation -/

/-- `hypervisor_init`. `hypercall_init` is not part of the program: `hypercallInit` is its result.
`ept_init` does nothing that is read here. -/
def hypervisorInit (p : Processor) (hypercallInit : Result) : HostM Result := do
  let h ← get
  if h.gInitialized then return .ok
  match ← calloc .hypervisor 1 sizeofHypervisor with
  | none => return .errNoMemory
  | some block =>
    let hv := detectCpuFeatures p { nextVmId := 0 }
    putHv hv
    if !hv.hasVmx && !hv.hasSvm then
      freeBuffer .hypervisor (some block)
      return .errCpuNotSupported
    let result ← schedulerInit (some hv)
    if result ≠ .ok then
      freeBuffer .hypervisor (some block)
      return result
    if hypercallInit ≠ .ok then
      schedulerShutdown
      freeBuffer .hypervisor (some block)
      return hypercallInit
    let result ← ioEmulInit
    if result ≠ .ok then
      schedulerShutdown
      freeBuffer .hypervisor (some block)
      return result
    putHv { hv with vms := none, vmCount := 0, nextVmId := 1 }
    modify fun h => { h with gInitialized := true }
    return .ok

/-! ## What it leaves -/

theorem detectVmxFeatures_onlineCpuCount (p : Processor) (hv : Hypervisor) :
    (detectVmxFeatures p hv).onlineCpuCount = hv.onlineCpuCount := by
  unfold detectVmxFeatures
  dsimp only
  split_ifs <;> rfl

theorem detectSvmFeatures_onlineCpuCount (p : Processor) (hv : Hypervisor) :
    (detectSvmFeatures p hv).onlineCpuCount = hv.onlineCpuCount := by
  unfold detectSvmFeatures
  dsimp only
  split_ifs <;> rfl

theorem detectCpuFeatures_onlineCpuCount (p : Processor) (hv : Hypervisor) :
    (detectCpuFeatures p hv).onlineCpuCount = hv.onlineCpuCount := by
  show (detectVendor p hv).onlineCpuCount = hv.onlineCpuCount
  unfold detectVendor
  split_ifs
  · exact detectVmxFeatures_onlineCpuCount p _
  · exact detectSvmFeatures_onlineCpuCount p _
  · rfl

/-- An initialised hypervisor that knows of no processor and has no VM yet. -/
structure NoCpus (h : Host) : Prop where
  initialized : h.gInitialized = true
  online : h.hv.onlineCpuCount = 0
  cpus : h.gCpuCount = 0

variable {h : Host} {p : Processor} {hypercallInit : Result}

theorem schedulerInit_spec {hv : Hypervisor} : wp (schedulerInit (some hv)) (fun _ h' =>
    h'.gCpuCount = hv.onlineCpuCount ∧ h'.vms = h.vms ∧ h'.vcpus = h.vcpus) h := by
  simp only [schedulerInit, wp_bind, wp_modify]
  refine wp_calloc (fun b hf => ?_) ?_
  · dsimp only
    rw [wp_bind, wp_modify, wp_pure]
    exact ⟨rfl, rfl, rfl⟩
  · dsimp only
    rw [wp_bind, wp_modify, wp_pure]
    exact ⟨rfl, rfl, rfl⟩

/-- **`hypervisor_init`.** Whatever the processor answers, a hypervisor that was initialised counts
no processor that is online, and so has no runqueue. -/
theorem hypervisorInit_spec (hstart : h.gInitialized = false) :
    wlp (hypervisorInit p hypercallInit) (fun r h' => r = .ok →
      NoCpus h' ∧ h'.hv.vms = none ∧ h'.vms = h.vms ∧ h'.vcpus = h.vcpus) h := by
  simp only [hypervisorInit, wlp_bind, wlp_get, hstart, Bool.false_eq_true, if_false]
  refine (wp_calloc (fun block hf => ?_) ?_).wlp
  swap
  · dsimp only
    rw [wlp_pure]
    rintro ⟨⟩
  have hzero := detectCpuFeatures_onlineCpuCount p { nextVmId := 0 }
  obtain ⟨hv, hdetect⟩ : ∃ hv, detectCpuFeatures p { nextVmId := 0 } = hv := ⟨_, rfl⟩
  rw [hdetect] at hzero ⊢
  -- every path that fails gives an error
  have hfail : ∀ {g : Host} {r : Result} {x : HostM Unit}, r ≠ .ok → wlp (x >>= fun _ => pure r)
      (fun r h' => r = .ok → NoCpus h' ∧ h'.hv.vms = none ∧ h'.vms = h.vms ∧ h'.vcpus = h.vcpus)
        g := by
    intro g r x hr
    rw [wlp_bind]
    intro _ g' _
    rw [wlp_pure]
    exact fun hok => absurd hok hr
  dsimp only
  rw [wlp_bind, wlp_putHv]
  refine wlp_ite (fun _ => hfail (by decide)) fun _ => ?_
  rw [wlp_bind]
  refine wlp_mono schedulerInit_spec.wlp ?_
  rintro r h₁ ⟨hcpus, hvms, hvcpus⟩
  refine wlp_ite (fun hr => hfail hr) fun _ => wlp_ite (fun hr => ?_) fun _ => ?_
  · rw [wlp_bind]
    intro _ h₂ _
    exact hfail hr
  rw [wlp_bind]
  refine wlp_mono ioEmulInit_spec.wlp ?_
  rintro _ _ ⟨rfl, m, i, rfl, -, -⟩
  refine wlp_ite (fun hr => absurd rfl hr) fun _ => ?_
  simp only [wlp_bind, wlp_putHv, wlp_modify, wlp_pure]
  rintro -
  exact ⟨⟨rfl, hzero, hcpus.trans hzero⟩, rfl, hvms, hvcpus⟩

end NexusVM
