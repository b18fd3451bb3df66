import NexusVM.Lib.Codec
import NexusVM.Types

/-!
# Records as bytes

How the records that are written to files and sent to other hosts lie in memory, under the x86-64
System V layout. The bytes of a record that belong to no field are zero.

* `cpuStateCodec`, `vmConfigCodec`: the state of a vCPU, and the configuration of a VM;
* `RegionRecord`, `regionRecordCodec`: an entry of the region table, with its type as a number;
* `CheckpointHeader`, `checkpointHeaderCodec`, `pciConfigCodec`: what only checkpoints hold;
* `size_codecs`: each takes as many bytes as its record.
-/

namespace NexusVM

open Codec

/-! ## The state of a vCPU -/

/-- `guest_gprs_t` -/
def guestGprsCodec : Codec GuestGprs :=
  (vec u64 18).iso
    (fun v => ⟨v[0], v[1], v[2], v[3], v[4], v[5], v[6], v[7], v[8], v[9], v[10], v[11], v[12], v[13],
      v[14], v[15], v[16], v[17]⟩)
    (fun g => #v[g.rax, g.rbx, g.rcx, g.rdx, g.rsi, g.rdi, g.rbp, g.rsp, g.r8, g.r9, g.r10, g.r11,
      g.r12, g.r13, g.r14, g.r15, g.rip, g.rflags])
    fun _ => rfl

/-- `segment_reg_t` -/
def segmentRegCodec : Codec SegmentReg :=
  (pair u16 (pair (pad 6) (pair u64 (pair u32 u32)))).iso
    (fun (selector, _, base, limit, attributes) => ⟨selector, base, limit, attributes⟩)
    (fun s => (s.selector, (), s.base, s.limit, s.attributes))
    fun _ => rfl

/-- `guest_control_regs_t` -/
def guestControlRegsCodec : Codec GuestControlRegs :=
  (vec u64 5).iso (fun v => ⟨v[0], v[1], v[2], v[3], v[4]⟩)
    (fun c => #v[c.cr0, c.cr2, c.cr3, c.cr4, c.cr8]) fun _ => rfl

/-- `guest_debug_regs_t` -/
def guestDebugRegsCodec : Codec GuestDebugRegs :=
  (vec u64 6).iso (fun v => ⟨v[0], v[1], v[2], v[3], v[4], v[5]⟩)
    (fun d => #v[d.dr0, d.dr1, d.dr2, d.dr3, d.dr6, d.dr7]) fun _ => rfl

/-- `guest_msrs_t` -/
def guestMsrsCodec : Codec GuestMsrs :=
  (vec u64 16).iso
    (fun v => ⟨v[0], v[1], v[2], v[3], v[4], v[5], v[6], v[7], v[8], v[9], v[10], v[11], v[12], v[13],
      v[14], v[15]⟩)
    (fun m => #v[m.ia32Efer, m.ia32Pat, m.ia32FsBase, m.ia32GsBase, m.ia32KernelGsBase, m.ia32Star,
      m.ia32Lstar, m.ia32Cstar, m.ia32Sfmask, m.ia32SysenterCs, m.ia32SysenterEsp, m.ia32SysenterEip,
      m.ia32PerfGlobalCtrl, m.ia32Debugctl, m.ia32MtrrCap, m.ia32MtrrDefType])
    fun _ => rfl

/-- `cpu_state_t` -/
def cpuStateCodec : Codec CpuState :=
  (pair guestGprsCodec (pair guestControlRegsCodec (pair guestDebugRegsCodec (pair guestMsrsCodec
    (pair (vec segmentRegCodec 10) (vec u64 5)))))).iso
    (fun (gprs, cr, dr, msrs, s, v) => ⟨gprs, cr, dr, msrs, s[0], s[1], s[2], s[3], s[4], s[5], s[6],
      s[7], s[8], s[9], v[0], v[1], v[2], v[3], v[4]⟩)
    (fun c => (c.gprs, c.cr, c.dr, c.msrs,
      #v[c.cs, c.ds, c.es, c.fs, c.gs, c.ss, c.tr, c.ldt, c.gdtBase, c.idtBase],
      #v[c.gdtrLimit, c.idtrLimit, c.pendingExceptions, c.activeEvents, c.interruptibilityState]))
    fun _ => rfl

/-! ## The configuration of a VM -/

/-- `vm_config_t` -/
def vmConfigCodec : Codec VmConfig :=
  (pair (vec u8 64) (pair (vec u32 2) (pair u64 (pair u32 (pair (pad 4) (pair (vec u64 5)
    (pair (vec u8 256) (pair u64 (pair (vec bool 9) (pad 7)))))))))).iso
    (fun (name, ids, memorySize, memoryRegionCount, _, v, kernelCmdline, eptp, b, _) =>
      ⟨name, ids[0], ids[1], memorySize, memoryRegionCount, v[0], v[1], v[2], v[3], v[4],
        kernelCmdline, eptp, b[0], b[1], b[2], b[3], b[4], b[5], b[6], b[7], b[8]⟩)
    (fun c => (c.name, #v[c.id, c.vcpuCount], c.memorySize, c.memoryRegionCount, (),
      #v[c.memoryRegions, c.vcpuConfigs, c.kernelEntry, c.initrdAddr, c.initrdSize],
      c.kernelCmdline, c.eptp,
      #v[c.nestedVirtualization, c.unrestrictedGuest, c.longMode, c.pae, c.apic, c.x2apic,
        c.vpidEnabled, c.eptEnabled, c.preemptionTimer], ()))
    fun _ => rfl

/-! ## Memory regions -/

/-- A `memory_region_t` as it lies in memory: its type can be any number, its pointers too. -/
structure RegionRecord where
  guestPhys : UInt64
  hostPhys : UInt64
  size : UInt64
  type : UInt32
  flags : UInt32
  name : UInt64
  next : UInt64
deriving DecidableEq

def regionRecordCodec : Codec RegionRecord :=
  (pair (vec u64 3) (pair (vec u32 2) (vec u64 2))).iso
    (fun (v, w, p) => ⟨v[0], v[1], v[2], w[0], w[1], p[0], p[1]⟩)
    (fun r => (#v[r.guestPhys, r.hostPhys, r.size], #v[r.type, r.flags], #v[r.name, r.next]))
    fun _ => rfl

/-- The bytes of a pointer. -/
def pointerWord (p : Option Addr) : UInt64 := UInt64.ofNat (p.getD 0)

def MemoryRegion.record (r : MemoryRegion) : RegionRecord where
  guestPhys := r.guestPhys
  hostPhys := r.hostPhys
  size := r.size
  type := r.type.code
  flags := r.flags
  name := pointerWord r.name
  next := pointerWord r.next

theorem MemoryRegionType.code_eq_zero {t : MemoryRegionType} : t.code = 0 ↔ t = .ram := by
  cases t <;> decide

/-! ## Checkpoints -/

/-- `checkpoint_header_t` -/
structure CheckpointHeader where
  magic : Vector UInt8 8
  version : UInt32
  checksum : UInt32 := 0
  timestamp : UInt64
  vmId : UInt64
  vcpuCount : UInt32
  memoryRegions : UInt32
  totalSize : UInt64 := 0
  memorySize : UInt64
  vmName : Vector UInt8 64
  state : UInt32
deriving DecidableEq

def checkpointHeaderCodec : Codec CheckpointHeader :=
  (pair (vec u8 8) (pair (vec u32 2) (pair (vec u64 2) (pair (vec u32 2) (pair (vec u64 2)
    (pair (vec u8 64) (pair u32 (pad 4)))))))).iso
    (fun (magic, w, x, y, z, vmName, state, _) =>
      ⟨magic, w[0], w[1], x[0], x[1], y[0], y[1], z[0], z[1], vmName, state⟩)
    (fun r => (r.magic, #v[r.version, r.checksum], #v[r.timestamp, r.vmId],
      #v[r.vcpuCount, r.memoryRegions], #v[r.totalSize, r.memorySize], r.vmName, r.state, ()))
    fun _ => rfl

/-- `pci_config_space_t` -/
def pciConfigCodec : Codec PciConfigSpace := vec u8 64

/-- **Every record takes as many bytes as `sizeof` says.** -/
theorem size_codecs : cpuStateCodec.size = sizeofCpuState ∧ vmConfigCodec.size = sizeofVmConfig ∧
    regionRecordCodec.size = sizeofMemoryRegion ∧
    checkpointHeaderCodec.size = sizeofCheckpointHeader ∧
    pciConfigCodec.size = sizeofPciConfigSpace :=
  ⟨rfl, rfl, rfl, rfl, rfl⟩

end NexusVM
