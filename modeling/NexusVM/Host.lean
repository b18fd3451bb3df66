import NexusVM.Memory
import NexusVM.Utils
import NexusVM.Devices
import NexusVM.Lib.Stdio
import Mathlib.Tactic.Simps.Basic

/-!
# The state of the hypervisor

All objects the hypervisor allocates, the pointers of its lists, its static variables, and the
answers of what lies outside the program.

* `Node`: what the runqueues link;
* `Vendor`, `Host`: the outcomes of the vendor setup, and the state;
* `HostM`: the functions of the hypervisor; reading an object that is not there is undefined;
* `calloc`, `freeVm`, `freeVcpu`, `freeBuffer`: allocation of objects and of buffers;
* `Boot`, `bootHost`: the state after initialisation.
-/

namespace NexusVM

/-- A node of a runqueue: the `list_head` of a CPU, or the one in a scheduling entity. -/
inductive Node
  | head (cpu : ℕ)
  | entity (a : Addr)
deriving DecidableEq

theorem Node.entity_injective : Function.Injective Node.entity := fun _ _ heq => Node.entity.inj heq

/-- What the program gets from the processor. -/
structure Vendor where
  /-- The result of each vendor setup of a vCPU. -/
  setup : ℕ → Result
  /-- Whether `vmx_on` fails in that setup. -/
  vmxOnFails : ℕ → Bool
  /-- What is read as the policy of an entity where the queue has none. -/
  headPolicy : SchedPolicy

/-- The state. -/
structure Host where
  gInitialized : Bool
  hv : Hypervisor
  gSchedulerInitialized : Bool
  gRunqueues : Option Addr := none
  gCpuCount : UInt32
  /-- `current` of each runqueue. -/
  current : ℕ → Option Addr
  mem : PhysMem
  vms : Addr → Option Nexusvm
  vcpus : Addr → Option Nexusvcpu
  entities : Addr → Option SchedEntity
  sessions : Addr → Option MigrationSession
  links : DList.Links Node
  disk : Stdio.Disk
  io : IoEmul := {}
  vendor : Vendor
  setups : ℕ

abbrev HostM : Type → Type := Prog Host

namespace Host

/-! ## Updates -/

@[simps -fullyApplied]
def setHv (h : Host) (hv : Hypervisor) : Host := { h with hv := hv }

@[simps -fullyApplied]
def setMem (h : Host) (m : PhysMem) : Host := { h with mem := m }

@[simps -fullyApplied]
def setLinks (h : Host) (l : DList.Links Node) : Host := { h with links := l }

@[simps -fullyApplied]
def setDisk (h : Host) (d : Stdio.Disk) : Host := { h with disk := d }

@[simps -fullyApplied]
def setIo (h : Host) (i : IoEmul) : Host := { h with io := i }

@[simps -fullyApplied]
def setVm (h : Host) (a : Addr) (v : Option Nexusvm) : Host :=
  { h with vms := Function.update h.vms a v }

@[simps -fullyApplied]
def setVcpu (h : Host) (a : Addr) (u : Option Nexusvcpu) : Host :=
  { h with vcpus := Function.update h.vcpus a u }

@[simps -fullyApplied]
def setEntity (h : Host) (a : Addr) (e : Option SchedEntity) : Host :=
  { h with entities := Function.update h.entities a e }

@[simps -fullyApplied]
def setSession (h : Host) (a : Addr) (s : Option MigrationSession) : Host :=
  { h with sessions := Function.update h.sessions a s }

@[simps -fullyApplied]
def countSetup (h : Host) : Host := { h with setups := h.setups + 1 }

@[simp] theorem setMem_setMem (h : Host) (m m' : PhysMem) :
    (h.setMem m).setMem m' = h.setMem m' := rfl

@[simp] theorem setVcpu_setMem (h : Host) (a : Addr) (u : Option Nexusvcpu) (m : PhysMem) :
    (h.setVcpu a u).setMem m = (h.setMem m).setVcpu a u := rfl

@[simp] theorem setVm_setMem (h : Host) (a : Addr) (v : Option Nexusvm) (m : PhysMem) :
    (h.setVm a v).setMem m = (h.setMem m).setVm a v := rfl

@[simp] theorem setVcpu_setVcpu (h : Host) (a : Addr) (u w : Option Nexusvcpu) :
    (h.setVcpu a u).setVcpu a w = h.setVcpu a w := by
  simp only [setVcpu, Function.update_idem]

@[simp] theorem setVm_setVm (h : Host) (a : Addr) (v w : Option Nexusvm) :
    (h.setVm a v).setVm a w = h.setVm a w := by
  simp only [setVm, Function.update_idem]

theorem setVcpu_self (h : Host) (a : Addr) (u : Option Nexusvcpu) : (h.setVcpu a u).vcpus a = u :=
  Function.update_self _ _ _

theorem setVm_self (h : Host) (a : Addr) (v : Option Nexusvm) : (h.setVm a v).vms a = v :=
  Function.update_self _ _ _

/-- So many nodes or VMs cannot be met without meeting one twice: a loop that takes as many steps
does not end. -/
def fuel (h : Host) : ℕ := h.mem.heap.live.length + h.gCpuCount.toNat + 1

end Host

/-! ## Access to objects -/

def getVm (a : Addr) : HostM Nexusvm := Prog.fetch fun h => h.vms a

def putVm (a : Addr) (v : Nexusvm) : HostM Unit := modify fun h => h.setVm a (some v)

def getVcpu (a : Addr) : HostM Nexusvcpu := Prog.fetch fun h => h.vcpus a

def putVcpu (a : Addr) (u : Nexusvcpu) : HostM Unit := modify fun h => h.setVcpu a (some u)

def getEntity (a : Addr) : HostM SchedEntity := Prog.fetch fun h => h.entities a

def putEntity (a : Addr) (e : SchedEntity) : HostM Unit := modify fun h => h.setEntity a (some e)

def getSession (a : Addr) : HostM MigrationSession := Prog.fetch fun h => h.sessions a

def putSession (a : Addr) (s : MigrationSession) : HostM Unit :=
  modify fun h => h.setSession a (some s)

def getHv : HostM Hypervisor := Prog.fetch fun h => if h.gInitialized then some h.hv else none

def putHv (hv : Hypervisor) : HostM Unit := modify fun h => h.setHv hv

def getLinks : HostM (DList.Links Node) := do return (← get).links

def putLinks (l : DList.Links Node) : HostM Unit := modify fun h => h.setLinks l

def onMem {α : Type} (x : MemM α) : HostM α := Prog.zoom Host.mem Host.setMem x

def onDevices {α : Type} (x : DevM α) : HostM α :=
  Prog.zoom (fun h => h.io.devices) (fun h d => h.setIo { h.io with devices := d }) x

def onDisk {α : Type} (x : Prog Stdio.Disk α) : HostM α := Prog.zoom Host.disk Host.setDisk x

/-! ## Allocation -/

/-- `calloc` -/
def calloc (kind : BlockKind) (count size : ℕ) : HostM (Option Addr) :=
  onMem (alignedAlloc kind 16 (count * size))

/-- `free` of a buffer -/
def freeBuffer (kind : BlockKind) (p : Option Addr) : HostM Unit :=
  match p with
  | none => pure ()
  | some a => onMem (freeBlock kind a)

/-- `free` of a VM -/
def freeVm (a : Addr) : HostM Unit := do
  onMem (freeBlock .vm a)
  modify fun h => h.setVm a none

/-- `free` of a vCPU -/
def freeVcpu (a : Addr) : HostM Unit := do
  onMem (freeBlock .vcpu a)
  modify fun h => h.setVcpu a none

/-! ## Rules -/

namespace Host

/-- The state after a request was served. -/
@[simps! -fullyApplied gInitialized hv gSchedulerInitialized gRunqueues gCpuCount current vms vcpus entities
  sessions links disk io vendor setups mem_heap mem_tables mem_ram]
def grant (h : Host) (b : Block BlockKind) : Host :=
  h.setMem { h.mem with heap := h.mem.heap.grant b }

/-- The state after a request was refused. -/
@[simps! -fullyApplied gInitialized hv gSchedulerInitialized gRunqueues gCpuCount current vms vcpus entities
  sessions links disk io vendor setups mem_heap mem_tables mem_ram]
def refuse (h : Host) : Host := h.setMem { h.mem with heap := h.mem.heap.refuse }

/-- The state after a buffer was given back. -/
@[simps! -fullyApplied gInitialized hv gSchedulerInitialized gRunqueues gCpuCount current vms vcpus entities
  sessions links disk io vendor setups mem_heap mem_tables mem_ram]
def release (h : Host) (kind : BlockKind) (a : Addr) : Host :=
  h.setMem { h.mem with heap := h.mem.heap.release kind a }

end Host

section Rules

open Prog

variable {α : Type} {h : Host} {a : Addr}

@[simp] theorem wp_getVm {Q : Nexusvm → Host → Prop} :
    wp (getVm a) Q h ↔ ∃ v, h.vms a = some v ∧ Q v h := wp_fetch
@[simp] theorem wlp_getVm {Q : Nexusvm → Host → Prop} :
    wlp (getVm a) Q h ↔ ∀ v, h.vms a = some v → Q v h := wlp_fetch

@[simp] theorem wp_putVm {v : Nexusvm} {Q : Unit → Host → Prop} :
    wp (putVm a v) Q h ↔ Q () (h.setVm a (some v)) := wp_modify _
@[simp] theorem wlp_putVm {v : Nexusvm} {Q : Unit → Host → Prop} :
    wlp (putVm a v) Q h ↔ Q () (h.setVm a (some v)) := wlp_modify _

@[simp] theorem wp_getVcpu {Q : Nexusvcpu → Host → Prop} :
    wp (getVcpu a) Q h ↔ ∃ u, h.vcpus a = some u ∧ Q u h := wp_fetch
@[simp] theorem wlp_getVcpu {Q : Nexusvcpu → Host → Prop} :
    wlp (getVcpu a) Q h ↔ ∀ u, h.vcpus a = some u → Q u h := wlp_fetch

@[simp] theorem wp_putVcpu {u : Nexusvcpu} {Q : Unit → Host → Prop} :
    wp (putVcpu a u) Q h ↔ Q () (h.setVcpu a (some u)) := wp_modify _
@[simp] theorem wlp_putVcpu {u : Nexusvcpu} {Q : Unit → Host → Prop} :
    wlp (putVcpu a u) Q h ↔ Q () (h.setVcpu a (some u)) := wlp_modify _

@[simp] theorem wp_getEntity {Q : SchedEntity → Host → Prop} :
    wp (getEntity a) Q h ↔ ∃ e, h.entities a = some e ∧ Q e h := wp_fetch
@[simp] theorem wlp_getEntity {Q : SchedEntity → Host → Prop} :
    wlp (getEntity a) Q h ↔ ∀ e, h.entities a = some e → Q e h := wlp_fetch

@[simp] theorem wp_putEntity {e : SchedEntity} {Q : Unit → Host → Prop} :
    wp (putEntity a e) Q h ↔ Q () (h.setEntity a (some e)) := wp_modify _
@[simp] theorem wlp_putEntity {e : SchedEntity} {Q : Unit → Host → Prop} :
    wlp (putEntity a e) Q h ↔ Q () (h.setEntity a (some e)) := wlp_modify _

@[simp] theorem wp_getHv {Q : Hypervisor → Host → Prop} :
    wp getHv Q h ↔ h.gInitialized = true ∧ Q h.hv h := by
  rw [getHv, wp_fetch]
  split_ifs with hi <;> simp [hi]
@[simp] theorem wlp_getHv {Q : Hypervisor → Host → Prop} :
    wlp getHv Q h ↔ (h.gInitialized = true → Q h.hv h) := by
  rw [getHv, wlp_fetch]
  split_ifs with hi <;> simp [hi]

@[simp] theorem wp_putHv {hv : Hypervisor} {Q : Unit → Host → Prop} :
    wp (putHv hv) Q h ↔ Q () (h.setHv hv) := wp_modify _
@[simp] theorem wlp_putHv {hv : Hypervisor} {Q : Unit → Host → Prop} :
    wlp (putHv hv) Q h ↔ Q () (h.setHv hv) := wlp_modify _

@[simp] theorem wp_getLinks {Q : DList.Links Node → Host → Prop} :
    wp getLinks Q h ↔ Q h.links h := by
  simp [getLinks]
@[simp] theorem wlp_getLinks {Q : DList.Links Node → Host → Prop} :
    wlp getLinks Q h ↔ Q h.links h := by
  simp [getLinks]

@[simp] theorem wp_putLinks {l : DList.Links Node} {Q : Unit → Host → Prop} :
    wp (putLinks l) Q h ↔ Q () (h.setLinks l) := wp_modify _
@[simp] theorem wlp_putLinks {l : DList.Links Node} {Q : Unit → Host → Prop} :
    wlp (putLinks l) Q h ↔ Q () (h.setLinks l) := wlp_modify _

@[simp] theorem wp_onMem {x : MemM α} {Q : α → Host → Prop} :
    wp (onMem x) Q h ↔ wp x (fun b m => Q b (h.setMem m)) h.mem := wp_zoom
@[simp] theorem wlp_onMem {x : MemM α} {Q : α → Host → Prop} :
    wlp (onMem x) Q h ↔ wlp x (fun b m => Q b (h.setMem m)) h.mem := wlp_zoom

@[simp] theorem wp_onDevices {x : DevM α} {Q : α → Host → Prop} :
    wp (onDevices x) Q h ↔
      wp x (fun b d => Q b (h.setIo { h.io with devices := d })) h.io.devices := wp_zoom

@[simp] theorem wp_onDisk {x : Prog Stdio.Disk α} {Q : α → Host → Prop} :
    wp (onDisk x) Q h ↔ wp x (fun b d => Q b (h.setDisk d)) h.disk := wp_zoom
@[simp] theorem wlp_onDisk {x : Prog Stdio.Disk α} {Q : α → Host → Prop} :
    wlp (onDisk x) Q h ↔ wlp x (fun b d => Q b (h.setDisk d)) h.disk := wlp_zoom

theorem run_onDisk {x : Prog Stdio.Disk α} {b : α} {d : Stdio.Disk} (hrun : x.run h.disk = some (b, d)) :
    (onDisk x).run h = some (b, h.setDisk d) := by
  rw [← wp_eq_iff, wp_onDisk]
  exact wp_of_run hrun ⟨rfl, rfl⟩

theorem wp_alignedAlloc {kind : BlockKind} {align size : ℕ} {Q : Option Addr → Host → Prop}
    (hsome : ∀ b, h.mem.heap.Fits align ⟨kind, b, size⟩ → Q (some b) (h.grant ⟨kind, b, size⟩))
    (hnone : Q none h.refuse) : wp (onMem (alignedAlloc kind align size)) Q h := by
  rw [wp_onMem, alignedAlloc, onHeap, wp_zoom]
  exact Heap.wp_alloc (fun b _ hf => hsome b hf) fun _ => hnone

theorem wp_alignedAlloc_iff {kind : BlockKind} {align size : ℕ} {Q : Option Addr → Host → Prop} :
    wp (onMem (alignedAlloc kind align size)) Q h ↔
      (∀ b, h.mem.heap.answer h.mem.heap.asked = some b → h.mem.heap.Fits align ⟨kind, b, size⟩ →
        Q (some b) (h.grant ⟨kind, b, size⟩)) ∧
      (¬ h.mem.heap.Serves kind align size 1 → Q none h.refuse) := by
  rw [wp_onMem, alignedAlloc, onHeap, wp_zoom]
  exact Heap.wp_alloc_iff

theorem wp_alignedAlloc_first {kind : BlockKind} {align size : ℕ} {Q : Option Addr → Host → Prop}
    (hsome : ∀ a, h.mem.heap.Fits align ⟨kind, a, size⟩ →
      (∀ rs, h.mem.heap.ServesAll ((kind, align, size) :: rs) ↔
        (h.grant ⟨kind, a, size⟩).mem.heap.ServesAll rs) → Q (some a) (h.grant ⟨kind, a, size⟩))
    (hnone : (∀ rs, ¬ h.mem.heap.ServesAll ((kind, align, size) :: rs)) → Q none h.refuse) :
    wp (onMem (alignedAlloc kind align size)) Q h := by
  rw [wp_onMem, alignedAlloc, onHeap, wp_zoom]
  exact Heap.wp_alloc_first (fun a hf hs => hsome a hf hs) hnone

theorem wp_calloc {kind : BlockKind} {count size : ℕ} {Q : Option Addr → Host → Prop}
    (hsome : ∀ b, h.mem.heap.Fits 16 ⟨kind, b, count * size⟩ →
      Q (some b) (h.grant ⟨kind, b, count * size⟩))
    (hnone : Q none h.refuse) : wp (calloc kind count size) Q h :=
  wp_alignedAlloc hsome hnone

@[simp] theorem wp_freeBuffer_none {kind : BlockKind} {Q : Unit → Host → Prop} :
    wp (freeBuffer kind none) Q h ↔ Q () h := wp_pure _
@[simp] theorem wp_freeBuffer_some {kind : BlockKind} {Q : Unit → Host → Prop} :
    wp (freeBuffer kind (some a)) Q h ↔ Q () (h.release kind a) := by
  rw [freeBuffer, wp_onMem, freeBlock, wp_modify]
  rfl

@[simp] theorem wp_freeVm {Q : Unit → Host → Prop} :
    wp (freeVm a) Q h ↔ Q () ((h.release .vm a).setVm a none) := by
  rw [freeVm, wp_bind, wp_onMem, freeBlock, wp_modify, wp_modify]
  rfl

@[simp] theorem wp_freeVcpu {Q : Unit → Host → Prop} :
    wp (freeVcpu a) Q h ↔ Q () ((h.release .vcpu a).setVcpu a none) := by
  rw [freeVcpu, wp_bind, wp_onMem, freeBlock, wp_modify, wp_modify]
  rfl

end Rules

/-! ## The state after initialisation -/

/-- An initialised hypervisor without VMs, on at least one CPU. -/
structure Boot (h : Host) : Prop where
  initialized : h.gInitialized = true
  schedulerInitialized : h.gSchedulerInitialized = true
  cpus : h.gCpuCount ≠ 0
  online : h.hv.onlineCpuCount = h.gCpuCount
  first : h.hv.vms = none
  count : h.hv.vmCount = 0
  nextVmId : h.hv.nextVmId = 1
  current : h.current = fun _ => none
  vms : h.vms = fun _ => none
  vcpus : h.vcpus = fun _ => none
  entities : h.entities = fun _ => none
  heads : ∀ i < h.gCpuCount.toNat, h.links.next (.head i) = .head i ∧ h.links.prev (.head i) = .head i
  sound : h.mem.heap.Sound

/-- An initialised hypervisor without VMs, on `n` CPUs of a vendor. -/
def bootHost (n : UInt32) (cpuVendor : CpuVendor) : Host where
  gInitialized := true
  hv := { cpuVendor := cpuVendor, onlineCpuCount := n }
  gSchedulerInitialized := true
  gCpuCount := n
  current _ := none
  mem := bumpMem
  vms _ := none
  vcpus _ := none
  entities _ := none
  sessions _ := none
  links := { next := id, prev := id }
  disk := {
    files _ := none
    streams _ := none
    opened := 0
    calls := 0
    opens _ := true
    accepts _ n := n
    spills _ _ n := n }
  vendor := { setup _ := .ok, vmxOnFails _ := false, headPolicy := .fifo }
  setups := 0

theorem boot_bootHost {n : UInt32} (hn : n ≠ 0) (cpuVendor : CpuVendor) :
    Boot (bootHost n cpuVendor) :=
  ⟨rfl, rfl, hn, rfl, rfl, rfl, rfl, rfl, rfl, rfl, rfl, fun _ _ => ⟨rfl, rfl⟩, List.Pairwise.nil⟩

end NexusVM
