import NexusVM.Host

/-!
# The scheduler

The functions of `sched/scheduler.c`. The lock of a runqueue protects straight-line code and is
not modelled. The two list pointers of an entity are its links in the runqueues.

* `schedulerInit`, `schedulerShutdown`: the runqueues of the online CPUs;
* `schedulerAddVcpu`, `schedulerRemoveVcpu`, `schedulerYield`, `schedulerWake`: the queue operations;
* `schedulerCfsPickNext`, `schedulerFifoPickNext`, `schedulerSchedule`: picking a vCPU;
* `schedulerSetPriority`, `schedulerSetPolicy`: the parameters of an entity;
* `schedulerLoadBalance`: moving an entity to the least loaded queue;
* `schedulerGetCpuLoad`, `schedulerGetStats`: what is counted of a queue.
-/

namespace NexusVM

/-- `SCHED_TICK_NS`, an `int` -/
def SCHED_TICK_NS : Int32 := 10000000
/-- `SCHED_MAX_TIMESLICE` -/
def SCHED_MAX_TIMESLICE : UInt64 := 100000000

/-- What a tick adds to the virtual runtime. The product is one of two `int`s and does not fit, it is
taken to wrap around; the quotient is a `u32`. -/
def tickCharge (weight : UInt32) : UInt32 := (SCHED_TICK_NS * 1024).toUInt32 / weight

/-- An entity after a tick. -/
def SchedEntity.tick (se : SchedEntity) : SchedEntity := { se with
  runtime := se.runtime + SCHED_TICK_NS.toInt64.toUInt64
  vruntime := se.vruntime + (tickCharge se.weight).toUInt64 }

@[simp] theorem SchedEntity.tick_vcpuId (se : SchedEntity) : se.tick.vcpuId = se.vcpuId := by
  unfold tick
  rfl

/-! ## Runqueues -/

/-- The CPU whose runqueue a vCPU uses. -/
def homeCpu (vcpu : Nexusvcpu) : HostM UInt32 := do
  let h ← get
  if vcpu.physicalCpu ≥ h.gCpuCount then
    Prog.require (h.gCpuCount ≠ 0)
    return vcpu.vcpuId % h.gCpuCount
  else
    return vcpu.physicalCpu

/-- The nodes that `list_for_each` visits on the runqueue of a CPU. -/
def Host.runqueue (h : Host) (cpu : ℕ) : Option (List Node) :=
  h.links.walk (.head cpu) h.fuel (h.links.next (.head cpu))

def runqueue (cpu : ℕ) : HostM (List Node) := Prog.fetch fun h => h.runqueue cpu

/-- `list_entry` of a node that is linked as an entity. -/
def listEntry : Node → HostM Addr
  | .entity a => pure a
  | .head _ => failure

/-! ## Initialisation -/

/-- `INIT_LIST_HEAD` of the runqueues of the first `n` CPUs. -/
def initRunqueues (l : DList.Links Node) (n : ℕ) : DList.Links Node :=
  (List.range n).foldl (fun l i => initListHead l (.head i)) l

/-- `scheduler_init`, with the hypervisor that `hypervisor_get_instance` returns. -/
def schedulerInit (hv : Option Hypervisor) : HostM Result :=
  match hv with
  | none => return .errGeneric
  | some hv => do
    modify fun h => { h with gCpuCount := hv.onlineCpuCount }
    match ← calloc .runqueues hv.onlineCpuCount.toNat sizeofCpuRunqueue with
    | none =>
      modify fun h => { h with gRunqueues := none }
      return .errNoMemory
    | some runqueues =>
      modify fun h => { h with
        gRunqueues := some runqueues
        current := fun _ => none
        links := initRunqueues h.links hv.onlineCpuCount.toNat
        gSchedulerInitialized := true }
      return .ok

/-- `scheduler_shutdown` -/
def schedulerShutdown : HostM Unit := do
  let h ← get
  freeBuffer .runqueues h.gRunqueues
  modify fun h => { h with gRunqueues := none, gSchedulerInitialized := false }

/-! ## Queue operations -/

/-- `scheduler_add_vcpu` -/
def schedulerAddVcpu (vcpu : Option Addr) : HostM Result :=
  match vcpu with
  | none => return .errInvalidParam
  | some c => do
    let u ← getVcpu c
    let cpu ← homeCpu u
    match u.schedEntity with
    | some e =>
      putLinks (listAddTail (← getLinks) (.entity e) (.head cpu.toNat))
      return .ok
    | none =>
      match ← calloc .entity 1 sizeofSchedEntity with
      | none => return .errNoMemory
      | some e =>
        let vm ← getVm u.vm
        putVcpu c { u with schedEntity := some e }
        putEntity e {
          vcpuId := u.vcpuId
          vmId := vm.id
          policy := .cfs
          priority := .normal
          weight := 1024
          runtime := 0
          vruntime := 0 }
        putLinks (listAddTail (← getLinks) (.entity e) (.head cpu.toNat))
        return .ok

/-- `scheduler_remove_vcpu` -/
def schedulerRemoveVcpu (vcpu : Option Addr) : HostM Result :=
  match vcpu with
  | none => return .errInvalidParam
  | some c => do
    let u ← getVcpu c
    match u.schedEntity with
    | none => return .errInvalidParam
    | some e =>
      let _ ← homeCpu u
      putLinks (listDel (← getLinks) (.entity e))
      return .ok

/-- `scheduler_yield` -/
def schedulerYield (vcpu : Option Addr) : HostM Unit :=
  match vcpu with
  | none => return ()
  | some c => do
    let u ← getVcpu c
    match u.schedEntity with
    | none => return ()
    | some e =>
      let cpu ← homeCpu u
      putLinks (listAddTail (listDel (← getLinks) (.entity e)) (.entity e) (.head cpu.toNat))

/-- `scheduler_wake` -/
def schedulerWake (vcpu : Option Addr) : HostM Unit :=
  match vcpu with
  | none => return ()
  | some c => do
    let u ← getVcpu c
    match u.schedEntity with
    | none => return ()
    | some e =>
      let cpu ← homeCpu u
      putLinks (listAdd (listDel (← getLinks) (.entity e)) (.entity e) (.head cpu.toNat))

/-! ## Picking -/

/-- The search of a VM for the vCPU of an entity. -/
def findInVm (e : Addr) : List Addr → HostM (Option Addr)
  | [] => return none
  | c :: cs => do
    let u ← getVcpu c
    if u.schedEntity = some e then return some c else findInVm e cs

/-- The search of the VM list for the vCPU of an entity. -/
def findVcpu (e : Addr) : ℕ → Option Addr → HostM (Option Addr)
  | _, none => return none
  | 0, some _ => failure
  | fuel + 1, some a => do
    let vm ← getVm a
    match ← findInVm e vm.vcpus with
    | some c => return some c
    | none => findVcpu e fuel vm.next

/-- The vCPU whose entity is `e`, as every picker ends. -/
def vcpuOfEntity (e : Addr) : HostM (Option Addr) := do
  let hv ← getHv
  findVcpu e (← get).fuel hv.vms

/-- The loop of `scheduler_cfs_pick_next`. -/
def cfsScan : List Node → Option Addr → UInt64 → HostM (Option Addr)
  | [], best, _ => return best
  | pos :: nodes, best, minVruntime => do
    let a ← listEntry pos
    let se ← getEntity a
    if se.vruntime < minVruntime then cfsScan nodes (some a) se.vruntime
    else cfsScan nodes best minVruntime

/-- `scheduler_cfs_pick_next` -/
def schedulerCfsPickNext (cpu : ℕ) : HostM (Option Addr) := do
  match ← cfsScan (← runqueue cpu) none 0xFFFFFFFFFFFFFFFF with
  | none => return none
  | some best => vcpuOfEntity best

/-- The loop of `scheduler_fifo_pick_next`. -/
def fifoScan : List Node → Option Addr → UInt64 → HostM (Option Addr)
  | [], earliest, _ => return earliest
  | pos :: nodes, earliest, minDeadline => do
    let a ← listEntry pos
    let se ← getEntity a
    if se.policy = .fifo ∧ se.deadline < minDeadline then fifoScan nodes (some a) se.deadline
    else fifoScan nodes earliest minDeadline

/-- `scheduler_fifo_pick_next` -/
def schedulerFifoPickNext (cpu : ℕ) : HostM (Option Addr) := do
  match ← fifoScan (← runqueue cpu) none 0xFFFFFFFFFFFFFFFF with
  | none => schedulerCfsPickNext cpu
  | some earliest => vcpuOfEntity earliest

/-- The picker chosen by the policy that is read through the first pointer of the runqueue. -/
def pickByPolicy (cpu : ℕ) : HostM (Option Addr) := do
  let h ← get
  let policy ← match h.links.next (.head cpu) with
    | .entity a => SchedEntity.policy <$> getEntity a
    -- an empty queue: the record is read out of the runqueue itself
    | .head _ => pure h.vendor.headPolicy
  match policy with
  | .fifo | .rr => schedulerFifoPickNext cpu
  | _ => schedulerCfsPickNext cpu

/-- `scheduler_schedule`; the CPU is always 0. -/
def schedulerSchedule : HostM (Option Addr) := do
  let h ← get
  if !h.gSchedulerInitialized || h.gCpuCount == 0 then return none
  match h.current 0 with
  | none => pickByPolicy 0
  | some c =>
    let u ← getVcpu c
    match u.schedEntity with
    | none => pickByPolicy 0
    | some e =>
      let se ← getEntity e
      Prog.require (se.weight ≠ 0)
      let se := se.tick
      putEntity e se
      if u.running && se.vruntime < SCHED_MAX_TIMESLICE then return some c
      putLinks (listAddTail (listDel (← getLinks) (.entity e)) (.entity e) (.head 0))
      pickByPolicy 0

/-! ## Priority and policy -/

/-- The weight of a priority. -/
def VmPriority.weight : VmPriority → UInt32
  | .realtime => 4096
  | .high => 2048
  | .normal => 1024
  | .low => 512

/-- `scheduler_set_priority` -/
def schedulerSetPriority (vcpu : Option Addr) (priority : VmPriority) : HostM Unit :=
  match vcpu with
  | none => return ()
  | some c => do
    let u ← getVcpu c
    match u.schedEntity with
    | none => return ()
    | some e => putEntity e { ← getEntity e with priority := priority, weight := priority.weight }

/-- `scheduler_set_policy` -/
def schedulerSetPolicy (vcpu : Option Addr) (policy : SchedPolicy) : HostM Unit :=
  match vcpu with
  | none => return ()
  | some c => do
    let u ← getVcpu c
    match u.schedEntity with
    | none => return ()
    | some e => putEntity e { ← getEntity e with policy := policy }

/-! ## Load balancing -/

/-- The number of nodes on a runqueue, as the loops count it. -/
def queueLoad (cpu : ℕ) : HostM UInt32 := do return UInt32.ofNat (← runqueue cpu).length

/-- The search for the least loaded CPU other than `cpu`. -/
def leastLoaded (cpu : ℕ) : List ℕ → UInt32 → ℕ → HostM (UInt32 × ℕ)
  | [], minLoad, tgtCpu => return (minLoad, tgtCpu)
  | i :: is, minLoad, tgtCpu => do
    if i = cpu then leastLoaded cpu is minLoad tgtCpu
    else
      let load ← queueLoad i
      if load < minLoad then leastLoaded cpu is load i else leastLoaded cpu is minLoad tgtCpu

/-- `scheduler_load_balance` -/
def schedulerLoadBalance (cpu : UInt32) : HostM Unit := do
  let h ← get
  if cpu ≥ h.gCpuCount then return ()
  let (minLoad, tgtCpu) ← leastLoaded cpu.toNat (List.range h.gCpuCount.toNat) 0xFFFFFFFF 0
  let srcLoad ← queueLoad cpu.toNat
  if srcLoad > minLoad + 2 then
    if !listEmpty h.links (.head cpu.toNat) then
      let se := h.links.next (.head cpu.toNat)
      putLinks (listAddTail (listDel h.links se) se (.head tgtCpu))

/-- `scheduler_get_cpu_load` -/
def schedulerGetCpuLoad (cpu : UInt32) : HostM UInt32 := do
  let h ← get
  if cpu ≥ h.gCpuCount then return 0
  let count ← queueLoad cpu.toNat
  Prog.require (h.gCpuCount + 1 ≠ 0)
  return count * 100 / (h.gCpuCount + 1)

/-- What is stored of a `cpu_stats_t`. -/
structure CpuStats where
  idleTime : UInt64
  busyTime : UInt64
  contextSwitches : UInt64

/-- The loop of `scheduler_get_stats`. It counts the nodes of each queue and does not use their number; the
two times of a queue are as `calloc` has left them. -/
def collectStats : List ℕ → HostM (List CpuStats)
  | [] => return []
  | i :: is => do
    let _queueLen ← queueLoad i
    let busyTime : UInt64 := 0
    let rest ← collectStats is
    return ⟨0, busyTime, busyTime / SCHED_TICK_NS.toInt64.toUInt64⟩ :: rest

/-- `scheduler_get_stats`, with what it stores in the array -/
def schedulerGetStats (cpuStats : Option Addr) (count : UInt32) : HostM (List CpuStats) := do
  if cpuStats.isNone ∨ count = 0 then return []
  let h ← get
  collectStats (List.range (min count h.gCpuCount).toNat)

end NexusVM
