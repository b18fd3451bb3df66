import NexusVM.Balancing
import NexusVM.QueueFamilies
import NexusVM.Lib.Sections

/-!
# The scheduler, one pointer at a time

The functions of `sched/scheduler.c` as threads see them: with the spin lock of every runqueue, and with each
access to a list pointer as a step of its own. The vCPUs stay on their CPUs, and what is no list pointer is the
thread's own, as is an entity that it allocates.

* `Pointer`, `pointers`: the memory that the threads share;
* `listAddTail`, `listAdd`, `listDel`, `countNodes`: the list macros;
* `schedulerAddVcpu`, …, `schedulerLoadBalance`: the functions;
* `Call`, `Call.known`, `runCalls`: a thread that makes some calls, and collects what they return;
* **`listAddTail_runs`**, `listAdd_runs`, `listDel_runs`, **`countNodes_runs`**: undisturbed, they do to the
  lists what they are to do.
-/

namespace NexusVM.Threaded

open Threads

/-! ## Memory -/

/-- A list pointer. -/
inductive Pointer
  | next (x : Node)
  | prev (x : Node)
deriving DecidableEq

/-- Whose pointer it is. -/
def Pointer.node : Pointer → Node
  | .next x | .prev x => x

/-- The pointers in memory. -/
def pointers (l : DList.Links Node) : Pointer → Node
  | .next x => l.next x
  | .prev x => l.prev x

/-- The pointers read back. -/
def linksOf (m : Pointer → Node) : DList.Links Node where
  next x := m (.next x)
  prev x := m (.prev x)

@[simp] theorem linksOf_pointers (l : DList.Links Node) : linksOf (pointers l) = l := rfl

@[simp] theorem pointers_next (l : DList.Links Node) (x : Node) : pointers l (.next x) = l.next x := rfl
@[simp] theorem pointers_prev (l : DList.Links Node) (x : Node) : pointers l (.prev x) = l.prev x := rfl

theorem update_next (l : DList.Links Node) (x y : Node) :
    Function.update (pointers l) (.next x) y = pointers (l.setNext x y) := by
  funext p
  cases p with
  | next z => simp [Function.update_apply]
  | prev z => simp

theorem update_prev (l : DList.Links Node) (x y : Node) :
    Function.update (pointers l) (.prev x) y = pointers (l.setPrev x y) := by
  funext p
  cases p with
  | next z => simp
  | prev z => simp [Function.update_apply]

/-- What a thread is still to do. The locks are those of the runqueues. -/
abbrev RqCode : Type → Type := Code ℕ Pointer Node

def load (p : Pointer) : RqCode Node := .load p .ret

def store (p : Pointer) (x : Node) : RqCode Unit := .store p x (.ret ())

/-- `spinlock_lock` of the runqueue of a CPU -/
def spinlockLock (cpu : ℕ) : RqCode Unit := .lock cpu (.ret ())

/-- `spinlock_unlock` of the runqueue of a CPU -/
def spinlockUnlock (cpu : ℕ) : RqCode Unit := .unlock cpu (.ret ())

variable {h : Host}

/-! ## Lists -/

/-- `list_add` -/
def listAdd (new head : Node) : RqCode Unit := do
  store (.next new) (← load (.next head))
  store (.prev new) head
  store (.prev (← load (.next head))) new
  store (.next head) new

/-- `list_add_tail` -/
def listAddTail (new head : Node) : RqCode Unit := do
  store (.next new) head
  store (.prev new) (← load (.prev head))
  store (.next (← load (.prev head))) new
  store (.prev head) new

/-- `list_del` -/
def listDel (entry : Node) : RqCode Unit := do
  store (.next (← load (.prev entry))) (← load (.next entry))
  store (.prev (← load (.next entry))) (← load (.prev entry))

/-- A `list_for_each` that counts, from the node `pos` on. Without fuel it does not end. -/
def countFrom (head : Node) : ℕ → Node → UInt32 → RqCode UInt32
  | 0, _, _ => .halt
  | fuel + 1, pos, count =>
    if pos = head then return count else do countFrom head fuel (← load (.next pos)) (count + 1)

/-- A `list_for_each` that counts. -/
def countNodes (fuel : ℕ) (head : Node) : RqCode UInt32 := do
  countFrom head fuel (← load (.next head)) 0

/-! ## The scheduler -/

/-- The CPU whose runqueue a vCPU uses. -/
def homeOf (h : Host) (c : Addr) : ℕ := ((h.vcpus c).map fun u => (u.home h.gCpuCount).toNat).getD 0

/-- What a call returns. -/
inductive Answer
  | result (r : Result)
  | load (percent : UInt32)
  | void
deriving DecidableEq

/-- `scheduler_add_vcpu`. A vCPU that has no entity gets the one for which `calloc` has room, if it has. -/
def schedulerAddVcpu (h : Host) (calloc : Option Addr) (c : Addr) : RqCode Answer := do
  spinlockLock (homeOf h c)
  match (h.entityOf c).or calloc with
  | none =>
    spinlockUnlock (homeOf h c)
    return .result .errNoMemory
  | some e =>
    listAddTail (.entity e) (.head (homeOf h c))
    spinlockUnlock (homeOf h c)
    return .result .ok

/-- `scheduler_remove_vcpu` -/
def schedulerRemoveVcpu (h : Host) (c : Addr) : RqCode Answer :=
  match h.entityOf c with
  | none => return .result .errInvalidParam
  | some e => do
    spinlockLock (homeOf h c)
    listDel (.entity e)
    spinlockUnlock (homeOf h c)
    return .result .ok

/-- `scheduler_yield` -/
def schedulerYield (h : Host) (c : Addr) : RqCode Answer :=
  match h.entityOf c with
  | none => return .void
  | some e => do
    spinlockLock (homeOf h c)
    listDel (.entity e)
    listAddTail (.entity e) (.head (homeOf h c))
    spinlockUnlock (homeOf h c)
    return .void

/-- `scheduler_wake` -/
def schedulerWake (h : Host) (c : Addr) : RqCode Answer :=
  match h.entityOf c with
  | none => return .void
  | some e => do
    spinlockLock (homeOf h c)
    listDel (.entity e)
    listAdd (.entity e) (.head (homeOf h c))
    spinlockUnlock (homeOf h c)
    return .void

/-- `scheduler_get_cpu_load` -/
def schedulerGetCpuLoad (h : Host) (cpu : UInt32) : RqCode Answer :=
  if cpu ≥ h.gCpuCount then return .load 0
  else do
    spinlockLock cpu.toNat
    let count ← countNodes h.fuel (.head cpu.toNat)
    spinlockUnlock cpu.toNat
    -- a division by zero
    if h.gCpuCount + 1 = 0 then .halt else return .load (count * 100 / (h.gCpuCount + 1))

/-- The search of `scheduler_load_balance` for the least loaded CPU other than `cpu`. -/
def leastLoaded (h : Host) (cpu : ℕ) : List ℕ → UInt32 → ℕ → RqCode (UInt32 × ℕ)
  | [], minLoad, tgtCpu => return (minLoad, tgtCpu)
  | i :: is, minLoad, tgtCpu =>
    if i = cpu then leastLoaded h cpu is minLoad tgtCpu
    else do
      spinlockLock i
      let load ← countNodes h.fuel (.head i)
      spinlockUnlock i
      if load < minLoad then leastLoaded h cpu is load i else leastLoaded h cpu is minLoad tgtCpu

/-- The end of `scheduler_load_balance`, after the first entity has been taken out. -/
def migrateTo (se : Node) (tgtCpu : ℕ) : RqCode Answer := do
  spinlockLock tgtCpu
  listAddTail se (.head tgtCpu)
  spinlockUnlock tgtCpu
  return .void

/-- The part of `scheduler_load_balance` that moves an entity. -/
def migrateFirst (cpu tgtCpu : ℕ) : RqCode Answer := do
  spinlockLock cpu
  if (← load (.next (.head cpu))) ≠ .head cpu then
    let se ← load (.next (.head cpu))
    listDel se
    spinlockUnlock cpu
    migrateTo se tgtCpu
  else
    spinlockUnlock cpu
    return .void

/-- `scheduler_load_balance` after the search. -/
def balanceAgainst (h : Host) (cpu : ℕ) (found : UInt32 × ℕ) : RqCode Answer := do
  spinlockLock cpu
  let srcLoad ← countNodes h.fuel (.head cpu)
  spinlockUnlock cpu
  if srcLoad > found.1 + 2 then migrateFirst cpu found.2 else return .void

/-- `scheduler_load_balance` -/
def schedulerLoadBalance (h : Host) (cpu : UInt32) : RqCode Answer :=
  if cpu ≥ h.gCpuCount then return .void
  else leastLoaded h cpu.toNat (List.range h.gCpuCount.toNat) 0xFFFFFFFF 0 >>= balanceAgainst h cpu.toNat

/-! ## Threads -/

/-- A call that a thread makes; the first one has the answer of `calloc` with it. -/
inductive Call
  | add (c : Addr) (calloc : Option Addr)
  | remove (c : Addr)
  | yield (c : Addr)
  | wake (c : Addr)
  | getCpuLoad (cpu : UInt32)
  | loadBalance (cpu : UInt32)
deriving DecidableEq

def Call.code (h : Host) : Call → RqCode Answer
  | .add c calloc => schedulerAddVcpu h calloc c
  | .remove c => schedulerRemoveVcpu h c
  | .yield c => schedulerYield h c
  | .wake c => schedulerWake h c
  | .getCpuLoad cpu => schedulerGetCpuLoad h cpu
  | .loadBalance cpu => schedulerLoadBalance h cpu

/-- The host as the thread knows it after the call: a vCPU of it may have got its entity. -/
def Call.known (h : Host) : Call → Host
  | .add c (some e) => h.setVcpu c ((h.vcpus c).map fun u => { u with schedEntity := u.schedEntity.or (some e) })
  | _ => h

/-- A thread that makes some calls, after others have returned the answers `rs`. -/
def runCalls (h : Host) : List Call → List Answer → RqCode (List Answer)
  | [], rs => return rs
  | call :: calls, rs => call.code h >>= fun r => runCalls (call.known h) calls (rs ++ [r])

/-- Nothing is allocated for a vCPU that has an entity. -/
theorem Call.known_add {c e : Addr} (hc : h.entityOf c = some e) (calloc : Option Addr) :
    (Call.add c calloc).known h = h := by
  obtain ⟨u, hu, hue⟩ := Option.bind_eq_some_iff.mp hc
  cases calloc with
  | none => rfl
  | some x =>
    rw [known, hu, Option.map_some, hue, Option.some_or, ← hue]
    change h.setVcpu c (some u) = h
    rw [Host.setVcpu, ← hu, Function.update_eq_self]

/-! ## Undisturbed -/

variable {D : Pointer → Prop} {l : DList.Links Node} {x head : Node}

/-- The pointers of a node may be accessed. -/
def May (D : Pointer → Prop) (x : Node) : Prop := D (.next x) ∧ D (.prev x)

theorem listAddTail_runs (hx : May D x) (hhead : May D head) (hprev : May D (l.prev head)) (hne : x ≠ head) :
    Runs D (listAddTail x head) (pointers l) (.ret ()) (pointers (NexusVM.listAddTail l x head)) := by
  refine .store hx.1 (.load hhead.2 (.store hx.2 ?_))
  rw [update_next, pointers_prev, DList.Links.setNext_prev, update_prev]
  refine .load hhead.2 (.store ?_ ?_)
  · simpa [hne.symm] using hprev.1
  · rw [update_next, pointers_prev]
    refine .store hhead.2 ?_
    rw [update_prev]
    exact .refl _ _

theorem listAdd_runs (hx : May D x) (hhead : May D head) (hnext : May D (l.next head)) (hne : x ≠ head) :
    Runs D (listAdd x head) (pointers l) (.ret ()) (pointers (NexusVM.listAdd l x head)) := by
  refine .load hhead.1 (.store hx.1 ?_)
  rw [update_next, pointers_next]
  refine .store hx.2 ?_
  rw [update_prev]
  refine .load hhead.1 (.store ?_ ?_)
  · simpa [hne.symm] using hnext.2
  · rw [update_prev, pointers_next]
    refine .store hhead.1 ?_
    rw [update_next]
    exact .refl _ _

theorem listDel_runs (hx : May D x) (hprev : May D (l.prev x)) (hnext : May D (l.next x)) :
    Runs D (listDel x) (pointers l) (.ret ()) (pointers (NexusVM.listDel l x)) := by
  refine .load hx.2 (.load hx.1 (.store hprev.1 ?_))
  rw [pointers_next, pointers_prev, update_next]
  refine .load hx.1 (.load hx.2 (.store ?_ ?_))
  · rw [pointers_next, DList.Links.setNext_next]
    split_ifs
    · exact hnext.2
    · exact hnext.2
  · rw [pointers_next, pointers_prev, update_prev]
    exact .refl _ _

theorem countFrom_runs {xs : List Node} {pos : Node} {fuel : ℕ} {n : UInt32}
    (hwalk : l.walk head fuel pos = some xs) (hxs : ∀ y ∈ xs, May D y) :
    Runs D (countFrom head fuel pos n) (pointers l) (.ret (n + UInt32.ofNat xs.length))
      (pointers l) := by
  induction fuel generalizing pos n xs with
  | zero => cases hwalk
  | succ fuel ih =>
    rw [DList.Links.walk] at hwalk
    rw [countFrom]
    split_ifs at hwalk ⊢ with hpos
    · cases hwalk
      simpa using Runs.refl _ _
    · obtain ⟨ys, hys, rfl⟩ := Option.map_eq_some_iff.mp hwalk
      refine .load (hxs pos List.mem_cons_self).1 ?_
      have hrest := ih (n := n + 1) hys fun y hy => hxs y (List.mem_cons_of_mem _ hy)
      rw [List.length_cons, Nat.add_comm, UInt32.ofNat_add, ← UInt32.add_assoc]
      exact hrest

/-- **The loop counts the nodes** of a queue that it may read. -/
theorem countNodes_runs {xs : List Node} {fuel : ℕ} (hwalk : l.walk head fuel (l.next head) = some xs)
    (hhead : May D head) (hxs : ∀ y ∈ xs, May D y) :
    Runs D (countNodes fuel head) (pointers l) (.ret (UInt32.ofNat xs.length)) (pointers l) := by
  have hrun := countFrom_runs (n := 0) hwalk hxs
  rw [UInt32.zero_add] at hrun
  exact .load hhead.1 hrun

end NexusVM.Threaded
