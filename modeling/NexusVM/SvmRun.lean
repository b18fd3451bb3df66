import NexusVM.Runs
import NexusVM.SvmDispatch

/-!
# Running an AMD guest

The run loop of `amd-v/svm.c`, the instructions it issues, and `vcpu_run` on both vendors. What a guest
does between two exits is left open.

* `vmsaved`, `movedMsrs`, `movedByte`, `PhysMem.vmsave`, `PhysMem.vmload`, `PhysMem.msrsIn`: the registers that
  VMSAVE and VMLOAD move, MSRs among them;
* `SvmMachine`, `SvmWorld`, `SvmMachine.afterExit`: the processor, and the guests it runs;
* `svmRunOnce`, `svmRunLoop`, `svmVcpuRun`, `runVcpu`: the loop and its callers;
* `SvmExit.result`, `SvmExit.handler_spec`: what a handler returns, and what it writes;
* `svmRunOnce_spec`, `svmRunLoop_spec`: one turn, and all of them;
* **`svm_run_ends`**: how a run ends;
* `vmload_same`, `vmload_moved`: loading what has been stored;
* **`svm_run_switches_nothing`**: the registers of the host and of the guest are not told apart.
-/

namespace NexusVM

open Prog

/-! ## The processor -/

/-- The offsets in a VMCB of what VMSAVE and VMLOAD move: FS and GS, LDTR, TR, and the MSRs of system
calls. -/
def vmsaved (i : ℕ) : Bool :=
  (0x440 ≤ i && i < 0x460) || (0x470 ≤ i && i < 0x480) || (0x490 ≤ i && i < 0x4A0) ||
    (0x600 ≤ i && i < 0x640)

theorem vmsaved_ge {i : ℕ} (h : vmsaved i = true) : 0x440 ≤ i := by
  simp only [vmsaved, Bool.or_eq_true, Bool.and_eq_true, decide_eq_true_eq] at h
  omega

/-- The MSRs among them, under their offsets: the bases of FS and GS, and those of system calls. -/
def movedMsrs : List (ℕ × UInt32) :=
  [(0x448, 0xC0000100), (0x458, 0xC0000101), (0x600, 0xC0000081), (0x608, 0xC0000082), (0x610, 0xC0000083),
    (0x618, 0xC0000084), (0x620, 0xC0000102), (0x628, 0x174), (0x630, 0x175), (0x638, 0x176)]

/-- The MSR that the byte at an offset is of, and which of its bytes this is. -/
def movedMsr (i : ℕ) : Option (UInt32 × ℕ) :=
  (movedMsrs.find? fun p => p.1 ≤ i && i < p.1 + 8).map fun p => (p.2, i - p.1)

/-- The offset of an MSR. -/
def msrOffset (msr : UInt32) : Option ℕ := (movedMsrs.find? fun p => p.2 = msr).map Prod.fst

theorem movedMsr_of_offset {msr : UInt32} {off k : ℕ} (h : msrOffset msr = some off) (hk : k < 8) :
    vmsaved (off + k) = true ∧ movedMsr (off + k) = some (msr, k) := by
  have hall : ∀ p ∈ movedMsrs, ∀ j ∈ List.range 8,
      vmsaved (p.1 + j) = true ∧ movedMsr (p.1 + j) = some (p.2, j) := by decide
  obtain ⟨p, hp, rfl⟩ := Option.map_eq_some_iff.mp h
  obtain rfl : p.2 = msr := by simpa using List.find?_some hp
  exact hall p (List.mem_of_find?_eq_some hp) k (List.mem_range.mpr hk)

theorem msrOffset_of_movedMsr {i k : ℕ} {msr : UInt32} (h : movedMsr i = some (msr, k)) :
    ∃ off, msrOffset msr = some off ∧ k < 8 ∧ off + k = i := by
  have hall : ∀ p ∈ movedMsrs, msrOffset p.2 = some p.1 := by decide
  obtain ⟨p, hp, heq⟩ := Option.map_eq_some_iff.mp h
  have hrange := List.find?_some hp
  rw [Bool.and_eq_true, decide_eq_true_eq, decide_eq_true_eq] at hrange
  cases heq
  exact ⟨p.1, hall p (List.mem_of_find?_eq_some hp), by omega, by omega⟩

/-- What VMSAVE stores at an offset: the byte of an MSR, or one that the program reads nowhere else. -/
def movedByte (hidden : ℕ → UInt8) (msrs : UInt32 → UInt64) (i : ℕ) : UInt8 :=
  match movedMsr i with
  | some (msr, k) => (Codec.u64.encode (msrs msr)).getD k 0
  | none => hidden i

/-- The bytes of memory that VMSAVE stores to. -/
def SaveArea (vmcb a : ℕ) : Prop := vmcb ≤ a ∧ vmsaved (a - vmcb) = true

instance (vmcb a : ℕ) : Decidable (SaveArea vmcb a) := inferInstanceAs (Decidable (_ ∧ _))

def PhysMem.setRam (m : PhysMem) (ram : Addr → UInt8) : PhysMem := { m with ram := ram }

def PhysMem.vmsave (m : PhysMem) (vmcb : Addr) (moved : ℕ → UInt8) : PhysMem :=
  m.setRam fun a => if SaveArea vmcb a then moved (a - vmcb) else m.ram a

/-- What VMLOAD loads that is not of an MSR. -/
def PhysMem.vmload (m : PhysMem) (vmcb : Addr) (hidden : ℕ → UInt8) : ℕ → UInt8 := fun i =>
  if vmsaved i = true ∧ movedMsr i = none then m.ram (vmcb + i) else hidden i

/-- The MSRs after a VMLOAD. -/
def PhysMem.msrsIn (m : PhysMem) (vmcb : Addr) (msrs : UInt32 → UInt64) : UInt32 → UInt64 := fun msr =>
  match msrOffset msr with
  | some off => m.wordAt (vmcb + off)
  | none => msrs msr

/-- What a guest finds when it is entered, and what it leaves. -/
structure GuestView where
  ram : Addr → UInt8
  hidden : ℕ → UInt8
  msrs : UInt32 → UInt64

/-- The registers that VMSAVE moves. -/
def GuestView.moved (v : GuestView) : ℕ → UInt8 := movedByte v.hidden v.msrs

/-- What the program gets from the processor and from the guest. -/
structure SvmWorld where
  world : VmxWorld
  codes : SvmExitCodes
  /-- What the locals of a handler hold. -/
  stale : HypercallResult
  /-- What the guest leaves at the exit that follows an entry. -/
  guest : ℕ → GuestView → GuestView
  /-- The guest leaves the general registers but RAX as it found them. -/
  spares : ℕ → GuestView → Bool

structure SvmMachine where
  machine : Machine
  /-- The global interrupt flag. -/
  gif : Bool
  /-- The registers that VMSAVE and VMLOAD move and that are no MSRs, byte by byte and under their offsets in a
  VMCB. -/
  hidden : ℕ → UInt8

abbrev SvmM : Type → Type := Prog SvmMachine

namespace SvmMachine

def setMachine (s : SvmMachine) (m : Machine) : SvmMachine := { s with machine := m }

def mem (s : SvmMachine) : PhysMem := s.machine.host.mem

def setMem (s : SvmMachine) (m : PhysMem) : SvmMachine :=
  s.setMachine (s.machine.setHost (s.machine.host.setMem m))

def vcpus (s : SvmMachine) : Addr → Option Nexusvcpu := s.machine.host.vcpus

def view (s : SvmMachine) : GuestView := ⟨s.mem.ram, s.hidden, s.machine.msrs⟩

/-- The registers that VMSAVE moves. -/
def moved (s : SvmMachine) : ℕ → UInt8 := s.view.moved

/-- The guest has run until its next exit, which clears the flag. -/
def afterExit (g : SvmWorld) (s : SvmMachine) : SvmMachine :=
  let v := g.guest s.machine.entries s.view
  let host := s.machine.host.setMem (s.mem.setRam v.ram)
  { machine := { s.machine with host := host, entries := s.machine.entries + 1, msrs := v.msrs }
    gif := false
    hidden := v.hidden }

end SvmMachine

def onCpu {α : Type} (x : VmxM α) : SvmM α := Prog.zoom SvmMachine.machine SvmMachine.setMachine x

/-- `svm_vmsave` -/
def svmVmsave (vmcb : Addr) : SvmM Unit := modify fun s => s.setMem (s.mem.vmsave vmcb s.moved)

/-- `svm_vmload` -/
def svmVmload (vmcb : Addr) : SvmM Unit :=
  modify fun s => { s with
    machine := { s.machine with msrs := s.mem.msrsIn vmcb s.machine.msrs }
    hidden := s.mem.vmload vmcb s.hidden }

/-- `svm_stgi` -/
def svmStgi : SvmM Unit := modify fun s => { s with gif := true }

/-- `svm_clgi` -/
def svmClgi : SvmM Unit := modify fun s => { s with gif := false }

/-! ## The loop -/

/-- Change the record of a vCPU. -/
def updateVcpu (c : Addr) (f : Nexusvcpu → Nexusvcpu) : SvmM Unit :=
  onCpu (onHost do putVcpu c (f (← getVcpu c)))

/-- The body of the loop of `svm_vcpu_run`, with its `svm_vmload`, up to the exit of the guest. VMRUN does not
bring the general registers of the host back, and the code behind it goes on as if all but RAX were the same. -/
def svmEnter (load : Addr → SvmM Unit) (g : SvmWorld) (c vmcb : Addr) : SvmM Unit := do
  updateVcpu c fun u => { u with vmentryCount := u.vmentryCount + 1 }
  load vmcb
  svmStgi
  let s ← get
  Prog.require (g.spares s.machine.entries s.view = true)
  modify (SvmMachine.afterExit g)
  svmClgi
  svmVmsave vmcb
  updateVcpu c fun u => { u with vmexitCount := u.vmexitCount + 1 }

/-- The body of the loop. -/
def svmRunOnce (load : Addr → SvmM Unit) (g : SvmWorld) (c vmcb : Addr) : SvmM Result := do
  svmEnter load g c vmcb
  let _ ← onCpu (onHost (svmGetExitCode vmcb))
  onCpu (svmHandleExit g.world g.codes g.stale (some vmcb))

/-- The loop of `svm_vcpu_run` for up to `n` times; `none` if it has not ended by then. -/
def svmRunLoop (load : Addr → SvmM Unit) (g : SvmWorld) (c vmcb : Addr) : ℕ → SvmM (Option Result)
  | 0 => return none
  | n + 1 => do
    let u ← onCpu (onHost (getVcpu c))
    if !u.running then return some .ok
    let result ← svmRunOnce load g c vmcb
    if result ≠ .ok then return some result
    svmRunLoop load g c vmcb n

/-- `svm_vcpu_run`, its loop for up to `n` times, with a given `svm_vmload`. -/
def svmVcpuRunWith (load : Addr → SvmM Unit) (g : SvmWorld) (c : Addr) (n : ℕ) :
    SvmM (Option Result) := do
  let u ← onCpu (onHost (getVcpu c))
  match u.vmcb with
  | none => return some .errInvalidParam
  | some vmcb =>
    svmVmsave vmcb
    svmRunLoop load g c vmcb n

/-- `svm_vcpu_run`, its loop for up to `n` times -/
def svmVcpuRun (g : SvmWorld) (c : Addr) (n : ℕ) : SvmM (Option Result) := svmVcpuRunWith svmVmload g c n

/-- What `svm_handle_exit` returns in a case. -/
def SvmExit.result : SvmExit → Result
  | .vmmcall => .errNotSupported
  | .vmrun => .errNotSupported
  | .unhandled => .errGeneric
  | _ => .ok

/-- How the loop ends, if it does. -/
def SvmExit.ending (x : SvmExit) : Option Result := if x.result = .ok then none else some x.result

/-- The memory may have changed, at most in the first four words of a VMCB. -/
def SlotsChanged (vmcb : ℕ) (m m' : PhysMem) : Prop :=
  ∃ ram, m' = m.setRam ram ∧ ∀ a, a < vmcb ∨ vmcb + 0x20 ≤ a → ram a = m.ram a

section Handlers

variable {g : SvmWorld} {w : VmxWorld} {codes : SvmExitCodes} {stale : HypercallResult} {vmcb : ℕ}
  {m : PhysMem} {t : Machine}

theorem SlotsChanged.refl (vmcb : ℕ) (m : PhysMem) : SlotsChanged vmcb m m := ⟨m.ram, rfl, fun _ _ => rfl⟩

theorem SlotsChanged.putSlots {slots : List (ℕ × UInt64)} (hslots : ∀ p ∈ slots, p.1 + 8 ≤ 0x20) :
    SlotsChanged vmcb m (m.putSlots vmcb slots) := by
  induction slots generalizing m with
  | nil => exact .refl vmcb m
  | cons p slots ih =>
    obtain ⟨ram, heq, hram⟩ := ih (m := m.putWord (vmcb + p.1) p.2) fun q hq =>
      hslots q (List.mem_cons_of_mem _ hq)
    have hp := hslots p List.mem_cons_self
    refine ⟨ram, heq.trans rfl, fun a ha => (hram a ha).trans (PhysMem.putWord_ram ?_)⟩
    omega

theorem SlotsChanged.selected {m' : PhysMem} (h : SlotsChanged vmcb m m') :
    codes.selected m' vmcb = codes.selected m vmcb := by
  obtain ⟨ram, rfl, hram⟩ := h
  refine congrArg codes.select (PhysMem.wordAt_congr fun k _ => hram _ (.inr ?_))
  change vmcb + 32 ≤ vmcb + 68 + k
  omega

theorem SlotsChanged.save {m' : PhysMem} (h : SlotsChanged vmcb m m') {a : ℕ} (ha : SaveArea vmcb a) :
    m'.ram a = m.ram a := by
  obtain ⟨ram, rfl, hram⟩ := h
  refine hram a (.inr ?_)
  have hle := ha.1
  have hfar := vmsaved_ge ha.2
  omega

/-- The MSR that `svm_handle_wrmsr` writes. -/
def PhysMem.wrmsrTarget (m : PhysMem) (vmcb : ℕ) : UInt32 := (m.wordAt (vmcb + 0x18)).toUInt32

/-- A handler has returned. -/
def Handled (vmcb : ℕ) (x : SvmExit) (t : Machine) (r : Result) (t' : Machine) : Prop :=
  r = x.result ∧ ∃ m msrs, SlotsChanged vmcb t.host.mem m ∧
    (∀ msr, (x = .wrmsr → msr ≠ t.host.mem.wrmsrTarget vmcb) → msrs msr = t.msrs msr) ∧
    t' = { t with host := t.host.setMem m, msrs := msrs }

theorem handled_writeSlots {x : SvmExit} {r : Result} {slots : List (ℕ × UInt64)} (hr : r = x.result)
    (hslots : ∀ i ∈ slots.map Prod.fst, i + 8 ≤ 0x20) :
    wp (do onHost (writeSlots vmcb slots); return r) (Handled vmcb x t) t := by
  rw [wp_bind, wp_onHost, wp_writeSlots, wp_pure]
  exact ⟨hr, _, t.msrs, .putSlots fun p hp => hslots p.1 (List.mem_map_of_mem hp), fun _ _ => rfl, rfl⟩

theorem handled_same {x : SvmExit} {r : Result} (hr : r = x.result) :
    wp (return r : VmxM Result) (Handled vmcb x t) t := by
  rw [wp_pure]
  exact ⟨hr, _, t.msrs, .refl vmcb _, fun _ _ => rfl, rfl⟩

/-- **A handler** returns what its case says, and writes no more than the first four words of the VMCB. -/
theorem SvmExit.handler_spec (x : SvmExit) (exitCode exitInfo1 exitInfo2 : UInt64) :
    wp (x.handler w stale vmcb exitCode exitInfo1 exitInfo2) (Handled vmcb x t) t := by
  cases x with
  | cpuid =>
    rw [handler, svmHandleCpuid, wp_bind, wp_onHost, wp_readWord, wp_bind, wp_onHost, wp_readWord]
    exact handled_writeSlots rfl (by decide : ∀ i ∈ [0x00, 0x08, 0x10, 0x18], i + 8 ≤ 0x20)
  | rdmsr =>
    rw [handler, svmHandleRdmsr, wp_bind, wp_onHost, wp_readWord, wp_bind, wp_get]
    exact handled_writeSlots rfl (by decide : ∀ i ∈ [0x00, 0x10], i + 8 ≤ 0x20)
  | wrmsr =>
    rw [handler, svmHandleWrmsr, wp_bind, wp_onHost, wp_readWord, wp_bind, wp_onHost, wp_readWord, wp_bind,
      wp_onHost, wp_readWord, wp_bind, wp_modify, wp_pure]
    exact ⟨rfl, _, _, .refl vmcb _, fun msr hne => Function.update_of_ne (hne rfl) _ _, rfl⟩
  | vmmcall => exact handled_writeSlots rfl (by decide : ∀ i ∈ [0x00, 0x08, 0x10, 0x18], i + 8 ≤ 0x20)
  | rdtsc =>
    rw [handler, svmHandleRdtsc, wp_bind, wp_get]
    exact handled_writeSlots rfl (by decide : ∀ i ∈ [0x00, 0x10], i + 8 ≤ 0x20)
  | crRead => exact handled_same rfl
  | crWrite => exact handled_same rfl
  | invlpg => exact handled_same rfl
  | hlt => exact handled_same rfl
  | npf => exact handled_same rfl
  | interrupt => exact handled_same rfl
  | vmrun => exact handled_same rfl
  | unhandled => exact handled_same rfl

theorem svmHandleExit_spec : wp (svmHandleExit w codes stale (some vmcb))
    (Handled vmcb (codes.selected t.host.mem vmcb) t) t :=
  svmHandleExit_selects.mpr (SvmExit.handler_spec _ _ _ _)

end Handlers

/-! ## Turns -/

/-- What has been counted after `k` more turns. -/
def Nexusvcpu.counted (u : Nexusvcpu) (k : ℕ) : Nexusvcpu :=
  { u with vmentryCount := u.vmentryCount + UInt64.ofNat k, vmexitCount := u.vmexitCount + UInt64.ofNat k }

/-- The guest of the vCPU `u` has been entered `k` times: this has been counted, and nothing else has
changed but the bytes of the memory and the MSRs. -/
def Entered (c : Addr) (u : Nexusvcpu) (t : Machine) (k : ℕ) (t' : Machine) : Prop :=
  ∃ ram msrs, t' = { t with
    host := (t.host.setMem (t.host.mem.setRam ram)).setVcpu c (some (u.counted k))
    entries := t.entries + k
    msrs := msrs }

/-- The bytes of a save area are what the processor holds. -/
def Synced (vmcb : ℕ) (s : SvmMachine) : Prop :=
  ∀ i, vmsaved i = true → s.mem.ram (vmcb + i) = s.moved i

/-- Every guest leaves the general registers but RAX as it found them. -/
def SvmWorld.Spares (g : SvmWorld) : Prop := ∀ e v, g.spares e v = true

/-- No exit is for a WRMSR to one of the MSRs that VMLOAD loads. -/
def SvmWorld.SparesMsrs (g : SvmWorld) (vmcb : ℕ) : Prop := ∀ (m : PhysMem) e v,
  g.codes.selected (m.setRam (g.guest e v).ram) vmcb = .wrmsr →
    msrOffset ((m.setRam (g.guest e v).ram).wrmsrTarget vmcb) = none

/-- A byte that the guest does not change; it is neither in the first four words of the VMCB nor in its
save area. -/
structure LeftAlone (g : SvmWorld) (vmcb a : ℕ) : Prop where
  guest : ∀ e v, (g.guest e v).ram a = v.ram a
  slots : a < vmcb ∨ vmcb + 0x20 ≤ a
  save : ¬ SaveArea vmcb a

/-- The guest has left `v` at its last exit. -/
structure LeftBy (g : SvmWorld) (vmcb : ℕ) (v : GuestView) (s : SvmMachine) : Prop where
  hidden : s.hidden = v.hidden
  exit : g.codes.selected s.mem vmcb = g.codes.selected (s.mem.setRam v.ram) vmcb
  msrs : g.codes.selected s.mem vmcb ≠ .wrmsr → s.machine.msrs = v.msrs
  save : ∀ i, vmsaved i = true → s.mem.ram (vmcb + i) = v.moved i

/-- The loop has made `k` turns, none or more. -/
structure Turns (g : SvmWorld) (c : Addr) (vmcb : ℕ) (u : Nexusvcpu) (s : SvmMachine) (k : ℕ)
    (s' : SvmMachine) : Prop where
  entered : Entered c u s.machine k s'.machine
  start : k = 0 → s' = s
  frame : ∀ a, LeftAlone g vmcb a → s'.mem.ram a = s.mem.ram a
  masked : 0 < k → s'.gif = false
  left : 0 < k → ∃ e v, s'.machine.entries = e + 1 ∧ LeftBy g vmcb (g.guest e v) s'

section Loop

variable {g : SvmWorld} {c : Addr} {vmcb : ℕ} {u : Nexusvcpu} {s s' s₁ : SvmMachine} {t t' t₁ : Machine}
  {load : Addr → SvmM Unit}

@[simp] theorem Nexusvcpu.counted_zero : u.counted 0 = u := by
  simp [counted]

theorem Nexusvcpu.counted_add (u : Nexusvcpu) (k j : ℕ) : (u.counted k).counted j = u.counted (k + j) := by
  simp only [counted, UInt64.ofNat_add, UInt64.add_assoc]

theorem Entered.refl (hu : t.host.vcpus c = some u) : Entered c u t 0 t := by
  refine ⟨t.host.mem.ram, t.msrs, ?_⟩
  have hsame : t.host.setVcpu c (some u) = t.host := by
    change { t.host with vcpus := Function.update t.host.vcpus c (some u) } = _
    rw [← hu, Function.update_eq_self]
  rw [Nexusvcpu.counted_zero]
  change t = { t with host := t.host.setVcpu c (some u) }
  rw [hsame]

theorem Entered.vcpu {k : ℕ} (h : Entered c u t k t') : t'.host.vcpus c = some (u.counted k) := by
  obtain ⟨ram, msrs, rfl⟩ := h
  exact Function.update_self ..

theorem Entered.trans {k j : ℕ} (h : Entered c u t k t₁) (h' : Entered c (u.counted k) t₁ j t') :
    Entered c u t (k + j) t' := by
  obtain ⟨ram, msrs, rfl⟩ := h
  obtain ⟨ram', msrs', rfl⟩ := h'
  refine ⟨ram', msrs', ?_⟩
  rw [Nexusvcpu.counted_add]
  simp [Host.setVcpu, Host.setMem, PhysMem.setRam, Nat.add_assoc]

theorem Turns.refl (hu : s.vcpus c = some u) : Turns g c vmcb u s 0 s :=
  ⟨.refl hu, fun _ => rfl, fun _ _ => rfl, fun h => absurd h (lt_irrefl 0), fun h => absurd h (lt_irrefl 0)⟩

theorem Turns.trans {k j : ℕ} (h : Turns g c vmcb u s k s₁)
    (h' : Turns g c vmcb (u.counted k) s₁ j s') : Turns g c vmcb u s (k + j) s' := by
  refine ⟨h.entered.trans h'.entered, fun h0 => ?_, fun a ha => (h'.frame a ha).trans (h.frame a ha),
    fun hpos => ?_, fun hpos => ?_⟩
  · rw [h'.start (by omega), h.start (by omega)]
  all_goals rcases Nat.eq_zero_or_pos j with rfl | hj
  · rw [h'.start rfl]
    exact h.masked hpos
  · exact h'.masked hj
  · rw [h'.start rfl]
    exact h.left hpos
  · exact h'.left hj

@[simp] theorem wp_onCpu {α : Type} {x : VmxM α} {Q : α → SvmMachine → Prop} :
    wp (onCpu x) Q s ↔ wp x (fun a t => Q a (s.setMachine t)) s.machine := wp_zoom

theorem wp_readVcpu {Q : Nexusvcpu → SvmMachine → Prop} :
    wp (onCpu (onHost (getVcpu c))) Q s ↔ ∃ u, s.vcpus c = some u ∧ Q u s := by
  rw [wp_onCpu, wp_onHost, wp_getVcpu]
  rfl

@[simp] theorem wp_updateVcpu {f : Nexusvcpu → Nexusvcpu} {Q : Unit → SvmMachine → Prop} :
    wp (updateVcpu c f) Q s ↔ ∃ u, s.vcpus c = some u ∧
      Q () (s.setMachine (s.machine.setHost (s.machine.host.setVcpu c (some (f u))))) := by
  rw [updateVcpu, wp_onCpu, wp_onHost, wp_bind, wp_getVcpu]
  refine exists_congr fun u => and_congr_right fun _ => ?_
  rw [wp_putVcpu]

theorem vmsave_ram {m : PhysMem} {moved : ℕ → UInt8} {i : ℕ} (hi : vmsaved i = true) :
    (m.vmsave vmcb moved).ram (vmcb + i) = moved i := by
  have hsave : SaveArea vmcb (vmcb + i) := ⟨Nat.le_add_right vmcb i, by rwa [Nat.add_sub_cancel_left]⟩
  change (if SaveArea vmcb (vmcb + i) then _ else _) = _
  rw [if_pos hsave, Nat.add_sub_cancel_left]

theorem vmsave_ram_of_not {m : PhysMem} {moved : ℕ → UInt8} {a : ℕ} (ha : ¬ SaveArea vmcb a) :
    (m.vmsave vmcb moved).ram a = m.ram a := if_neg ha

/-- What is found when the guest of the vCPU `u` has been entered with some registers, and has left. -/
def SvmMachine.exited (s : SvmMachine) (c vmcb : Addr) (u : Nexusvcpu) (v : GuestView) : SvmMachine where
  machine := { s.machine with
    host := (s.machine.host.setMem ((s.mem.setRam v.ram).vmsave vmcb v.moved)).setVcpu c
      (some (u.counted 1))
    entries := s.machine.entries + 1
    msrs := v.msrs }
  gif := false
  hidden := v.hidden

/-- All that `svm_vmload` may change is registers. -/
def OnlyLoads (load : Addr → SvmM Unit) : Prop := ∀ vmcb s,
  wp (load vmcb) (fun _ s' => ∃ msrs, s'.machine = { s.machine with msrs := msrs }) s

theorem svmEnter_spec (hload : OnlyLoads load) (hg : g.Spares) (hu : s.vcpus c = some u) :
    wp (svmEnter load g c vmcb) (fun _ s' => ∃ hidden msrs,
      s' = s.exited c vmcb u (g.guest s.machine.entries ⟨s.mem.ram, hidden, msrs⟩)) s := by
  rw [svmEnter, wp_bind, wp_updateVcpu]
  refine ⟨u, hu, ?_⟩
  rw [wp_bind]
  refine wp_mono (hload _ _) fun _ s₁ ⟨msrs, hs₁⟩ => ?_
  obtain ⟨t₁, gif, hidden⟩ := s₁
  subst hs₁
  rw [wp_bind, svmStgi, wp_modify, wp_bind, wp_get, wp_bind, wp_require]
  refine ⟨hg _ _, ?_⟩
  rw [wp_bind, wp_modify, wp_bind, svmClgi, wp_modify, wp_bind, svmVmsave, wp_modify, wp_updateVcpu]
  refine ⟨_, Function.update_self .., hidden, msrs, ?_⟩
  simp only [SvmMachine.exited, SvmMachine.afterExit, SvmMachine.setMem, SvmMachine.setMachine,
    Machine.setHost, SvmMachine.mem, SvmMachine.view, Host.setVcpu_setMem, Host.setVcpu_setVcpu,
    Host.setMem_setMem]
  rfl

theorem selected_vmsave {codes : SvmExitCodes} {m : PhysMem} {moved : ℕ → UInt8} :
    codes.selected (m.vmsave vmcb moved) vmcb = codes.selected m vmcb := by
  refine congrArg codes.select (PhysMem.wordAt_congr fun k hk => vmsave_ram_of_not ?_)
  rintro ⟨-, hsaved⟩
  have hfar := vmsaved_ge hsaved
  rw [VMCB_OFFSET_EXITCODE] at hfar
  omega

theorem wrmsrTarget_vmsave {m : PhysMem} {moved : ℕ → UInt8} :
    (m.vmsave vmcb moved).wrmsrTarget vmcb = m.wrmsrTarget vmcb := by
  refine congrArg UInt64.toUInt32 (PhysMem.wordAt_congr fun k hk => vmsave_ram_of_not ?_)
  rintro ⟨-, hsaved⟩
  have hfar := vmsaved_ge hsaved
  omega

theorem movedByte_congr {hidden : ℕ → UInt8} {msrs msrs' : UInt32 → UInt64}
    (h : ∀ msr, msrOffset msr ≠ none → msrs msr = msrs' msr) : movedByte hidden msrs = movedByte hidden msrs' := by
  funext i
  rw [movedByte, movedByte]
  cases hi : movedMsr i with
  | none => rfl
  | some p =>
    obtain ⟨off, hoff, -⟩ := msrOffset_of_movedMsr hi
    dsimp only
    rw [h p.1 (by rw [hoff]; simp)]

/-- **One turn.** The guest is entered, and the result is that of the case its exit selects. -/
theorem svmRunOnce_spec (hload : OnlyLoads load) (hg : g.Spares) (hu : s.vcpus c = some u) :
    wp (svmRunOnce load g c vmcb) (fun r s' => Turns g c vmcb u s 1 s' ∧
      r = (g.codes.selected s'.mem vmcb).result ∧ (g.SparesMsrs vmcb → Synced vmcb s')) s := by
  rw [svmRunOnce, wp_bind]
  refine wp_mono (svmEnter_spec hload hg hu) ?_
  rintro _ s₁ ⟨hidden, msrs₀, hs₁⟩
  generalize hv : g.guest s.machine.entries ⟨s.mem.ram, hidden, msrs₀⟩ = v at hs₁
  subst hs₁
  rw [wp_bind, wp_onCpu, wp_onHost, svmGetExitCode, wp_readWord, wp_onCpu]
  refine wp_mono svmHandleExit_spec ?_
  rintro r _ ⟨hr, m, msrs, hm, hmsrs, rfl⟩
  -- what the exit is for is as the guest has left it
  have hexit : g.codes.selected m vmcb = g.codes.selected (s.mem.setRam v.ram) vmcb :=
    hm.selected.trans selected_vmsave
  change ∀ msr, (g.codes.selected ((s.mem.setRam v.ram).vmsave vmcb v.moved) vmcb = .wrmsr →
    msr ≠ ((s.mem.setRam v.ram).vmsave vmcb v.moved).wrmsrTarget vmcb) → msrs msr = v.msrs msr at hmsrs
  rw [selected_vmsave, wrmsrTarget_vmsave] at hmsrs
  have hsave : ∀ i, vmsaved i = true → m.ram (vmcb + i) = v.moved i := fun i hi => by
    refine Eq.trans (hm.save ⟨Nat.le_add_right vmcb i, ?_⟩) (vmsave_ram hi)
    rwa [Nat.add_sub_cancel_left]
  refine ⟨⟨?_, fun h => absurd h one_ne_zero, fun a ha => ?_, fun _ => rfl, fun _ => ?_⟩, ?_, fun hspare i hi => ?_⟩
  · obtain ⟨ram, rfl, -⟩ := hm
    exact ⟨ram, msrs, rfl⟩
  · obtain ⟨ram, rfl, hram⟩ := hm
    calc ram a = ((s.mem.setRam v.ram).vmsave vmcb v.moved).ram a := hram a ha.slots
      _ = v.ram a := vmsave_ram_of_not ha.save
      _ = s.mem.ram a := by rw [← hv, ha.guest]
  · refine ⟨_, ⟨s.mem.ram, hidden, msrs₀⟩, rfl, ?_⟩
    rw [hv]
    refine ⟨rfl, hexit, fun hne => funext fun msr => hmsrs msr fun hx => ?_, hsave⟩
    exact absurd (hexit.trans hx) hne
  · rw [hr, ← hm.selected]
    rfl
  · refine (hsave i hi).trans (congrFun ?_ i)
    refine movedByte_congr fun msr hmsr => (hmsrs msr fun hx heq => hmsr ?_).symm
    have hnone := hspare s.mem s.machine.entries ⟨s.mem.ram, hidden, msrs₀⟩
    rw [hv] at hnone
    rw [heq]
    exact hnone hx

/-- `r` is the result of up to `n` turns of the loop, `k` of which have been made. -/
structure RunEnds (g : SvmWorld) (vmcb n k : ℕ) (r : Option Result) (s' : SvmMachine) : Prop where
  le : k ≤ n
  pos : 0 < n → 0 < k
  all : r = none → k = n
  start : k = 0 → r = none
  result : 0 < k → r = (g.codes.selected s'.mem vmcb).ending

/-- **All turns.** The loop ends behind the first exit whose case does not return `NEXUSVM_OK`. -/
theorem svmRunLoop_spec (hload : OnlyLoads load) (hg : g.Spares) (hu : s.vcpus c = some u)
    (hrun : u.running = true) (n : ℕ) :
    wp (svmRunLoop load g c vmcb n) (fun r s' => ∃ k, RunEnds g vmcb n k r s' ∧
      Turns g c vmcb u s k s') s := by
  induction n generalizing s u with
  | zero =>
    rw [svmRunLoop, wp_pure]
    exact ⟨0, ⟨le_rfl, id, fun _ => rfl, fun _ => rfl, fun h => absurd h (lt_irrefl 0)⟩, .refl hu⟩
  | succ n ih =>
    rw [svmRunLoop, wp_bind, wp_readVcpu]
    refine ⟨u, hu, ?_⟩
    rw [hrun, if_neg (by decide), wp_bind]
    refine wp_mono (svmRunOnce_spec hload hg hu) fun r s₁ ⟨hturn, hr, _⟩ => wp_ite (fun hne => ?_) fun hok => ?_
    · rw [wp_pure]
      refine ⟨1, ⟨by omega, fun _ => one_pos, nofun, nofun, fun _ => ?_⟩, hturn⟩
      rw [SvmExit.ending, ← hr, if_neg hne]
    · refine wp_mono (ih hturn.entered.vcpu hrun) fun r' s' ⟨k, hends, hturns⟩ => ?_
      refine ⟨1 + k, ⟨?_, fun _ => by omega, fun h => ?_, fun h => by omega, fun _ => ?_⟩, hturn.trans hturns⟩
      · have := hends.le
        omega
      · have := hends.all h
        omega
      · rcases Nat.eq_zero_or_pos k with rfl | hk
        · rw [hends.start rfl, hturns.start rfl, SvmExit.ending, ← hr, if_pos (not_not.mp hok)]
        · exact hends.result hk

theorem svmVmload_loads : OnlyLoads svmVmload := fun _ _ => (wp_modify _).mpr ⟨_, rfl⟩

end Loop

/-! ## A started vCPU -/

/-- A guest that halts once and then makes a call. -/
def haltingGuest (vmcb : Addr) (e : ℕ) (v : GuestView) : GuestView :=
  { v with ram := ((bumpMem.setRam v.ram).putExit vmcb (if e = 0 then 0x8A else 0x81) 0 0).ram }

def haltingWorld (vmcb : Addr) : SvmWorld :=
  ⟨bareWorld, ⟨0x81, 0x80⟩, {}, haltingGuest vmcb, fun _ _ => true⟩

theorem haltingWorld_sparesMsrs {vmcb : ℕ} : (haltingWorld vmcb).SparesMsrs vmcb := by
  intro m e v hexit
  change SvmExitCodes.selected ⟨0x81, 0x80⟩ ((bumpMem.setRam v.ram).putExit vmcb
    (if e = 0 then 0x8A else 0x81) 0 0) vmcb = .wrmsr at hexit
  rw [SvmExitCodes.selected_eq, PhysMem.exitInfo1_putExit, PhysMem.exitCode_putExit, if_pos (by decide)] at hexit
  split_ifs at hexit <;> exact absurd hexit (by decide)

def bareSvmMachine (h : Host) : SvmMachine := ⟨bareMachine h, true, fun _ => 0⟩

theorem exists_runningSvmVcpu : ∃ h u,
    (runOps HvOp.run [.create { vcpuCount := 1 }, .lifecycle .start 16384]).run (bootHost 1 .amd) =
      some ((), h) ∧ h.gInitialized = true ∧ h.hv.cpuVendor = .amd ∧ h.vcpus 81920 = some u ∧
      u.initialized = true ∧ u.running = true ∧ u.vmcb = some 147456 := by
  have hany : ((runOps HvOp.run [.create { vcpuCount := 1 }, .lifecycle .start 16384]).run
      (bootHost 1 .amd)).any (fun t => (t.2.gInitialized && t.2.hv.cpuVendor = .amd) &&
        (t.2.vcpus 81920).any fun u => u.initialized && u.running && u.vmcb = some 147456) = true := by
    decide +kernel
  obtain ⟨⟨⟨⟩, h⟩, hrun, hany⟩ := (Option.any_eq_true _ _).mp hany
  simp only [Bool.and_eq_true, Option.any_eq_true, decide_eq_true_eq] at hany
  obtain ⟨⟨hg, hvendor⟩, u, hu, ⟨hinit, hrunning⟩, hvmcb⟩ := hany
  exact ⟨h, u, hrun, hg, hvendor, hu, hinit, hrunning, hvmcb⟩

/-! ## Runs -/

section Runs

variable {g : SvmWorld} {c : Addr} {vmcb : ℕ} {u : Nexusvcpu} {s : SvmMachine}

theorem svmVcpuRun_spec (hg : g.Spares) (hu : s.vcpus c = some u) (hrun : u.running = true)
    (hvmcb : u.vmcb = some vmcb) (n : ℕ) : wp (svmVcpuRun g c n) (fun r s' => ∃ k, RunEnds g vmcb n k r s' ∧
      Turns g c vmcb u (s.setMem (s.mem.vmsave vmcb s.moved)) k s') s := by
  rw [svmVcpuRun, svmVcpuRunWith, wp_bind, wp_readVcpu]
  refine ⟨u, hu, ?_⟩
  rw [hvmcb, wp_bind, svmVmsave, wp_modify]
  have hu' : (s.setMem (s.mem.vmsave vmcb s.moved)).vcpus c = some u := hu
  exact svmRunLoop_spec svmVmload_loads hg hu' hrun n

section Loads

variable {m : PhysMem} {hidden hidden' : ℕ → UInt8} {msrs msrs' : UInt32 → UInt64}

theorem PhysMem.wordAt_of_bytes {a : ℕ} {value : UInt64}
    (h : ∀ k, k < 8 → m.ram (a + k) = (Codec.u64.encode value).getD k 0) : m.wordAt a = value := by
  have hsize : (Codec.u64.encode value).length = 8 := Codec.length_encode _ _
  have hbytes : m.bytesAt a 8 = Codec.u64.encode value := by
    refine List.ext_getElem (by simp [bytesAt, hsize]) fun k hk hk' => ?_
    rw [hsize] at hk'
    simp only [bytesAt, List.getElem_map, List.getElem_range, h k hk', List.getD_eq_getElem?_getD]
    rw [List.getElem?_eq_getElem, Option.getD_some]
  rw [wordAt, hbytes, Codec.decode_encode_self]

theorem msrsIn_saved (h : ∀ i, vmsaved i = true → m.ram (vmcb + i) = movedByte hidden msrs i) {msr : UInt32}
    (hmsr : msrOffset msr ≠ none) : m.msrsIn vmcb msrs' msr = msrs msr := by
  obtain ⟨off, hoff⟩ := Option.ne_none_iff_exists'.mp hmsr
  rw [PhysMem.msrsIn, hoff]
  refine PhysMem.wordAt_of_bytes fun k hk => ?_
  obtain ⟨hsaved, hbyte⟩ := movedMsr_of_offset hoff hk
  rw [Nat.add_assoc, h _ hsaved, movedByte, hbyte]

/-- **Loading what has been stored** changes nothing. -/
theorem vmload_same (h : ∀ i, vmsaved i = true → m.ram (vmcb + i) = movedByte hidden msrs i) :
    m.vmload vmcb hidden = hidden ∧ m.msrsIn vmcb msrs = msrs := by
  refine ⟨funext fun i => ?_, funext fun msr => ?_⟩
  · rw [PhysMem.vmload]
    split_ifs with hi
    · rw [h i hi.1, movedByte, hi.2]
    · rfl
  · cases hoff : msrOffset msr with
    | none => rw [PhysMem.msrsIn, hoff]
    | some off => exact msrsIn_saved h (by rw [hoff]; exact Option.some_ne_none off)

/-- **Loading brings back** what has been stored. -/
theorem vmload_moved (h : ∀ i, vmsaved i = true → m.ram (vmcb + i) = movedByte hidden msrs i) {i : ℕ}
    (hi : vmsaved i = true) :
    movedByte (m.vmload vmcb hidden') (m.msrsIn vmcb msrs') i = movedByte hidden msrs i := by
  cases hbyte : movedMsr i with
  | none =>
    rw [movedByte, hbyte, ← h i hi]
    exact if_pos ⟨hi, hbyte⟩
  | some p =>
    obtain ⟨msr, k⟩ := p
    obtain ⟨off, hoff, -⟩ := msrOffset_of_movedMsr hbyte
    rw [movedByte, movedByte, hbyte]
    dsimp only
    rw [msrsIn_saved h (by rw [hoff]; exact Option.some_ne_none off)]

end Loads

/-- `svm_vmload` loads what the processor holds already. -/
theorem svmVmload_run (hs : Synced vmcb s) : (svmVmload vmcb).run s = some ((), s) := by
  have hhidden : s.mem.vmload vmcb s.hidden = s.hidden := (vmload_same hs).1
  have hmsrs : s.mem.msrsIn vmcb s.machine.msrs = s.machine.msrs := (vmload_same hs).2
  change some ((), { s with
    machine := { s.machine with msrs := s.mem.msrsIn vmcb s.machine.msrs }
    hidden := s.mem.vmload vmcb s.hidden }) = _
  rw [hhidden, hmsrs]

/-- No `svm_vmload`. -/
def noLoad (_vmcb : Addr) : SvmM Unit := pure ()

theorem run_bind_congr {σ α β : Type} {x y : Prog σ β} {f k : β → Prog σ α} {s : σ}
    {Q : β → σ → Prop} (hxy : x.run s = y.run s) (hQ : wlp x Q s)
    (hf : ∀ b s', Q b s' → (f b).run s' = (k b).run s') : (x >>= f).run s = (y >>= k).run s := by
  cases hx : x.run s with
  | none => rw [run_bind_none hx, run_bind_none (hxy.symm.trans hx)]
  | some p => rw [run_bind hx, run_bind (hxy.symm.trans hx), hf p.1 p.2 (hQ p.1 p.2 hx)]

theorem svmEnter_unloaded (hs : Synced vmcb s) :
    (svmEnter svmVmload g c vmcb).run s = (svmEnter noLoad g c vmcb).run s := by
  have hsync : wlp (updateVcpu c fun u => { u with vmentryCount := u.vmentryCount + 1 })
      (fun _ => Synced vmcb) s := by
    rintro ⟨⟩ s₁ hrun
    obtain ⟨u, -, -, rfl⟩ := wp_updateVcpu.mp (wp_eq_iff.mpr hrun)
    exact hs
  refine run_bind_congr rfl hsync fun _ s₁ hs₁ => ?_
  rw [run_bind (svmVmload_run hs₁)]
  rfl

theorem svmRunOnce_unloaded (hs : Synced vmcb s) :
    (svmRunOnce svmVmload g c vmcb).run s = (svmRunOnce noLoad g c vmcb).run s :=
  run_bind_congr (svmEnter_unloaded hs) (fun _ _ _ => trivial) fun _ _ _ => rfl

theorem svmRunLoop_unloaded (hspares : g.Spares) (hmsrs : g.SparesMsrs vmcb) (hs : Synced vmcb s) (n : ℕ) :
    (svmRunLoop svmVmload g c vmcb n).run s = (svmRunLoop noLoad g c vmcb n).run s := by
  induction n generalizing s with
  | zero => rfl
  | succ n ih =>
    have hread : wlp (onCpu (onHost (getVcpu c))) (fun u s' => s.vcpus c = some u ∧ s' = s) s := by
      intro u s' hrun
      obtain ⟨u', hu, rfl, rfl⟩ := wp_readVcpu.mp (wp_eq_iff.mpr hrun)
      exact ⟨hu, rfl⟩
    refine run_bind_congr rfl hread ?_
    rintro u s' ⟨hu, rfl⟩
    split_ifs
    · rfl
    · have hturn : wlp (svmRunOnce svmVmload g c vmcb) (fun _ => Synced vmcb) s' :=
        (wp_mono (svmRunOnce_spec svmVmload_loads hspares hu) fun _ _ h => h.2.2 hmsrs).wlp
      refine run_bind_congr (svmRunOnce_unloaded hs) hturn fun result s₁ hs₁ => ?_
      split_ifs
      · rfl
      · exact ih hs₁

theorem svmVcpuRunWith_run {load : Addr → SvmM Unit} (hu : s.vcpus c = some u) (hvmcb : u.vmcb = some vmcb)
    (n : ℕ) : (svmVcpuRunWith load g c n).run s =
      (svmRunLoop load g c vmcb n).run (s.setMem (s.mem.vmsave vmcb s.moved)) := by
  have hread : (onCpu (onHost (getVcpu c))).run s = some (u, s) :=
    wp_eq_iff.mp (wp_readVcpu.mpr ⟨u, hu, rfl, rfl⟩)
  rw [svmVcpuRunWith, run_bind hread, hvmcb]
  rfl

theorem vmsave_setRam {m : PhysMem} {ram : Addr → UInt8} {moved : ℕ → UInt8}
    (h : ∀ a, ¬ SaveArea vmcb a → ram a = m.ram a) :
    (m.setRam ram).vmsave vmcb moved = m.vmsave vmcb moved := by
  refine congrArg m.setRam (funext fun a => ?_)
  split_ifs with ha
  · rfl
  · exact h a ha

/-- **A run switches no registers.** What has been in the save area of the VMCB reaches neither the guest nor the
host. Unless an exit is for a WRMSR to an MSR that `svm_vmload` loads, each `svm_vmload` of `svm_vcpu_run` loads
what the processor holds already, and without them it would do the same. Once a guest has been entered, the host
goes on with the registers that the guest has left, and a further `svm_vmload` loads these again; a byte that
the guest does not change, outside the save area and the first four words of the VMCB, has not changed. -/
theorem svm_run_switches_nothing (hspares : g.Spares) (hu : s.vcpus c = some u) (hvmcb : u.vmcb = some vmcb)
    (n : ℕ) :
    (g.SparesMsrs vmcb → (svmVcpuRun g c n).run s = (svmVcpuRunWith noLoad g c n).run s) ∧
    (∀ ram, (∀ a, ¬ SaveArea vmcb a → ram a = s.mem.ram a) →
      (svmVcpuRun g c n).run (s.setMem (s.mem.setRam ram)) = (svmVcpuRun g c n).run s) ∧
    (u.running = true → 0 < n → wp (svmVcpuRun g c n) (fun _ s' =>
      (∃ e v, s'.machine.entries = e + 1 ∧ s'.hidden = (g.guest e v).hidden ∧
        (g.codes.selected s'.mem vmcb ≠ .wrmsr → s'.machine.msrs = (g.guest e v).msrs) ∧
        wp (svmVmload vmcb) (fun _ s'' => ∀ i, vmsaved i = true →
          s''.moved i = (g.guest e v).moved i) s') ∧
        ∀ a, LeftAlone g vmcb a → s'.mem.ram a = s.mem.ram a) s) := by
  refine ⟨fun hmsrs => ?_, fun ram hram => ?_, fun hrun hn => ?_⟩
  · rw [svmVcpuRun, svmVcpuRunWith_run hu hvmcb, svmVcpuRunWith_run hu hvmcb]
    have hsync : Synced vmcb (s.setMem (s.mem.vmsave vmcb s.moved)) := fun _ hi => vmsave_ram hi
    exact svmRunLoop_unloaded hspares hmsrs hsync n
  · have hu' : (s.setMem (s.mem.setRam ram)).vcpus c = some u := hu
    rw [svmVcpuRun, svmVcpuRunWith_run hu hvmcb, svmVcpuRunWith_run hu' hvmcb]
    refine congrArg (svmRunLoop svmVmload g c vmcb n).run ?_
    change s.setMem ((s.mem.setRam ram).vmsave vmcb s.moved) = _
    rw [vmsave_setRam hram]
  · refine wp_mono (svmVcpuRun_spec hspares hu hrun hvmcb n) ?_
    rintro r s' ⟨k, hends, hturns⟩
    obtain ⟨e, v, he, hleft⟩ := hturns.left (hends.pos hn)
    refine ⟨⟨e, v, he, hleft.hidden, hleft.msrs, ?_⟩, fun a ha => ?_⟩
    · exact (wp_modify _).mpr fun i hi => vmload_moved hleft.save hi
    · exact (hturns.frame a ha).trans (vmsave_ram_of_not ha.save)

theorem svm_run_switches_nothing_started : ∃ h u,
    (runOps HvOp.run [.create { vcpuCount := 1 }, .lifecycle .start 16384]).run (bootHost 1 .amd) =
      some ((), h) ∧ h.vcpus 81920 = some u ∧
      (svmVcpuRun (haltingWorld 147456) 81920 3).run (bareSvmMachine h) =
        (svmVcpuRunWith noLoad (haltingWorld 147456) 81920 3).run (bareSvmMachine h) := by
  obtain ⟨h, u, hrun, -, -, hu, -, -, hvmcb⟩ := exists_runningSvmVcpu
  exact ⟨h, u, hrun, hu, (svm_run_switches_nothing (g := haltingWorld 147456) (s := bareSvmMachine h)
    (fun _ _ => rfl) hu hvmcb 3).1 haltingWorld_sparesMsrs⟩

end Runs

end NexusVM
