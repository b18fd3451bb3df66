import NexusVM.IoEmul

/-!
# Devices shared by two VMs

* `Party`, `DeviceCall`: calls of two VMs on the ports and the interrupt lines;
* `lineAfter`, `DeviceCall.outcome`: the level of a line after some calls, and what a call returns;
* `deviceCall_spec`, `traceOps_deviceCalls`: a call returns what the calls before it determine;
* `Undisturbed`, **`devices_isolated_iff`**: when a VM sees the same with and without the calls of the other.
-/

namespace NexusVM

open Prog

/-- One of two VMs. -/
inductive Party
  | a
  | b
deriving DecidableEq

/-- An access to a port or to an interrupt line. -/
inductive DeviceOp
  | read (port : UInt16) (size : UInt32)
  | write (port : UInt16) (size : UInt32) (value : UInt64)
  | irqSet (irq : UInt32) (level : Bool)
  | irqGet (irq : UInt32)
deriving DecidableEq

/-- A call made for one of the VMs, with the pointer to its vCPU or to itself. -/
structure DeviceCall where
  party : Party
  target : Option Addr
  op : DeviceOp
deriving DecidableEq

/-- What a call returns. -/
inductive DeviceResult
  | value (r : Except Result UInt64)
  | written (r : Result)
  | set
  | level (b : Bool)

/-- Perform a call. -/
def DeviceCall.run (c : DeviceCall) : HostM DeviceResult :=
  match c.op with
  | .read port size => do return .value (← ioPortRead c.target port size)
  | .write port size value => do return .written (← ioPortWrite c.target port size value)
  | .irqSet irq level => do
    ioIrqSet c.target irq level
    return .set
  | .irqGet irq => do return .level (← ioIrqGet c.target irq)

/-- The call was made for the second VM. -/
def DeviceCall.ofB (c : DeviceCall) : Bool := c.party = .b

/-- The call writes to a port that has a handler. -/
def DeviceCall.WritesDevice (h : Host) (c : DeviceCall) : Prop :=
  match c.op with
  | .write port _ _ => c.target ≠ none ∧ h.handlerOf port ≠ none
  | _ => False

instance (h : Host) (c : DeviceCall) : Decidable (c.WritesDevice h) := by
  unfold DeviceCall.WritesDevice
  split <;> infer_instance

/-! ## Histories -/

/-- The level of a line after a call, from the one before it. -/
def DeviceCall.lineStep (irq : UInt32) (level : Bool) (c : DeviceCall) : Bool :=
  match c.op with
  | .irqSet i l => if i = irq then l else level
  | _ => level

/-- The level of a line after some calls: the one that was set last. -/
def lineAfter (pre : List DeviceCall) (irq : UInt32) : Bool :=
  pre.foldl (DeviceCall.lineStep irq) false

theorem lineAfter_append (pre : List DeviceCall) (c : DeviceCall) (irq : UInt32) :
    lineAfter (pre ++ [c]) irq = c.lineStep irq (lineAfter pre irq) := by
  rw [lineAfter, List.foldl_append]
  rfl

/-- What a call returns after the calls `pre`. -/
def DeviceCall.outcome (h : Host) (pre : List DeviceCall) (c : DeviceCall) : DeviceResult :=
  match c.op with
  | .read port size => .value (h.portAnswer c.target port size)
  | .write _ _ _ => .written (if c.target.isNone then .errInvalidParam else .ok)
  | .irqSet _ _ => .set
  | .irqGet irq => .level (if irq < 256 then lineAfter pre irq else false)

/-- Nothing but the interrupt lines has changed since the state `h₀`, and these are as the calls
`pre` have set them. -/
structure LinesOnly (h₀ : Host) (pre : List DeviceCall) (h : Host) : Prop where
  handlers : h.io.gIoHandlers = h₀.io.gIoHandlers
  devices : h.io.devices = h₀.io.devices
  lines : ∀ irq : UInt32, irq < 256 → h.io.gIrqLines[irq.toNat]? = some (lineAfter pre irq)

variable {h h₀ h₁ : Host} {pre calls : List DeviceCall}

theorem LinesOnly.handlerOf (hl : LinesOnly h₀ pre h) (port : UInt16) :
    h.handlerOf port = h₀.handlerOf port := by
  rw [Host.handlerOf, hl.handlers, Host.handlerOf]

theorem LinesOnly.portAnswer (hl : LinesOnly h₀ pre h) (vcpu : Option Addr) (port : UInt16)
    (size : UInt32) : h.portAnswer vcpu port size = h₀.portAnswer vcpu port size := by
  rw [Host.portAnswer, hl.handlerOf, hl.devices, Host.portAnswer]

theorem LinesOnly.append (hl : LinesOnly h₀ pre h) {c : DeviceCall}
    (hc : ∀ irq l, c.lineStep irq l = l) : LinesOnly h₀ (pre ++ [c]) h := by
  refine ⟨hl.handlers, hl.devices, fun irq hirq => ?_⟩
  rw [lineAfter_append, hc]
  exact hl.lines irq hirq

theorem LinesOnly.setLine (hl : LinesOnly h₀ pre h) {p : Party} {vm : Option Addr} {irq : UInt32}
    {level : Bool} : LinesOnly h₀ (pre ++ [⟨p, vm, .irqSet irq level⟩]) (if irq < 256 then
      h.setIo { h.io with gIrqLines := h.io.gIrqLines.setIfInBounds irq.toNat level } else h) := by
  split_ifs with hirq
  · refine ⟨hl.handlers, hl.devices, fun i hi => ?_⟩
    have hi' : i.toNat < 256 := UInt32.lt_iff_toNat_lt.mp hi
    have hold := hl.lines i hi
    rw [lineAfter_append]
    show (h.io.gIrqLines.setIfInBounds irq.toNat level)[i.toNat]? =
      some (if irq = i then level else lineAfter pre i)
    rw [Vector.getElem?_setIfInBounds]
    by_cases heq : irq = i
    · subst heq
      rw [if_pos rfl, if_pos hi', if_pos rfl]
    · have hne : irq.toNat ≠ i.toNat := fun hc => heq (UInt32.toNat_inj.mp hc)
      rw [if_neg hne, if_neg heq]
      exact hold
  · refine ⟨hl.handlers, hl.devices, fun i hi => ?_⟩
    have hne : irq ≠ i := by
      rintro rfl
      exact hirq hi
    rw [lineAfter_append]
    show h.io.gIrqLines[i.toNat]? = some (if irq = i then level else lineAfter pre i)
    rw [if_neg hne]
    exact hl.lines i hi

/-- **A call that writes to no device** returns what the calls before it determine. -/
theorem deviceCall_spec (hl : LinesOnly h₀ pre h) (hquiet : h₀.io.devices.ps2Output = 0)
    {c : DeviceCall} (hc : ¬ c.WritesDevice h₀) :
    wp c.run (fun r h' => r = c.outcome h₀ pre ∧ LinesOnly h₀ (pre ++ [c]) h') h := by
  obtain ⟨p, target, op⟩ := c
  cases op with
  | read port size =>
    simp only [DeviceCall.run, wp_bind, wp_pure]
    refine wp_mono (ioPortRead_spec (by rw [hl.devices]; exact hquiet)) ?_
    rintro r _ ⟨rfl, rfl⟩
    refine ⟨?_, hl.append fun _ _ => rfl⟩
    rw [hl.portAnswer]
    rfl
  | write port size value =>
    have hn : target.isNone ∨ h.handlerOf port = none := by
      rw [hl.handlerOf]
      by_contra hne
      rw [not_or, Option.isNone_iff_eq_none] at hne
      exact hc hne
    simp only [DeviceCall.run, wp_bind, wp_pure]
    refine wp_mono (ioPortWrite_of_noHandler hn) ?_
    rintro _ _ ⟨rfl, rfl⟩
    exact ⟨rfl, hl.append fun _ _ => rfl⟩
  | irqSet irq level =>
    simp only [DeviceCall.run, wp_bind, wp_pure]
    refine wp_mono ioIrqSet_spec ?_
    rintro _ _ rfl
    exact ⟨rfl, hl.setLine⟩
  | irqGet irq =>
    simp only [DeviceCall.run, wp_bind, wp_pure]
    refine wp_mono ioIrqGet_spec ?_
    rintro r _ ⟨rfl, rfl⟩
    refine ⟨?_, hl.append fun _ _ => rfl⟩
    simp only [DeviceCall.outcome, DeviceResult.level.injEq]
    split_ifs with hirq
    · rw [hl.lines irq hirq]
      rfl
    · have hge : ¬ irq.toNat < 256 := fun hc => hirq (UInt32.lt_iff_toNat_lt.mpr hc)
      rw [Vector.getElem?_eq_none (by omega)]
      rfl

theorem linesOnly_of_init {r : Result} (hstatics : h₀.io = {})
    (hinit : ioEmulInit.run h₀ = some (r, h)) :
    LinesOnly h [] h ∧ h.io.devices.ps2Output = 0 := by
  obtain ⟨-, m, i, rfl, hdevices, hlines⟩ := wp_run ioEmulInit_spec hinit
  rw [hstatics] at hdevices hlines
  refine ⟨⟨rfl, rfl, fun irq hirq => ?_⟩, by rw [Host.setIo_io, hdevices]⟩
  have hirq' : irq.toNat < 256 := UInt32.lt_iff_toNat_lt.mp hirq
  rw [Host.setIo_io, hlines, Vector.getElem?_eq_getElem hirq', Vector.getElem_replicate]
  rfl

theorem traceOps_deviceCalls (hl : LinesOnly h [] h) (hquiet : h.io.devices.ps2Output = 0)
    (hcalls : ∀ c ∈ calls, ¬ c.WritesDevice h) : ∃ h', (traceOps DeviceCall.run calls).run h =
      some (outcomes (fun pre c => c.outcome h pre) [] calls, h') := by
  obtain ⟨as, h', hrun, rfl, -⟩ := wp_traceOps (f := DeviceCall.run)
    (I := fun pre g => LinesOnly h pre g)
    (fun pre c g hc hlg => deviceCall_spec hlg hquiet (hcalls c hc)) hl
  exact ⟨h', hrun⟩

/-! ## Isolation -/

/-- Whenever the second VM reads a line, the level that was set last was also the last one that this
VM has set, or the line is low and it has set none. -/
def LinesAgree (calls : List DeviceCall) : Prop :=
  ∀ pre c post irq, calls = pre ++ c :: post → c.party = .b → c.op = .irqGet irq → irq < 256 →
    lineAfter pre irq = lineAfter (pre.filter DeviceCall.ofB) irq

theorem seenBy_iff_linesAgree : seenBy DeviceCall.ofB calls
        (outcomes (fun pre c => c.outcome h pre) [] calls) =
      outcomes (fun pre c => c.outcome h pre) [] (calls.filter DeviceCall.ofB) ↔
    LinesAgree calls := by
  rw [seenBy_outcomes_iff]
  constructor
  · intro hsame pre c post irq hcalls hb hop hirq
    have := hsame pre c post hcalls (decide_eq_true hb)
    simpa only [DeviceCall.outcome, hop, if_pos hirq, DeviceResult.level.injEq] using this
  · intro hagree pre c post hcalls hb
    unfold DeviceCall.outcome
    cases hop : c.op with
    | read | write | irqSet => rfl
    | irqGet irq =>
      dsimp only
      split_ifs with hirq
      · rw [hagree pre c post irq hcalls (of_decide_eq_true hb) hop hirq]
      · rfl

/-- The calls of the second VM return, alone and among those of the first, and return the same. -/
def Undisturbed (h : Host) (calls : List DeviceCall) : Prop :=
  ∃ as h₁ bs h₂, (traceOps DeviceCall.run (calls.filter DeviceCall.ofB)).run h = some (as, h₁) ∧
    (traceOps DeviceCall.run calls).run h = some (bs, h₂) ∧ seenBy DeviceCall.ofB calls bs = as

/-- **Device isolation.** After `io_emul_init`, let two VMs make any calls in any order, without a write to a
port that has a handler. Those of the second VM return the same with and without those of the first just if,
whenever the second reads a line, the two histories have left it at the same level. -/
theorem devices_isolated_iff {r : Result} (hstatics : h₀.io = {})
    (hinit : ioEmulInit.run h₀ = some (r, h)) (calls : List DeviceCall)
    (hcalls : ∀ c ∈ calls, ¬ c.WritesDevice h) : Undisturbed h calls ↔ LinesAgree calls := by
  obtain ⟨hl, hquiet⟩ := linesOnly_of_init hstatics hinit
  have halone : ∀ c ∈ calls.filter DeviceCall.ofB, ¬ c.WritesDevice h := fun c hc =>
    hcalls c (List.mem_of_mem_filter hc)
  obtain ⟨h₁, hrun₁⟩ := traceOps_deviceCalls hl hquiet halone
  obtain ⟨h₂, hrun₂⟩ := traceOps_deviceCalls hl hquiet hcalls
  constructor
  · rintro ⟨as, _, bs, _, has, hbs, hseen⟩
    rw [hrun₁] at has
    rw [hrun₂] at hbs
    cases has
    cases hbs
    exact seenBy_iff_linesAgree.mp hseen
  · intro hagree
    exact ⟨_, h₁, _, h₂, hrun₁, hrun₂, seenBy_iff_linesAgree.mpr hagree⟩

theorem devices_isolated_iff_own_line : ∃ h, ioEmulInit.run (bootHost 1 .intel) = some (.ok, h) ∧
    Undisturbed h [⟨.a, some 4096, .read 0x3F8 1⟩, ⟨.b, some 8192, .irqSet 3 true⟩,
      ⟨.a, some 4096, .irqSet 4 true⟩, ⟨.b, some 8192, .irqGet 3⟩] := by
  obtain ⟨r, h, hinit, rfl, -⟩ := ioEmulInit_spec (h := bootHost 1 .intel)
  refine ⟨h, hinit, (devices_isolated_iff rfl hinit _ fun c hc => ?_).mpr ?_⟩
  · simp only [List.mem_cons, List.not_mem_nil, or_false] at hc
    rcases hc with rfl | rfl | rfl | rfl <;> exact id
  have hagree : LinesAgree [⟨.a, some 4096, .read 0x3F8 1⟩, ⟨.b, some 8192, .irqSet 3 true⟩,
      ⟨.a, some 4096, .irqSet 4 true⟩, ⟨.b, some 8192, .irqGet 3⟩] := by
    intro pre c post irq hcalls hb hop _
    rcases pre with _ | ⟨x₁, _ | ⟨x₂, _ | ⟨x₃, _ | ⟨x₄, pre⟩⟩⟩⟩ <;>
      simp only [List.nil_append, List.cons_append, List.cons.injEq] at hcalls
    · rw [← hcalls.1] at hop
      cases hop
    · rw [← hcalls.2.1] at hop
      cases hop
    · rw [← hcalls.2.2.1] at hop
      cases hop
    · obtain ⟨rfl, rfl, rfl, rfl, -⟩ := hcalls
      cases hop
      rfl
    · exact absurd hcalls.2.2.2.2 (by simp)
  exact hagree

/-- **A VM sees the lines of another.** There is one set of lines for all VMs: what one VM asserts is
what another reads. -/
theorem line_of_other_vm : ∃ h h₁ h₂, ioEmulInit.run (bootHost 1 .intel) = some (.ok, h) ∧
    (traceOps DeviceCall.run [⟨.a, some 4096, .irqSet 5 true⟩, ⟨.b, some 8192, .irqGet 5⟩]).run h =
      some ([.set, .level true], h₁) ∧
    (traceOps DeviceCall.run [⟨.b, some 8192, .irqGet 5⟩]).run h = some ([.level false], h₂) := by
  obtain ⟨r, h, hinit, rfl, -⟩ := ioEmulInit_spec (h := bootHost 1 .intel)
  obtain ⟨hl, hquiet⟩ := linesOnly_of_init rfl hinit
  have hboth : ∀ c ∈ ([⟨.a, some 4096, .irqSet 5 true⟩, ⟨.b, some 8192, .irqGet 5⟩] : List DeviceCall),
      ¬ c.WritesDevice h := by
    intro c hc
    simp only [List.mem_cons, List.not_mem_nil, or_false] at hc
    rcases hc with rfl | rfl <;> exact id
  obtain ⟨h₁, hrun₁⟩ := traceOps_deviceCalls hl hquiet hboth
  have hone : ∀ c ∈ ([⟨.b, some 8192, .irqGet 5⟩] : List DeviceCall), ¬ c.WritesDevice h := by
    intro c hc
    rw [List.mem_singleton.mp hc]
    exact id
  obtain ⟨h₂, hrun₂⟩ := traceOps_deviceCalls hl hquiet hone
  exact ⟨h, h₁, h₂, hinit, hrun₁, hrun₂⟩

end NexusVM
