import NexusVM.Nested

/-!
# The nested mode of a vCPU

Whether L1 or L2 runs, as `nested_get_status` reports it, after any sequence of nested VMX events.

* `NestedEvent`, `NestedEvent.perform`: the events, and the handlers that are called for them;
* `L1Mode`, `l1Mode`: the mode that the events should lead to;
* `NestedVmx.after`, **`NestedEvent.perform_spec`**: what the handlers make of the record;
* **`nested_mode_iff`**: the report is right throughout a run just if no launch comes without VMXON, no
  resume would change the mode, and no exit comes while the record has L2 running.
-/

namespace NexusVM

open Prog

/-! ## Events -/

/-- The nested VMX events. -/
inductive NestedEvent
  | vmxon (region : UInt64)
  | vmxoff
  | vmlaunch
  | vmresume
  | l2Vmexit
deriving DecidableEq

/-- Handle an event on a vCPU. -/
def NestedEvent.perform (w : VmxWorld) (c : Addr) : NestedEvent → NestedM Result
  | .vmxon region => nestedVmxHandleVmxon (some c) region
  | .vmxoff => nestedVmxHandleVmxoff (some c)
  | .vmlaunch => nestedVmxHandleVmlaunch w (some c)
  | .vmresume => nestedVmxHandleVmresume w (some c)
  | .l2Vmexit => nestedVmxHandleL2Vmexit w (some c)

/-- Handle events, and ask for the status. -/
def statusAfterEvents (w : VmxWorld) (c : Addr) (events : List NestedEvent) : NestedM (Bool × Bool) := do
  runOps (NestedEvent.perform w c) events
  nestedGetStatus c

/-! ## The mode -/

/-- Whether VMXON is in effect, and whether L2 runs. -/
structure L1Mode where
  vmxon : Bool := false
  inL2 : Bool := false
deriving DecidableEq

/-- A launch or a resume starts L2 where VMXON is in effect; an exit and VMXOFF end it. -/
def L1Mode.after (m : L1Mode) : NestedEvent → L1Mode
  | .vmxon region => { m with vmxon := m.vmxon || region ≠ 0 }
  | .vmxoff => {}
  | .vmlaunch => { m with inL2 := m.vmxon }
  | .vmresume => { m with inL2 := m.vmxon }
  | .l2Vmexit => { m with inL2 := false }

def l1Mode (events : List NestedEvent) : L1Mode := events.foldl L1Mode.after {}

/-- The last launch or VMXOFF was a launch. -/
def lastLaunched (events : List NestedEvent) : Bool :=
  events.foldl (fun b e => match e with
    | .vmlaunch => true
    | .vmxoff => false
    | _ => b) false

theorem l1Mode_append (events : List NestedEvent) (e : NestedEvent) :
    l1Mode (events ++ [e]) = (l1Mode events).after e := by
  rw [l1Mode, List.foldl_append]
  rfl

/-- The event is one that the record follows, after those before it. -/
def NestedEvent.Followed (pre : List NestedEvent) : NestedEvent → Prop
  | .vmxon _ => True
  | .vmxoff => True
  | .vmlaunch => (l1Mode pre).vmxon = true
  | .vmresume => lastLaunched pre = (l1Mode pre).vmxon
  | .l2Vmexit => lastLaunched pre = false

theorem NestedEvent.followed_iff {pre : List NestedEvent} (e : NestedEvent)
    (hpre : lastLaunched pre = (l1Mode pre).inL2) :
    lastLaunched (pre ++ [e]) = (l1Mode (pre ++ [e])).inL2 ↔ e.Followed pre := by
  rw [l1Mode_append, lastLaunched, List.foldl_append]
  cases e with
  | vmxon region => exact iff_true_intro hpre
  | vmxoff => exact iff_true_intro rfl
  | vmlaunch => exact eq_comm
  | vmresume => exact Iff.rfl
  | l2Vmexit => exact Iff.rfl

/-- **The record is right throughout** just if every event is one that it follows. -/
theorem lastLaunched_iff (events : List NestedEvent) :
    (∀ pre, pre <+: events → lastLaunched pre = (l1Mode pre).inL2) ↔
      ∀ pre e, pre ++ [e] <+: events → e.Followed pre :=
  forall_prefix_iff (C := fun pre e => NestedEvent.Followed pre e) rfl
    fun _ e _ hpre => e.followed_iff hpre

/-! ## Handlers -/

/-- What the handlers make of the record. -/
def NestedVmx.after (r : NestedVmx) : NestedEvent → NestedVmx
  | .vmxon region => if region = 0 then r else { r with vmxonPointer := region }
  | .vmxoff => { r with vmxonPointer := 0, l1GuestMode := false }
  | .vmlaunch => { r with l1GuestMode := true }
  | .vmresume => r
  | .l2Vmexit => r

theorem NestedVmx.l1GuestMode_after (r : NestedVmx) (hr : r.l1GuestMode = false)
    (events : List NestedEvent) : (events.foldl NestedVmx.after r).l1GuestMode = lastLaunched events := by
  induction events using List.reverseRecOn with
  | nil => exact hr
  | append_singleton events e ih =>
    rw [List.foldl_append, lastLaunched, List.foldl_append]
    cases e with
    | vmxon region =>
      change (if region = 0 then _ else _ : NestedVmx).l1GuestMode = _
      split_ifs
      · exact ih
      · exact ih
    | vmxoff => rfl
    | vmlaunch => rfl
    | vmresume => exact ih
    | l2Vmexit => exact ih

/-- Nested VMX is enabled on the vCPU, with this record. -/
structure Nesting (c a : Addr) (r : NestedVmx) (n : NestedMachine) : Prop where
  initialized : n.host.gInitialized = true
  vendor : n.host.hv.cpuVendor = .intel
  owner : ∃ u, n.host.vcpus c = some u ∧ ∃ v, n.host.vms u.vm = some v ∧ v.nestedVmx = some a
  record : n.vmxs a = some r

variable {w : VmxWorld} {a c : Addr} {r : NestedVmx} {n n' : NestedMachine}

theorem Nesting.of_host (h : Nesting c a r n) (hhost : n'.host = n.host) (hvmxs : n'.vmxs = n.vmxs) :
    Nesting c a r n' := by
  refine ⟨?_, ?_, ?_, ?_⟩
  · rw [hhost]
    exact h.initialized
  · rw [hhost]
    exact h.vendor
  · rw [hhost]
    exact h.owner
  · rw [hvmxs]
    exact h.record

theorem Nesting.setVcpu (h : Nesting c a r n) {u u' : Nexusvcpu} (hu : n.host.vcpus c = some u)
    (hvm : u'.vm = u.vm) : Nesting c a r (n.setHost (n.host.setVcpu c (some u'))) := by
  obtain ⟨u₀, hu₀, v, hv, hnested⟩ := h.owner
  obtain rfl : u₀ = u := Option.some.inj (hu₀.symm.trans hu)
  refine ⟨h.initialized, h.vendor, ⟨u', Function.update_self _ _ _, v, ?_, hnested⟩, h.record⟩
  rw [hvm]
  exact hv

theorem nestedGetStatus_spec (h : Nesting c a r n) :
    wp (nestedGetStatus c) (fun s _ => s = (true, r.l1GuestMode)) n := by
  obtain ⟨u, hu, v, hv, hnested⟩ := h.owner
  simp only [nestedGetStatus, wp_bind, wp_onProgram, wp_getHv, NestedMachine.setHost_self, h.vendor,
    wp_getOwner]
  refine ⟨h.initialized, u, hu, v, hv, ?_⟩
  simp only [hnested, wp_bind, wp_getNestedVmx, wp_pure]
  exact ⟨r, h.record, rfl⟩

theorem modifyNestedVmx_spec (h : Nesting c a r n) (f : NestedVmx → NestedVmx) :
    wp (modifyNestedVmx c f) (fun _ n' => Nesting c a (f r) n') n := by
  obtain ⟨u, hu, v, hv, hnested⟩ := h.owner
  simp only [modifyNestedVmx, wp_bind, wp_getOwner]
  refine ⟨u, hu, v, hv, ?_⟩
  simp only [hnested, wp_bind, wp_getNestedVmx, wp_putNestedVmx]
  exact ⟨r, h.record, h.initialized, h.vendor, ⟨u, hu, v, hv, hnested⟩, Function.update_self _ _ _⟩

theorem Nesting.onMachine {α : Type} {x : VmxM α} (hx : ∀ h, Keeps (fun m => m.host = h) x) :
    Keeps (Nesting c a r) (onMachine x) :=
  fun _ hn => wp_onMachine_of_host hx fun _ _ hm => hn.of_host hm rfl

theorem setR12_spec (h : Nesting c a r n) (r12 : UInt64) :
    wp (NexusVM.onMachine (setR12 c r12)) (fun _ n' => Nesting c a r n') n := by
  obtain ⟨u, hu, -⟩ := h.owner
  rw [setR12, wp_onMachine, wp_modifyGprs]
  exact ⟨u, hu, h.setVcpu hu (u.setGprs_vm _)⟩

/-- Saving an L2 state leaves the record alone, whether or not there is memory for it. -/
theorem nestedSaveL2State_keeps : Keeps (Nesting c a r) (nestedSaveL2State w (some c)) := by
  intro n h
  obtain ⟨u, hu, v, hv, hnested⟩ := h.owner
  simp only [nestedSaveL2State, wp_bind, wp_onProgram, wp_getHv, NestedMachine.setHost_self,
    wp_getOwner]
  refine ⟨h.initialized, u, hu, v, hv, ?_⟩
  rw [if_pos ⟨h.vendor, by rw [hnested]; rfl⟩, wp_bind, wp_onProgram]
  refine wp_calloc (fun b _ => ?_) ?_
  · have hn : Nesting c a r (n.setHost (n.host.grant ⟨.l2State, b, 1 * sizeofL2State⟩)) :=
      ⟨h.initialized, h.vendor, h.owner, h.record⟩
    rw [wp_bind]
    refine wp_mono (Nesting.onMachine (readL2State_host w) _ hn) fun s n₁ hn₁ => ?_
    rw [wp_bind, wp_modify, wp_bind]
    have hn₂ : Nesting c a r (n₁.setL2 b (some s)) := hn₁.of_host rfl rfl
    refine wp_mono (setR12_spec hn₂ _) fun _ n₃ hn₃ => ?_
    rw [wp_pure]
    exact hn₃
  · rw [wp_pure]
    exact ⟨h.initialized, h.vendor, h.owner, h.record⟩

/-- **One event.** -/
theorem NestedEvent.perform_spec (e : NestedEvent) (h : Nesting c a r n) :
    wp (e.perform w c) (fun _ n' => Nesting c a (r.after e) n') n := by
  cases e with
  | vmxon region =>
    rw [perform, nestedVmxHandleVmxon, NestedVmx.after]
    split_ifs
    · rw [wp_pure]
      exact h
    · rw [wp_bind]
      refine wp_mono (modifyNestedVmx_spec h _) fun _ n' hn' => ?_
      rw [wp_pure]
      exact hn'
  | vmxoff =>
    rw [perform, nestedVmxHandleVmxoff, wp_bind]
    refine wp_mono (modifyNestedVmx_spec h _) fun _ n' hn' => ?_
    rw [wp_pure]
    exact hn'
  | vmlaunch =>
    rw [perform, nestedVmxHandleVmlaunch, wp_bind]
    refine wp_mono (modifyNestedVmx_spec h _) fun _ n' hn' => ?_
    exact Nesting.onMachine (vmxVmentry_host w) n' hn'
  | vmresume =>
    rw [perform, nestedVmxHandleVmresume]
    exact Nesting.onMachine (vmxVmentry_host w) n h
  | l2Vmexit =>
    have hread : ∀ f, Keeps (Nesting c a r) (NexusVM.onMachine (vmxVmread w f)) :=
      fun f => Nesting.onMachine fun _ => vmxVmread_host w f
    rw [perform, nestedVmxHandleL2Vmexit]
    refine ((hread _).bind fun _ => (hread _).bind fun _ => ?_) n h
    exact nestedSaveL2State_keeps.bind fun _ => .pure _

theorem NestedEvent.run_spec (h : Nesting c a r n) (events : List NestedEvent) :
    wp (runOps (NestedEvent.perform w c) events)
      (fun _ n' => Nesting c a (events.foldl NestedVmx.after r) n') n := by
  refine wp_runOps (C := fun _ _ => True)
    (I := fun pre n' => Nesting c a (pre.foldl NestedVmx.after r) n') ?_
    (along_of_forall (fun _ _ _ => trivial) n) h
  intro pre e n' _ _ hn'
  rw [List.foldl_append]
  exact e.perform_spec hn'

/-- **Enabling** nested VMX on a vCPU. -/
theorem nestedVmxEnable_spec (n : NestedMachine) : wlp (nestedVmxEnable (some c)) (fun result n' =>
    result = .ok → ∃ a link, Nesting c a { vmcsLinkPointer := link } n') n := by
  rw [nestedVmxEnable, wlp_bind, wlp_onProgram, wlp_getHv]
  intro hinit
  rw [NestedMachine.setHost_self]
  refine wlp_ite (fun _ => ?_) fun hvendor => ?_
  · rw [wlp_pure]
    exact nofun
  · rw [wlp_bind, wlp_onProgram]
    refine (wp_calloc (fun nested _ => ?_) ?_).wlp
    · rw [wlp_bind, wlp_onProgram]
      refine (vmxAllocVmcsRegion_spec (h := n.host.grant _) hinit (fun region => ?_) ?_).wlp
      · rw [wlp_bind, putNestedVmx, wlp_modify, wlp_bind, wlp_getOwner]
        intro u hu v hv
        rw [wlp_bind, wlp_onProgram, wlp_putVm, wlp_pure]
        exact fun _ => ⟨nested, UInt64.ofNat region, hinit, not_not.mp hvendor,
          ⟨u, hu, _, Function.update_self _ _ _, rfl⟩, Function.update_self _ _ _⟩
      · rw [wlp_bind]
        exact fun _ _ _ => (wlp_pure _).mpr nofun
    · rw [wlp_pure]
      exact nofun

/-- **What is reported** after events. -/
theorem statusAfterEvents_spec {link : UInt64} (h : Nesting c a { vmcsLinkPointer := link } n)
    (events : List NestedEvent) :
    wp (statusAfterEvents w c events) (fun s _ => s = (true, lastLaunched events)) n := by
  rw [statusAfterEvents, wp_bind]
  refine wp_mono (NestedEvent.run_spec h events) fun _ n' hn' => ?_
  refine wp_mono (nestedGetStatus_spec hn') ?_
  rintro s _ rfl
  rw [NestedVmx.l1GuestMode_after _ rfl]

/-- **The nested mode.** -/
theorem nested_mode_iff (henable : (nestedVmxEnable (some c)).run n = some (.ok, n'))
    (events : List NestedEvent) :
    (∀ pre, pre <+: events →
      wp (statusAfterEvents w c pre) (fun s _ => s = (true, (l1Mode pre).inL2)) n') ↔
      ∀ pre e, pre ++ [e] <+: events → e.Followed pre := by
  obtain ⟨a, link, h⟩ := nestedVmxEnable_spec n _ _ henable rfl
  rw [← lastLaunched_iff]
  refine forall_congr' fun pre => imp_congr_right fun _ => ?_
  constructor
  · intro hwp
    obtain ⟨s, n₁, hrun, hs⟩ := statusAfterEvents_spec (w := w) h pre
    have hs' := wp_run hwp hrun
    rw [hs, Prod.mk.injEq] at hs'
    exact hs'.2
  · intro hmode
    rw [← hmode]
    exact statusAfterEvents_spec h pre

theorem nested_mode_iff_launch : ∃ n',
    (nestedVmxEnable (some 2)).run (nestedStart .intel) = some (.ok, n') ∧
      ((∀ pre, pre <+: [.vmxon 4096, .vmlaunch] → wp (statusAfterEvents bareWorld 2 pre)
          (fun s _ => s = (true, (l1Mode pre).inL2)) n') ↔
        ∀ pre (e : NestedEvent), pre ++ [e] <+: [.vmxon 4096, .vmlaunch] → e.Followed pre) := by
  have henable : (nestedVmxEnable (some 2)).run (nestedStart .intel) = some (.ok, _) := rfl
  exact ⟨_, henable, nested_mode_iff henable _⟩

/-- An exit from L2 is not noticed. -/
theorem l2_exit_missed : ∃ n',
    (nestedVmxEnable (some 2)).run (nestedStart .intel) = some (.ok, n') ∧
      ¬ wp (statusAfterEvents bareWorld 2 [.vmxon 4096, .vmlaunch, .l2Vmexit])
        (fun s _ => s = (true, (l1Mode [.vmxon 4096, .vmlaunch, .l2Vmexit]).inL2)) n' := by
  have henable : (nestedVmxEnable (some 2)).run (nestedStart .intel) = some (.ok, _) := rfl
  refine ⟨_, henable, fun hwp => ?_⟩
  obtain ⟨a, link, h⟩ := nestedVmxEnable_spec _ _ _ henable rfl
  obtain ⟨s, n₁, hrun, hs⟩ :=
    statusAfterEvents_spec (w := bareWorld) h [.vmxon 4096, .vmlaunch, .l2Vmexit]
  have hs' := wp_run hwp hrun
  rw [hs] at hs'
  revert hs'
  decide

end NexusVM
