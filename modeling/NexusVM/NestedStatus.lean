import NexusVM.NestedMode

/-!
# What nested calls on one vCPU show to another

The record of nested virtualization belongs to the VM, and `nested_get_status` reports it for each of
its vCPUs.

* `NestedCall`, `NestedCall.perform`, `statusSeen`: calls on vCPUs, and what one of them sees of a run;
* `nestedMode`, `NestedCall.next`, **`NestedCall.perform_spec`**: the mode of the VM, and what a call
  makes of it;
* `NestedCall.Idle`, `NestedCall.SameAnswer`: calls that leave it, or that change it alike in two runs;
* **`nested_status_iff`**: a vCPU sees the same without another's calls just if each of them finds the
  record as it would leave it.
-/

namespace NexusVM

open Prog

/-! ## Calls -/

/-- The calls that change the nested state. -/
inductive NestedCall
  | vmxEnable
  | vmxDisable
  | vmxon (region : UInt64)
  | vmxoff
  | vmlaunch
  | svmEnable
  | svmDisable
  | vmrun (vmcb : UInt64)
deriving DecidableEq

/-- The vendor that a call is for. -/
def NestedCall.vendor : NestedCall → CpuVendor
  | .vmxEnable => .intel
  | .vmxDisable => .intel
  | .vmxon _ => .intel
  | .vmxoff => .intel
  | .vmlaunch => .intel
  | .svmEnable => .amd
  | .svmDisable => .amd
  | .vmrun _ => .amd

/-- Perform a call on a vCPU. -/
def NestedCall.perform (w : VmxWorld) (c : Addr) : NestedCall → NestedM Unit
  | .vmxEnable => discard (nestedVmxEnable (some c))
  | .vmxDisable => nestedVmxDisable (some c)
  | .vmxon region => discard (nestedVmxHandleVmxon (some c) region)
  | .vmxoff => discard (nestedVmxHandleVmxoff (some c))
  | .vmlaunch => discard (nestedVmxHandleVmlaunch w (some c))
  | .svmEnable => discard (nestedSvmEnable (some c))
  | .svmDisable => nestedSvmDisable (some c)
  | .vmrun vmcb => discard (nestedSvmHandleVmrun (some c) vmcb)

/-- Perform calls, each on its vCPU. -/
def nestedCalls (w : VmxWorld) (calls : List (Addr × NestedCall)) : NestedM Unit :=
  runOps (fun k => k.2.perform w k.1) calls

/-- What `nested_get_status` reports for a vCPU after calls. -/
def statusSeen (w : VmxWorld) (b : Addr) (calls : List (Addr × NestedCall)) (n : NestedMachine) :
    Option (Bool × Bool) :=
  ((do
    nestedCalls w calls
    nestedGetStatus b).run n).map Prod.fst

/-- The calls that are not on `a`. -/
def without (a : Addr) (calls : List (Addr × NestedCall)) : List (Addr × NestedCall) :=
  calls.filter fun k => k.1 ≠ a

/-! ## The mode of a VM -/

/-- Whether L2 runs in a VM; `none` where it is not in nested mode. -/
def nestedMode (x : Addr) (n : NestedMachine) : Option Bool :=
  (n.host.vms x).bind fun v =>
    match n.host.hv.cpuVendor with
    | .intel => (v.nestedVmx.bind n.vmxs).map (·.l1GuestMode)
    | .amd => (v.nestedSvm.bind n.svms).map (·.nestedRunning)
    | .unknown => none

/-- The report about a mode. -/
def modeStatus : Option Bool → Bool × Bool
  | none => (false, false)
  | some inL2 => (true, inL2)

theorem modeStatus_inj {s t : Option Bool} : modeStatus s = modeStatus t ↔ s = t := by
  cases s <;> cases t <;> simp [modeStatus]

/-- What a call makes of the mode; `served` says whether there is memory for it. -/
def NestedCall.next (served : Bool) (s : Option Bool) : NestedCall → Option Bool
  | .vmxEnable => if served then some false else s
  | .vmxDisable => none
  | .vmxon _ => s
  | .vmxoff => s.map fun _ => false
  | .vmlaunch => s.map fun _ => true
  | .svmEnable => if served then some false else s
  | .svmDisable => none
  | .vmrun _ => s.map fun _ => true

/-- The requests for memory of a call are all served. -/
def NestedCall.Served (n : NestedMachine) : NestedCall → Prop
  | .vmxEnable => n.host.mem.heap.ServesAll [(.nestedVmx, 16, 1 * sizeofNestedVmx),
      (.vmcsRegion, 4096, vmxRegionSize n.host.hv)]
  | .svmEnable => n.host.mem.heap.ServesAll [(.nestedSvm, 16, 1 * sizeofNestedSvm)]
  | _ => True

/-- The call finds the mode as it would leave it, or cannot change it. -/
def NestedCall.Idle (x : Addr) (n : NestedMachine) : NestedCall → Prop
  | .vmxEnable => nestedMode x n = some false ∨ ¬ NestedCall.vmxEnable.Served n
  | .vmxDisable => nestedMode x n = none
  | .vmxon _ => True
  | .vmxoff => nestedMode x n ≠ some true
  | .vmlaunch => nestedMode x n ≠ some false
  | .svmEnable => nestedMode x n = some false ∨ ¬ NestedCall.svmEnable.Served n
  | .svmDisable => nestedMode x n = none
  | .vmrun _ => nestedMode x n ≠ some false

/-- The call gets memory in both states or in neither, or finds the mode as it would leave it. -/
def NestedCall.SameAnswer (x : Addr) (n₁ n₂ : NestedMachine) (k : NestedCall) : Prop :=
  (k.Served n₁ ↔ k.Served n₂) ∨ nestedMode x n₁ = some false

theorem NestedCall.next_eq_self_iff {k : NestedCall} {x : Addr} {n : NestedMachine} {served : Bool}
    (hserved : served = true ↔ k.Served n) :
    k.next served (nestedMode x n) = nestedMode x n ↔ k.Idle x n := by
  have henable : ∀ s : Option Bool, (if served then some false else s) = s ↔
      s = some false ∨ ¬ k.Served n := by
    intro s
    rw [← hserved]
    cases served with
    | true => simp [eq_comm]
    | false => simp
  cases k with
  | vmxEnable => exact henable _
  | svmEnable => exact henable _
  | vmxon region => exact iff_true_intro rfl
  | vmxDisable | svmDisable => exact eq_comm
  | vmxoff | vmlaunch | vmrun vmcb =>
    simp only [next, Idle]
    generalize nestedMode x n = s
    cases s with
    | none => simp
    | some inL2 => cases inL2 <;> simp

theorem NestedCall.next_eq_next_iff {k : NestedCall} {x : Addr} {n₁ n₂ : NestedMachine}
    {served₁ served₂ : Bool} (h₁ : served₁ = true ↔ k.Served n₁) (h₂ : served₂ = true ↔ k.Served n₂) :
    k.next served₁ (nestedMode x n₁) = k.next served₂ (nestedMode x n₁) ↔ k.SameAnswer x n₁ n₂ := by
  have henable : ∀ s : Option Bool, ((if served₁ then some false else s) =
      if served₂ then some false else s) ↔ (k.Served n₁ ↔ k.Served n₂) ∨ s = some false := by
    intro s
    rw [← h₁, ← h₂]
    cases served₁ with
    | true => cases served₂ with
      | true => simp
      | false => simp only [if_pos, if_neg Bool.false_ne_true]; simp [eq_comm]
    | false => cases served₂ with
      | true => simp
      | false => simp
  cases k with
  | vmxEnable => exact henable _
  | svmEnable => exact henable _
  | vmxDisable | vmxon region | vmxoff | vmlaunch | svmDisable | vmrun vmcb =>
    exact iff_of_true rfl (.inl Iff.rfl)

/-! ## One call -/

/-- The vCPU belongs to the VM. -/
def Owned (c x : Addr) (n : NestedMachine) : Prop := ∃ u, n.host.vcpus c = some u ∧ u.vm = x

/-- The vCPUs at `a` and `b` belong to the VM at `x`, whose nested state is there if it has one. -/
structure Sharing (a b x : Addr) (n : NestedMachine) : Prop where
  initialized : n.host.gInitialized = true
  first : Owned a x n
  second : Owned b x n
  vm : ∃ v, n.host.vms x = some v ∧ (∀ p, v.nestedVmx = some p → ∃ r, n.vmxs p = some r) ∧
    ∀ p, v.nestedSvm = some p → ∃ r, n.svms p = some r

variable {w : VmxWorld} {a b c x : Addr} {n n' : NestedMachine}

theorem wp_getOwner_of {Q : Addr × Nexusvm → NestedMachine → Prop} (hc : Owned c x n)
    {v : Nexusvm} (hv : n.host.vms x = some v) (hQ : Q (x, v) n) : wp (getOwner c) Q n := by
  obtain ⟨u, hu, rfl⟩ := hc
  rw [wp_getOwner]
  exact ⟨u, hu, v, hv, hQ⟩

/-- **What is reported** for a vCPU is the mode of its VM. -/
theorem nestedGetStatus_mode (h : Sharing a b x n) (hc : Owned c x n) :
    wp (nestedGetStatus c) (fun s _ => s = modeStatus (nestedMode x n)) n := by
  obtain ⟨v, hv, hvmx, hsvm⟩ := h.vm
  rw [nestedGetStatus, wp_bind, wp_onProgram, wp_getHv]
  refine ⟨h.initialized, ?_⟩
  rw [NestedMachine.setHost_self, nestedMode, hv, Option.bind_some]
  cases hvendor : n.host.hv.cpuVendor with
  | unknown =>
    rw [wp_pure]
    rfl
  | intel =>
    simp only [wp_bind]
    refine wp_getOwner_of hc hv ?_
    cases hnested : v.nestedVmx with
    | none =>
      simp only [wp_pure]
      rfl
    | some p =>
      obtain ⟨r, hr⟩ := hvmx p hnested
      simp only [wp_bind, wp_getNestedVmx, wp_pure]
      refine ⟨r, hr, ?_⟩
      rw [Option.bind_some, hr]
      rfl
  | amd =>
    simp only [wp_bind]
    refine wp_getOwner_of hc hv ?_
    cases hnested : v.nestedSvm with
    | none =>
      simp only [wp_pure]
      rfl
    | some p =>
      obtain ⟨r, hr⟩ := hsvm p hnested
      simp only [wp_bind, wp_getNestedSvm, wp_pure]
      refine ⟨r, hr, ?_⟩
      rw [Option.bind_some, hr]
      rfl

/-- What a call has done: the mode, and whether there was memory. -/
structure Called (a b x : Addr) (k : NestedCall) (n n' : NestedMachine) : Prop where
  sharing : Sharing a b x n'
  hv : n'.host.hv = n.host.hv
  mode : ∃ served : Bool, (served = true ↔ k.Served n) ∧
    nestedMode x n' = k.next served (nestedMode x n)

theorem nestedMode_intel (hvendor : n.host.hv.cpuVendor = .intel) {v : Nexusvm}
    (hv : n.host.vms x = some v) :
    nestedMode x n = (v.nestedVmx.bind n.vmxs).map (·.l1GuestMode) := by
  rw [nestedMode, hv, Option.bind_some, hvendor]

theorem nestedMode_vmx (hvendor : n.host.hv.cpuVendor = .intel) {v : Nexusvm} {p : Addr}
    {r : NestedVmx} (hv : n.host.vms x = some v) (hp : v.nestedVmx = some p) (hr : n.vmxs p = some r) :
    nestedMode x n = some r.l1GuestMode := by
  rw [nestedMode_intel hvendor hv, hp, Option.bind_some, hr, Option.map_some]

theorem nestedMode_amd (hvendor : n.host.hv.cpuVendor = .amd) {v : Nexusvm}
    (hv : n.host.vms x = some v) :
    nestedMode x n = (v.nestedSvm.bind n.svms).map (·.nestedRunning) := by
  rw [nestedMode, hv, Option.bind_some, hvendor]

theorem nestedMode_svm (hvendor : n.host.hv.cpuVendor = .amd) {v : Nexusvm} {p : Addr}
    {r : NestedSvm} (hv : n.host.vms x = some v) (hp : v.nestedSvm = some p) (hr : n.svms p = some r) :
    nestedMode x n = some r.nestedRunning := by
  rw [nestedMode_amd hvendor hv, hp, Option.bind_some, hr, Option.map_some]

theorem nestedMode_of_host (hhost : n'.host = n.host) (hvmxs : n'.vmxs = n.vmxs)
    (hsvms : n'.svms = n.svms) : nestedMode x n' = nestedMode x n := by
  rw [nestedMode, nestedMode, hhost, hvmxs, hsvms]

theorem Sharing.of_host (h : Sharing a b x n) (hhost : n'.host = n.host) (hvmxs : n'.vmxs = n.vmxs)
    (hsvms : n'.svms = n.svms) : Sharing a b x n' := by
  refine ⟨?_, ?_, ?_, ?_⟩
  · rw [hhost]
    exact h.initialized
  · rw [Owned, hhost]
    exact h.first
  · rw [Owned, hhost]
    exact h.second
  · rw [hhost, hvmxs, hsvms]
    exact h.vm

theorem Sharing.putVmx (h : Sharing a b x n) (p : Addr) (r : NestedVmx) :
    Sharing a b x (n.setVmx p (some r)) := by
  obtain ⟨v, hv, hvmx, hsvm⟩ := h.vm
  refine ⟨h.initialized, h.first, h.second, v, hv, fun q hq => ?_, hsvm⟩
  by_cases hqp : q = p
  · subst hqp
    exact ⟨r, Function.update_self _ _ _⟩
  · obtain ⟨r', hr'⟩ := hvmx q hq
    exact ⟨r', (Function.update_of_ne hqp _ _).trans hr'⟩

theorem Sharing.putSvm (h : Sharing a b x n) (p : Addr) (r : NestedSvm) :
    Sharing a b x (n.setSvm p (some r)) := by
  obtain ⟨v, hv, hvmx, hsvm⟩ := h.vm
  refine ⟨h.initialized, h.first, h.second, v, hv, hvmx, fun q hq => ?_⟩
  by_cases hqp : q = p
  · subst hqp
    exact ⟨r, Function.update_self _ _ _⟩
  · obtain ⟨r', hr'⟩ := hsvm q hq
    exact ⟨r', (Function.update_of_ne hqp _ _).trans hr'⟩

/-- **The nested VMX record is changed.** -/
theorem modifyNestedVmx_mode (h : Sharing a b x n) (hc : Owned c x n)
    (hvendor : n.host.hv.cpuVendor = .intel) {f : NestedVmx → NestedVmx} {g : Bool → Bool}
    (hf : ∀ r, (f r).l1GuestMode = g r.l1GuestMode) :
    wp (modifyNestedVmx c f) (fun _ n' => Sharing a b x n' ∧ n'.host = n.host ∧
      nestedMode x n' = (nestedMode x n).map g) n := by
  obtain ⟨v, hv, hvmx, -⟩ := h.vm
  rw [modifyNestedVmx, wp_bind]
  refine wp_getOwner_of hc hv ?_
  cases hnested : v.nestedVmx with
  | none =>
    simp only [hnested, wp_pure]
    refine ⟨h, trivial, ?_⟩
    rw [nestedMode_intel hvendor hv, hnested]
    rfl
  | some p =>
    obtain ⟨r, hr⟩ := hvmx p hnested
    simp only [hnested, wp_bind, wp_getNestedVmx, wp_putNestedVmx]
    refine ⟨r, hr, h.putVmx p (f r), rfl, ?_⟩
    rw [nestedMode_vmx hvendor hv hnested hr, Option.map_some, ← hf]
    exact nestedMode_vmx (n := n.setVmx p (some (f r))) hvendor hv hnested (Function.update_self _ _ _)

theorem Called.refused {k : NestedCall} (h : Sharing a b x n') (hhv : n'.host.hv = n.host.hv)
    (hmode : nestedMode x n' = nestedMode x n) (hk : k.next false (nestedMode x n) = nestedMode x n)
    (hno : ¬ k.Served n) : Called a b x k n n' :=
  ⟨h, hhv, false, iff_of_false Bool.false_ne_true hno, hmode.trans hk.symm⟩

theorem nestedVmxEnable_called (h : Sharing a b x n) (hc : Owned c x n)
    (hvendor : n.host.hv.cpuVendor = .intel) :
    wp (nestedVmxEnable (some c)) (fun _ n' => Called a b x .vmxEnable n n') n := by
  obtain ⟨v, hv, -, hsvm⟩ := h.vm
  rw [nestedVmxEnable, wp_bind, wp_onProgram, wp_getHv]
  refine ⟨h.initialized, ?_⟩
  rw [NestedMachine.setHost_self, if_neg (not_not.mpr hvendor), wp_bind, wp_onProgram]
  refine wp_alignedAlloc_first (fun p _ hserved => ?_) fun hno => ?_
  · simp only [vmxAllocVmcsRegion, wp_bind, wp_onProgram, wp_getHv]
    refine ⟨h.initialized, ?_⟩
    refine wp_alignedAlloc_first (fun region _ hserved' => ?_) fun hno' => ?_
    · simp only [wp_pure, wp_bind, wp_putNestedVmx]
      refine wp_getOwner_of (x := x) hc hv ?_
      simp only [wp_onProgram, wp_putVm]
      generalize hr : ({ vmcsLinkPointer := UInt64.ofNat region } : NestedVmx) = r
      have hmine : Function.update n.vmxs p (some r) p = some r := Function.update_self _ _ _
      have hself : ∀ v' : Nexusvm, Function.update n.host.vms x (some v') x = some v' :=
        fun _ => Function.update_self _ _ _
      refine ⟨⟨h.initialized, h.first, h.second, _, hself _, ?_, hsvm⟩, rfl, true,
        iff_of_true rfl ((hserved _).mpr ((hserved' []).mpr trivial)), ?_⟩
      · rintro q ⟨⟩
        exact ⟨r, hmine⟩
      · refine Eq.trans (nestedMode_vmx ?_ (hself _) rfl hmine) ?_
        · exact hvendor
        · subst hr
          rfl
    · simp only [wp_pure, wp_bind, wp_onProgram, wp_freeBuffer_some]
      refine Called.refused (k := .vmxEnable) ⟨h.initialized, h.first, h.second, h.vm⟩ rfl rfl rfl ?_
      exact fun hs => hno' [] ((hserved _).mp hs)
  · simp only [wp_pure]
    exact .refused (k := .vmxEnable) ⟨h.initialized, h.first, h.second, h.vm⟩ rfl rfl rfl (hno _)

theorem nestedVmxDisable_called (h : Sharing a b x n) (hc : Owned c x n)
    (hvendor : n.host.hv.cpuVendor = .intel) :
    wp (nestedVmxDisable (some c)) (fun _ n' => Called a b x .vmxDisable n n') n := by
  obtain ⟨v, hv, hvmx, hsvm⟩ := h.vm
  rw [nestedVmxDisable, wp_bind]
  refine wp_getOwner_of hc hv ?_
  cases hnested : v.nestedVmx with
  | none =>
    simp only [hnested, wp_pure]
    refine ⟨h, rfl, true, iff_of_true rfl trivial, ?_⟩
    rw [nestedMode_intel hvendor hv, hnested]
    rfl
  | some p =>
    obtain ⟨r, hr⟩ := hvmx p hnested
    simp only [hnested, wp_bind, wp_getNestedVmx, wp_when, wp_onProgram, wp_freeBuffer_some, wp_modify,
      wp_putVm]
    have hself : ∀ v' : Nexusvm, Function.update n.host.vms x (some v') x = some v' :=
      fun _ => Function.update_self _ _ _
    have hdisabled : ∀ n', n'.host.gInitialized = true → n'.host.hv = n.host.hv →
        n'.host.vcpus = n.host.vcpus → n'.svms = n.svms →
        n'.host.vms x = some { v with nestedVmx := none } → Called a b x .vmxDisable n n' := by
      intro n' hinit hhv hvcpus hsvms hvm
      refine ⟨⟨hinit, ?_, ?_, _, hvm, fun q hq => ?_, fun q hq => ?_⟩, hhv, true,
        iff_of_true rfl trivial, ?_⟩
      · rw [Owned, hvcpus]
        exact h.first
      · rw [Owned, hvcpus]
        exact h.second
      · cases hq
      · rw [hsvms]
        exact hsvm q hq
      · rw [nestedMode_intel (by rw [hhv]; exact hvendor) hvm]
        rfl
    refine ⟨r, hr, fun _ => ?_, fun _ => ?_⟩
    · exact hdisabled _ h.initialized rfl rfl rfl (hself _)
    · exact hdisabled _ h.initialized rfl rfl rfl (hself _)

theorem nestedSvmEnable_called (h : Sharing a b x n) (hc : Owned c x n)
    (hvendor : n.host.hv.cpuVendor = .amd) :
    wp (nestedSvmEnable (some c)) (fun _ n' => Called a b x .svmEnable n n') n := by
  obtain ⟨v, hv, hvmx, -⟩ := h.vm
  rw [nestedSvmEnable, wp_bind, wp_onProgram, wp_getHv]
  refine ⟨h.initialized, ?_⟩
  rw [NestedMachine.setHost_self, if_neg (not_not.mpr hvendor), wp_bind, wp_onProgram]
  refine wp_alignedAlloc_first (fun p _ hserved => ?_) fun hno => ?_
  · simp only [wp_bind, wp_putNestedSvm, wp_pure]
    refine wp_getOwner_of (x := x) hc hv ?_
    simp only [wp_onProgram, wp_putVm]
    have hmine : Function.update n.svms p (some {}) p = some {} := Function.update_self _ _ _
    have hself : ∀ v' : Nexusvm, Function.update n.host.vms x (some v') x = some v' :=
      fun _ => Function.update_self _ _ _
    refine ⟨⟨h.initialized, h.first, h.second, _, hself _, hvmx, ?_⟩, rfl, true,
      iff_of_true rfl ((hserved []).mpr trivial), ?_⟩
    · rintro q ⟨⟩
      exact ⟨{}, hmine⟩
    · refine Eq.trans (nestedMode_svm ?_ (hself _) rfl hmine) rfl
      exact hvendor
  · simp only [wp_pure]
    exact .refused (k := .svmEnable) ⟨h.initialized, h.first, h.second, h.vm⟩ rfl rfl rfl (hno _)

theorem nestedSvmDisable_called (h : Sharing a b x n) (hc : Owned c x n)
    (hvendor : n.host.hv.cpuVendor = .amd) :
    wp (nestedSvmDisable (some c)) (fun _ n' => Called a b x .svmDisable n n') n := by
  obtain ⟨v, hv, hvmx, hsvm⟩ := h.vm
  rw [nestedSvmDisable, wp_bind]
  refine wp_getOwner_of hc hv ?_
  cases hnested : v.nestedSvm with
  | none =>
    simp only [hnested, wp_pure]
    refine ⟨h, rfl, true, iff_of_true rfl trivial, ?_⟩
    rw [nestedMode_amd hvendor hv, hnested]
    rfl
  | some p =>
    simp only [hnested, wp_bind, wp_onProgram, wp_freeBuffer_some, wp_modify, wp_putVm]
    have hself : ∀ v' : Nexusvm, Function.update n.host.vms x (some v') x = some v' :=
      fun _ => Function.update_self _ _ _
    refine ⟨⟨h.initialized, h.first, h.second, _, hself _, hvmx, by simp⟩, rfl, true,
      iff_of_true rfl trivial, ?_⟩
    refine Eq.trans (nestedMode_amd ?_ (hself _)) rfl
    exact hvendor

theorem nestedSvmHandleVmrun_called (h : Sharing a b x n) (hc : Owned c x n)
    (hvendor : n.host.hv.cpuVendor = .amd) (vmcb : UInt64) :
    wp (nestedSvmHandleVmrun (some c) vmcb) (fun _ n' => Called a b x (.vmrun vmcb) n n') n := by
  obtain ⟨v, hv, -, hsvm⟩ := h.vm
  rw [nestedSvmHandleVmrun, wp_bind]
  refine wp_getOwner_of hc hv ?_
  cases hnested : v.nestedSvm with
  | none =>
    simp only [hnested, wp_pure]
    refine ⟨h, rfl, true, iff_of_true rfl trivial, ?_⟩
    rw [nestedMode_amd hvendor hv, hnested]
    rfl
  | some p =>
    obtain ⟨r, hr⟩ := hsvm p hnested
    simp only [hnested, wp_bind, wp_getNestedSvm, wp_putNestedSvm, wp_pure]
    refine ⟨r, hr, h.putSvm p _, rfl, true, iff_of_true rfl trivial, ?_⟩
    rw [nestedMode_svm hvendor hv hnested hr]
    exact nestedMode_svm (n := n.setSvm p _) hvendor hv hnested (Function.update_self _ _ _)

/-- **One call.** -/
theorem NestedCall.perform_spec (k : NestedCall) (h : Sharing a b x n) (hc : Owned c x n)
    (hvendor : k.vendor = n.host.hv.cpuVendor) :
    wp (k.perform w c) (fun _ n' => Called a b x k n n') n := by
  cases k with
  | vmxEnable =>
    rw [perform, wp_discard]
    exact nestedVmxEnable_called h hc hvendor.symm
  | vmxDisable => exact nestedVmxDisable_called h hc hvendor.symm
  | vmxon region =>
    rw [perform, wp_discard, nestedVmxHandleVmxon]
    split_ifs
    · rw [wp_pure]
      exact ⟨h, rfl, true, iff_of_true rfl trivial, rfl⟩
    · rw [wp_bind]
      refine wp_mono (modifyNestedVmx_mode (g := id) h hc hvendor.symm fun r => rfl) ?_
      rintro _ n' ⟨hs, hhost, hmode⟩
      rw [wp_pure]
      exact ⟨hs, by rw [hhost], true, iff_of_true rfl trivial, by rw [hmode, Option.map_id]; rfl⟩
  | vmxoff =>
    rw [perform, wp_discard, nestedVmxHandleVmxoff, wp_bind]
    refine wp_mono (modifyNestedVmx_mode (g := fun _ => false) h hc hvendor.symm fun r => rfl) ?_
    rintro _ n' ⟨hs, hhost, hmode⟩
    rw [wp_pure]
    exact ⟨hs, by rw [hhost], true, iff_of_true rfl trivial, hmode⟩
  | vmlaunch =>
    rw [perform, wp_discard, nestedVmxHandleVmlaunch, wp_bind]
    refine wp_mono (modifyNestedVmx_mode (g := fun _ => true) h hc hvendor.symm fun r => rfl) ?_
    rintro _ n' ⟨hs, hhost, hmode⟩
    refine wp_onMachine_of_host (vmxVmentry_host w) fun _ m hm => ?_
    have hm' : (n'.setMachine m).host = n.host := Eq.trans hm hhost
    refine ⟨hs.of_host hm rfl rfl, by rw [hm'], true, iff_of_true rfl trivial, ?_⟩
    have hback : nestedMode x (n'.setMachine m) = nestedMode x n' := nestedMode_of_host hm rfl rfl
    exact hback.trans hmode
  | svmEnable =>
    rw [perform, wp_discard]
    exact nestedSvmEnable_called h hc hvendor.symm
  | svmDisable => exact nestedSvmDisable_called h hc hvendor.symm
  | vmrun vmcb =>
    rw [perform, wp_discard]
    exact nestedSvmHandleVmrun_called h hc hvendor.symm vmcb

/-! ## Runs -/

/-- The calls are on the two vCPUs, and for the vendor. -/
def OnBoth (a b : Addr) (n : NestedMachine) (calls : List (Addr × NestedCall)) : Prop :=
  ∀ k ∈ calls, (k.1 = a ∨ k.1 = b) ∧ k.2.vendor = n.host.hv.cpuVendor

theorem nestedCalls_spec (h : Sharing a b x n) {calls : List (Addr × NestedCall)}
    (hcalls : OnBoth a b n calls) : wp (nestedCalls w calls) (fun _ n' => Sharing a b x n' ∧
      n'.host.hv = n.host.hv) n := by
  refine wp_runOps (C := fun _ _ => True) (I := fun _ n' => Sharing a b x n' ∧ n'.host.hv = n.host.hv)
    ?_ (along_of_forall (fun _ _ _ => trivial) n) ⟨h, rfl⟩
  rintro pre ⟨c, k⟩ n₁ hk - ⟨hs, hhv⟩
  obtain ⟨hc, hvendor⟩ := hcalls _ hk
  have howned : Owned c x n₁ := by
    rcases hc with rfl | rfl
    · exact hs.first
    · exact hs.second
  refine wp_mono (k.perform_spec hs howned (by rw [hvendor, hhv])) fun _ n₂ hcalled => ?_
  exact ⟨hcalled.sharing, hcalled.hv.trans hhv⟩

theorem statusSeen_eq (h : Sharing a b x n) {calls : List (Addr × NestedCall)}
    (hcalls : OnBoth a b n calls) : ∃ n₁, (nestedCalls w calls).run n = some ((), n₁) ∧
      statusSeen w b calls n = some (modeStatus (nestedMode x n₁)) ∧ Sharing a b x n₁ ∧
        n₁.host.hv = n.host.hv := by
  obtain ⟨_, n₁, hrun, hs, hhv⟩ := nestedCalls_spec (w := w) h hcalls
  refine ⟨n₁, hrun, ?_, hs, hhv⟩
  obtain ⟨s, n₂, hstatus, rfl⟩ := nestedGetStatus_mode hs hs.second
  rw [statusSeen, run_bind hrun, hstatus]
  rfl

theorem without_append (a : Addr) (pre : List (Addr × NestedCall)) (k : Addr × NestedCall) :
    without a (pre ++ [k]) = if k.1 = a then without a pre else without a pre ++ [k] := by
  rw [without, List.filter_append]
  split_ifs with hk
  · simp [without, hk]
  · simp [without, hk]

theorem nestedCalls_append {pre : List (Addr × NestedCall)} {k : Addr × NestedCall} {n₁ : NestedMachine}
    (hrun : (nestedCalls w pre).run n = some ((), n₁)) (hs : Sharing a b x n₁)
    (hk : (k.1 = a ∨ k.1 = b) ∧ k.2.vendor = n₁.host.hv.cpuVendor) :
    ∃ n₁', (nestedCalls w (pre ++ [k])).run n = some ((), n₁') ∧ Called a b x k.2 n₁ n₁' := by
  have howned : Owned k.1 x n₁ := by
    rcases hk.1 with hc | hc
    · rw [hc]
      exact hs.first
    · rw [hc]
      exact hs.second
  have hwp : wp (nestedCalls w (pre ++ [k])) (fun _ n₁' => Called a b x k.2 n₁ n₁') n := by
    rw [nestedCalls, wp_runOps_append]
    exact wp_of_run hrun (k.2.perform_spec hs howned hk.2)
  obtain ⟨_, n₁', hrun', hcalled⟩ := hwp
  exact ⟨n₁', hrun', hcalled⟩

/-- **What one vCPU sees of another's calls.** -/
theorem nested_status_iff (h : Sharing a b x n) {calls : List (Addr × NestedCall)}
    (hcalls : OnBoth a b n calls) :
    (∀ pre, pre <+: calls → statusSeen w b pre n = statusSeen w b (without a pre) n) ↔
      ∀ pre k, pre ++ [k] <+: calls → ∀ n₁ n₂, (nestedCalls w pre).run n = some ((), n₁) →
        (nestedCalls w (without a pre)).run n = some ((), n₂) →
          if k.1 = a then k.2.Idle x n₁ else k.2.SameAnswer x n₁ n₂ := by
  refine forall_prefix_iff rfl fun pre k hpre hsame => ?_
  have hsub : ∀ k' ∈ pre ++ [k], (k'.1 = a ∨ k'.1 = b) ∧ k'.2.vendor = n.host.hv.cpuVendor :=
    fun k' hk' => hcalls k' (hpre.subset hk')
  have hpre₁ : OnBoth a b n pre := fun k' hk' => hsub k' (List.mem_append_left _ hk')
  have hpre₂ : OnBoth a b n (without a pre) := fun k' hk' => hpre₁ k' (List.mem_of_mem_filter hk')
  have hk := hsub k (List.mem_append_right _ (List.mem_singleton_self k))
  obtain ⟨n₁, hrun₁, hseen₁, hs₁, hhv₁⟩ := statusSeen_eq (w := w) h hpre₁
  obtain ⟨n₂, hrun₂, hseen₂, hs₂, hhv₂⟩ := statusSeen_eq (w := w) h hpre₂
  rw [hseen₁, hseen₂, Option.some.injEq, modeStatus_inj] at hsame
  obtain ⟨n₁', hrun₁', hcalled₁⟩ :=
    nestedCalls_append hrun₁ hs₁ ⟨hk.1, hk.2.trans (congrArg _ hhv₁).symm⟩
  obtain ⟨served₁, hserved₁, hmode₁⟩ := hcalled₁.mode
  have hseen₁' : statusSeen w b (pre ++ [k]) n = some (modeStatus (nestedMode x n₁')) := by
    obtain ⟨m, hm, hseen, -⟩ := statusSeen_eq (w := w) h hsub
    cases hm.symm.trans hrun₁'
    exact hseen
  -- both runs have one end each
  have hends : ∀ D : NestedMachine → NestedMachine → Prop,
      (∀ m₁ m₂, (nestedCalls w pre).run n = some ((), m₁) →
        (nestedCalls w (without a pre)).run n = some ((), m₂) → D m₁ m₂) ↔ D n₁ n₂ := by
    intro D
    refine ⟨fun hD => hD n₁ n₂ hrun₁ hrun₂, fun hD m₁ m₂ h₁ h₂ => ?_⟩
    cases hrun₁.symm.trans h₁
    cases hrun₂.symm.trans h₂
    exact hD
  rw [hends, without_append, hseen₁', hmode₁]
  by_cases hka : k.1 = a
  · rw [if_pos hka, if_pos hka, hseen₂, Option.some.injEq, modeStatus_inj, ← hsame]
    exact NestedCall.next_eq_self_iff hserved₁
  · obtain ⟨n₂', hrun₂', hcalled₂⟩ :=
      nestedCalls_append hrun₂ hs₂ ⟨hk.1, hk.2.trans (congrArg _ hhv₂).symm⟩
    obtain ⟨served₂, hserved₂, hmode₂⟩ := hcalled₂.mode
    have hseen₂' : statusSeen w b (without a pre ++ [k]) n = some (modeStatus (nestedMode x n₂')) := by
      have hboth : OnBoth a b n (without a pre ++ [k]) := by
        intro k' hk'
        rcases List.mem_append.mp hk' with hk' | hk'
        · exact hpre₂ k' hk'
        · rw [List.mem_singleton.mp hk']
          exact hk
      obtain ⟨m, hm, hseen, -⟩ := statusSeen_eq (w := w) h hboth
      cases hm.symm.trans hrun₂'
      exact hseen
    rw [if_neg hka, if_neg hka, hseen₂', hmode₂, Option.some.injEq, modeStatus_inj, ← hsame]
    exact NestedCall.next_eq_next_iff hserved₁ hserved₂

theorem sharing_nestedStart : Sharing 3 2 1 (nestedStart .intel) :=
  ⟨rfl, ⟨_, rfl, rfl⟩, ⟨_, rfl, rfl⟩, _, rfl, nofun, nofun⟩

theorem onBoth_launch : OnBoth 3 2 (nestedStart .intel) [(2, .vmxEnable), (3, .vmlaunch)] := by
  intro k hk
  rcases List.mem_pair.mp hk with rfl | rfl
  · exact ⟨.inr rfl, rfl⟩
  · exact ⟨.inl rfl, rfl⟩

theorem nested_status_iff_launch :
    (∀ pre, pre <+: [(2, .vmxEnable), (3, .vmlaunch)] →
      statusSeen bareWorld 2 pre (nestedStart .intel) =
        statusSeen bareWorld 2 (without 3 pre) (nestedStart .intel)) ↔
      ∀ pre (k : Addr × NestedCall), pre ++ [k] <+: [(2, .vmxEnable), (3, .vmlaunch)] → ∀ n₁ n₂,
        (nestedCalls bareWorld pre).run (nestedStart .intel) = some ((), n₁) →
          (nestedCalls bareWorld (without 3 pre)).run (nestedStart .intel) = some ((), n₂) →
            if k.1 = 3 then k.2.Idle 1 n₁ else k.2.SameAnswer 1 n₁ n₂ :=
  nested_status_iff sharing_nestedStart onBoth_launch

/-- A launch by one vCPU shows as L2 running on the other. -/
theorem launch_shows_on_other : Sharing 3 2 1 (nestedStart .intel) ∧
    OnBoth 3 2 (nestedStart .intel) [(2, .vmxEnable), (3, .vmlaunch)] ∧
      statusSeen bareWorld 2 [(2, .vmxEnable), (3, .vmlaunch)] (nestedStart .intel) ≠
        statusSeen bareWorld 2 (without 3 [(2, .vmxEnable), (3, .vmlaunch)]) (nestedStart .intel) :=
  ⟨sharing_nestedStart, onBoth_launch, by decide +kernel⟩

end NexusVM
