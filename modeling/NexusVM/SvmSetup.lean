import NexusVM.Runs
import NexusVM.Svm

/-!
# The controls of a VMCB

What `svm_vcpu_setup` leaves of the intercepts, of the pointer to the MSR bitmap and of the root of the
nested page tables. The state of the guest is written behind them, from the start of the VMCB on.

* `controlMem`, `setupVmcb_run`: the memory before the state of the guest is written, and after it;
* `bitAt_eq_testBit`, `wordAt_putSlots_of_apart`: bits of a word, and words that no slot overlaps;
* `Controls`, `KeepsControls`, `controls_putSlots_iff`: the registers for which the controls stay;
* `Unweakened`, **`intercepts_kept_iff`**: when no register weakens an intercept.
-/

namespace NexusVM

open Flags Prog

variable {h h' : Host} {c : Addr} {u : Nexusvcpu} {v : Nexusvm} {s : CpuState} {vmcb : ℕ}
  {m : PhysMem}

/-! ## The memory -/

/-- Turn a bit of the byte at `a` on. -/
def PhysMem.enableBit (m : PhysMem) (a bit : ℕ) : PhysMem := { m with ram := storeBit m.ram true a bit }

/-- The memory after the intercepts are enabled. -/
def interceptMem (m : PhysMem) (vmcb : ℕ) : PhysMem :=
  interceptBits.foldl (fun m bit => m.enableBit (vmcb + VMCB_OFFSET_INTERCEPT + bit / 8) (bit % 8)) m

/-- The memory after the two pointers are written. -/
def mapsMem (m : PhysMem) (hv : Hypervisor) (u : Nexusvcpu) (v : Nexusvm) (vmcb : ℕ) : PhysMem :=
  let m := if u.msrBitmap.isSome then
    m.putWord (vmcb + VMCB_OFFSET_MSR_MAP) (pointerValue u.msrBitmap) else m
  if hv.hasNpt ∧ v.eptRoot.isSome then
    m.putWord (vmcb + VMCB_OFFSET_NESTED_PAGING_ROOT) (pointerValue v.eptRoot) else m

/-- What is in memory before the state of the guest is written. -/
def controlMem (m : PhysMem) (hv : Hypervisor) (u : Nexusvcpu) (v : Nexusvm) (vmcb : ℕ) : PhysMem :=
  mapsMem (interceptMem m vmcb) hv u v vmcb

/-- The slots of a set-up. -/
def guestSlots (s : CpuState) : List (ℕ × UInt64) := gprSlots s.gprs ++ stateSlots s

theorem wp_enableIntercepts {Q : Unit → Host → Prop} :
    wp (enableIntercepts vmcb) Q h ↔ Q () (h.setMem (interceptMem h.mem vmcb)) := by
  unfold enableIntercepts interceptMem
  generalize interceptBits = bits
  induction bits generalizing h with
  | nil => rw [forEach, wp_pure]; rfl
  | cons bit bits ih =>
    rw [forEach, wp_bind, wp_changeByte, ih]
    rfl

theorem wp_writeRoot {Q : Unit → Host → Prop} (hv : h.vms u.vm = some v) :
    wp (Prog.when h.hv.hasNpt do
      let v ← getVm u.vm
      Prog.when v.eptRoot.isSome
        (writeWord (vmcb + VMCB_OFFSET_NESTED_PAGING_ROOT) (pointerValue v.eptRoot))) Q h ↔
      Q () (h.setMem (if h.hv.hasNpt ∧ v.eptRoot.isSome then
        h.mem.putWord (vmcb + VMCB_OFFSET_NESTED_PAGING_ROOT) (pointerValue v.eptRoot) else h.mem)) := by
  have hself : h.setMem h.mem = h := rfl
  by_cases hnpt : h.hv.hasNpt = true
  · by_cases hroot : v.eptRoot.isSome = true
    · simp [Prog.when, hnpt, hv, hroot]
    · simp [Prog.when, hnpt, hv, hroot, hself]
  · simp [Prog.when, hnpt, hself]

theorem writeMaps_run (hg : h.gInitialized = true) (hv : h.vms u.vm = some v) :
    wp (writeMaps u vmcb) (fun _ h' => h' = h.setMem (mapsMem h.mem h.hv u v vmcb)) h := by
  rw [writeMaps, wp_bind, wp_getHv]
  refine ⟨hg, ?_⟩
  rw [wp_bind, wp_when, mapsMem]
  refine ⟨fun hmsr => ?_, fun hmsr => ?_⟩
  · rw [wp_writeWord, if_pos hmsr]
    exact (wp_writeRoot (h := h.setMem (h.mem.putWord _ _)) hv).mpr rfl
  · rw [if_neg hmsr]
    exact (wp_writeRoot (h := h) (Q := fun _ h' => h' = h.setMem _) hv).mpr rfl

/-- **A set-up**, as a function of the memory. -/
theorem setupVmcb_run (hg : h.gInitialized = true) (hu : h.vcpus c = some u)
    (hvmcb : u.vmcb = some vmcb) (hv : h.vms u.vm = some v) : (setupVmcb c).run h =
      some (.ok, h.setMem ((controlMem h.mem h.hv u v vmcb).putSlots vmcb (guestSlots u.cpuState))) := by
  refine wp_eq_iff.mp ?_
  rw [setupVmcb, wp_bind, wp_getVcpu]
  refine ⟨u, hu, ?_⟩
  rw [hvmcb]
  rw [wp_bind, wp_enableIntercepts, controlMem]
  generalize interceptMem h.mem vmcb = m
  rw [wp_bind]
  refine wp_mono (writeMaps_run (h := h.setMem m) hg hv) ?_
  rintro _ _ rfl
  rw [wp_bind, wp_writeSlots, wp_pure]
  exact ⟨rfl, rfl⟩

/-! ## What is left -/

theorem bitAt_eq_testBit (m : PhysMem) (vmcb j : ℕ) {t : ℕ} (ht : t < 64) :
    bitAt m.ram vmcb (64 * j + t) = (m.wordAt (vmcb + 8 * j)).toNat.testBit t := by
  have hbyte : (64 * j + t) / 8 = 8 * j + t / 8 := by omega
  have hbit : (64 * j + t) % 8 = t % 8 := by omega
  have hlt : ofLittleEndian 8 (m.bytesAt (vmcb + 8 * j) 8) < 2 ^ 64 := ofLittleEndian_lt 8 _
  change _ = (UInt64.ofNat (ofLittleEndian 8 (m.bytesAt (vmcb + 8 * j) 8))).toNat.testBit t
  rw [UInt64.toNat_ofNat', Nat.mod_eq_of_lt hlt, testBit_ofLittleEndian _ (by omega), bitAt, hbyte, hbit,
    ← BitVec.testBit_toNat, UInt8.toNat_toBitVec, PhysMem.bytesAt, List.getD_eq_getElem?_getD,
    List.getElem?_map, List.getElem?_range (by omega), Option.map_some, Option.getD_some, Nat.add_assoc]

theorem wordAt_putSlots_of_apart {slots : List (ℕ × UInt64)} {offset : ℕ}
    (happart : ∀ p ∈ slots, p.1 + 8 ≤ offset ∨ offset + 8 ≤ p.1) (m : PhysMem) :
    (m.putSlots vmcb slots).wordAt (vmcb + offset) = m.wordAt (vmcb + offset) := by
  induction slots using List.reverseRecOn with
  | nil => rfl
  | append_singleton slots p ih =>
    have hp := happart p (by simp)
    rw [PhysMem.putSlots, List.foldl_append]
    refine (PhysMem.wordAt_putWord_of_apart (by omega)).trans ?_
    exact ih fun q hq => happart q (List.mem_append_left _ hq)

/-- The controls as `svm_vcpu_setup` means them. -/
structure Controls (u : Nexusvcpu) (vmcb : ℕ) (m : PhysMem) : Prop where
  intercepts : ∀ bit ∈ interceptBits, bitAt m.ram (vmcb + VMCB_OFFSET_INTERCEPT) bit = true
  msrMap : m.wordAt (vmcb + VMCB_OFFSET_MSR_MAP) = pointerValue u.msrBitmap

/-- The same controls in two VMCBs. -/
structure SameControls (vmcb : ℕ) (m m' : PhysMem) : Prop where
  intercepts : ∀ bit ∈ interceptBits, bitAt m.ram (vmcb + VMCB_OFFSET_INTERCEPT) bit =
    bitAt m'.ram (vmcb + VMCB_OFFSET_INTERCEPT) bit
  msrMap : m.wordAt (vmcb + VMCB_OFFSET_MSR_MAP) = m'.wordAt (vmcb + VMCB_OFFSET_MSR_MAP)
  root : m.wordAt (vmcb + VMCB_OFFSET_NESTED_PAGING_ROOT) =
    m'.wordAt (vmcb + VMCB_OFFSET_NESTED_PAGING_ROOT)

/-- The registers that lie where the intercepts are. -/
def GuestGprs.interceptWord (g : GuestGprs) : ℕ → UInt64
  | 0 => g.rax
  | 1 => g.rbx
  | 2 => g.rcx
  | _ => g.rdx

/-- The registers have a bit wherever there is an intercept, and RSI is the address of the bitmap. -/
structure KeepsControls (msrBitmap : Option Addr) (g : GuestGprs) : Prop where
  intercepts : ∀ bit ∈ interceptBits, (g.interceptWord (bit / 64)).toNat.testBit (bit % 64) = true
  msrMap : g.rsi = pointerValue msrBitmap

theorem interceptWord_slot (s : CpuState) {j : ℕ} (hj : j < 4) :
    (8 * j, s.gprs.interceptWord j) ∈ guestSlots s := by
  obtain rfl | rfl | rfl | rfl : j = 0 ∨ j = 1 ∨ j = 2 ∨ j = 3 := by omega
  all_goals simp [guestSlots, gprSlots, GuestGprs.interceptWord]

theorem interceptBits_lt {bit : ℕ} (hbit : bit ∈ interceptBits) : bit / 64 < 4 := by
  revert bit
  decide

/-- **The controls are what the guest's registers make of them.** -/
theorem controls_putSlots_iff (u : Nexusvcpu) (s : CpuState) (m : PhysMem) (vmcb : ℕ) :
    Controls u vmcb (m.putSlots vmcb (guestSlots s)) ↔ KeepsControls u.msrBitmap s.gprs := by
  have hslots : SlotsHold vmcb (guestSlots s) (m.putSlots vmcb (guestSlots s)) :=
    slotsHold_putSlots (apart_slots s)
  have hbit : ∀ bit ∈ interceptBits,
      bitAt (m.putSlots vmcb (guestSlots s)).ram (vmcb + VMCB_OFFSET_INTERCEPT) bit =
        (s.gprs.interceptWord (bit / 64)).toNat.testBit (bit % 64) := by
    intro bit hmem
    have hword := hslots _ (interceptWord_slot s (interceptBits_lt hmem))
    have hat := bitAt_eq_testBit (m.putSlots vmcb (guestSlots s)) vmcb (bit / 64)
      (Nat.mod_lt bit (by decide : 0 < 64))
    rw [hword, Nat.div_add_mod] at hat
    exact hat
  have hmsr : (m.putSlots vmcb (guestSlots s)).wordAt (vmcb + VMCB_OFFSET_MSR_MAP) = s.gprs.rsi :=
    hslots (0x20, s.gprs.rsi) (by simp [guestSlots, gprSlots])
  constructor
  · rintro ⟨hintercepts, hmap⟩
    exact ⟨fun bit hmem => (hbit bit hmem).symm.trans (hintercepts bit hmem), hmsr.symm.trans hmap⟩
  · rintro ⟨hintercepts, hmap⟩
    exact ⟨fun bit hmem => (hbit bit hmem).trans (hintercepts bit hmem), hmsr.trans hmap⟩

theorem root_apart (s : CpuState) : ∀ p ∈ guestSlots s,
    p.1 + 8 ≤ VMCB_OFFSET_NESTED_PAGING_ROOT ∨ VMCB_OFFSET_NESTED_PAGING_ROOT + 8 ≤ p.1 := by
  have hoffsets : ∀ offset ∈ (guestSlots {}).map Prod.fst, offset + 8 ≤ VMCB_OFFSET_NESTED_PAGING_ROOT ∨
    VMCB_OFFSET_NESTED_PAGING_ROOT + 8 ≤ offset := by decide
  intro p hp
  have hmem : p.1 ∈ (guestSlots s).map Prod.fst := List.mem_map_of_mem hp
  exact hoffsets p.1 hmem

/-! ## Two set-ups -/

/-- Whatever is in the registers of the guest, the controls are the same, and what `svm_vcpu_setup` means
them to be. -/
def Unweakened (c vmcb : Addr) (u : Nexusvcpu) (s : CpuState) (h : Host) : Prop :=
  wp (setupVmcb c) (fun _ h₁ => wp (setupVmcb c) (fun _ h₂ => SameControls vmcb h₁.mem h₂.mem ∧
    Controls u vmcb h₁.mem ∧ Controls u vmcb h₂.mem) (h.setVcpu c (some { u with cpuState := s }))) h

theorem Unweakened.keepsControls (hw : Unweakened c vmcb u s h) (hg : h.gInitialized = true)
    (hu : h.vcpus c = some u) (hvmcb : u.vmcb = some vmcb) (hv : h.vms u.vm = some v) :
    KeepsControls u.msrBitmap u.cpuState.gprs ∧ KeepsControls u.msrBitmap s.gprs := by
  have hrun := setupVmcb_run hg hu hvmcb hv
  have hrun' := setupVmcb_run (h := h.setVcpu c (some { u with cpuState := s })) hg
    (Function.update_self _ _ _) hvmcb hv
  unfold Unweakened at hw
  have hfirst := wp_run hw hrun
  obtain ⟨-, hcontrols, hcontrols'⟩ := wp_run hfirst hrun'
  exact ⟨(controls_putSlots_iff u u.cpuState _ _).mp hcontrols,
    (controls_putSlots_iff u s _ _).mp hcontrols'⟩

/-- **When no register weakens an intercept.** For every two vCPUs that differ in their states only. -/
theorem intercepts_kept_iff (hg : h.gInitialized = true) (hu : h.vcpus c = some u)
    (hvmcb : u.vmcb = some vmcb) (hv : h.vms u.vm = some v) (s : CpuState) :
    Unweakened c vmcb u s h ↔
      KeepsControls u.msrBitmap u.cpuState.gprs ∧ KeepsControls u.msrBitmap s.gprs := by
  refine ⟨fun hw => hw.keepsControls hg hu hvmcb hv, ?_⟩
  rintro ⟨hkept, hkept'⟩
  have hrun := setupVmcb_run hg hu hvmcb hv
  have hrun' := setupVmcb_run (h := h.setVcpu c (some { u with cpuState := s })) hg
    (Function.update_self _ _ _) hvmcb hv
  -- the two differ only in what is written last
  have hcontrol : controlMem h.mem h.hv { u with cpuState := s } v vmcb = controlMem h.mem h.hv u v vmcb :=
    rfl
  rw [Host.setVcpu_mem, Host.setVcpu_hv, hcontrol] at hrun'
  generalize controlMem h.mem h.hv u v vmcb = m at hrun hrun'
  have hcontrols := (controls_putSlots_iff u u.cpuState m vmcb).mpr hkept
  have hcontrols' := (controls_putSlots_iff u s m vmcb).mpr hkept'
  refine wp_of_run hrun (wp_of_run hrun' ⟨⟨fun bit hbit => ?_, ?_, ?_⟩, hcontrols, hcontrols'⟩)
  · exact (hcontrols.intercepts bit hbit).trans (hcontrols'.intercepts bit hbit).symm
  · exact hcontrols.msrMap.trans hcontrols'.msrMap.symm
  · exact (wordAt_putSlots_of_apart (root_apart _) m).trans
      (wordAt_putSlots_of_apart (root_apart _) m).symm

/-- Registers that keep the controls. -/
def keepingGprs (rsi : UInt64) : GuestGprs where
  rax := 0x1D001D
  rbx := 0xBD40000300000000
  rdx := 0x3F
  rsi := rsi

theorem keepsControls_keepingGprs : KeepsControls (some 98304) (keepingGprs 98304) := ⟨by decide, by decide⟩

theorem exists_svmVcpu : ∃ h u v,
    (runOps HvOp.run [.create { vcpuCount := 1 }]).run (bootHost 1 .amd) = some ((), h) ∧
      h.vcpus 81920 = some u ∧ h.gInitialized = true ∧ u.vmcb = some 147456 ∧ h.vms u.vm = some v ∧
      u.cpuState = {} ∧ u.msrBitmap = some 98304 := by
  have hany : ((runOps HvOp.run [.create { vcpuCount := 1 }]).run (bootHost 1 .amd)).any
      (fun t => t.2.gInitialized && (t.2.vcpus 81920).any fun u =>
        u.vmcb = some 147456 && (t.2.vms u.vm).isSome && u.cpuState = {} && u.msrBitmap = some 98304) = true := by
    decide +kernel
  obtain ⟨⟨⟨⟩, h⟩, hrun, hany⟩ := (Option.any_eq_true _ _).mp hany
  rw [Bool.and_eq_true, Option.any_eq_true] at hany
  obtain ⟨hg, u, hu, hany⟩ := hany
  simp only [Bool.and_eq_true, decide_eq_true_eq] at hany
  obtain ⟨⟨⟨hvmcb, hv⟩, hstate⟩, hmsr⟩ := hany
  obtain ⟨v, hv⟩ := Option.isSome_iff_exists.mp hv
  exact ⟨h, u, v, hrun, hu, hg, hvmcb, hv, hstate, hmsr⟩

/-- Two states that differ in RBP only: their registers keep the controls. -/
theorem intercepts_kept_iff_keeping : ∃ h u,
    (runOps HvOp.run [.create { vcpuCount := 1 }]).run (bootHost 1 .amd) = some ((), h) ∧
      h.vcpus 81920 = some u ∧
      Unweakened 81920 147456 { u with cpuState := { gprs := keepingGprs 98304 } }
        { gprs := { keepingGprs 98304 with rbp := 1 } }
        (h.setVcpu 81920 (some { u with cpuState := { gprs := keepingGprs 98304 } })) := by
  obtain ⟨h, u, v, hrun, hu, hg, hvmcb, hv, -, hmsr⟩ := exists_svmVcpu
  have hkept : KeepsControls u.msrBitmap (keepingGprs 98304) := by
    rw [hmsr]
    exact keepsControls_keepingGprs
  -- a vCPU that differs from `u` in its state only
  have hall : ∀ (w : Nexusvcpu) (s : CpuState), w.vmcb = some 147456 → w.vm = u.vm →
      KeepsControls w.msrBitmap w.cpuState.gprs → KeepsControls w.msrBitmap s.gprs →
      Unweakened 81920 147456 w s (h.setVcpu 81920 (some w)) := by
    intro w s hvmcb' hvm hfirst hsecond
    have hset : (h.setVcpu 81920 (some w)).vcpus 81920 = some w := by
      change Function.update h.vcpus 81920 (some w) 81920 = some w
      rw [Function.update_self]
    exact (intercepts_kept_iff (v := v) (h := h.setVcpu 81920 (some w)) hg hset hvmcb' (hvm ▸ hv) s).mpr
      ⟨hfirst, hsecond⟩
  exact ⟨h, u, hrun, hu, hall _ _ hvmcb rfl hkept ⟨hkept.intercepts, hkept.msrMap⟩⟩

/-- **A guest whose registers are zero is not intercepted.** -/
theorem intercepts_overwritten : ∃ h u,
    (runOps HvOp.run [.create { vcpuCount := 1 }]).run (bootHost 1 .amd) = some ((), h) ∧
      h.vcpus 81920 = some u ∧ u.cpuState = {} ∧
      ¬ Unweakened 81920 147456 u { gprs := keepingGprs 98304 } h := by
  obtain ⟨h, u, v, hrun, hu, hg, hvmcb, hv, hstate, -⟩ := exists_svmVcpu
  refine ⟨h, u, hrun, hu, hstate, fun hw => ?_⟩
  have hkept := (hw.keepsControls hg hu hvmcb hv).1.intercepts 0x78 (by decide)
  rw [hstate] at hkept
  revert hkept
  decide

end NexusVM
