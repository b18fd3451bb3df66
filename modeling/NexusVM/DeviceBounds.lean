import NexusVM.Devices

/-!
# The arrays of the devices

Whether the functions of the devices stay inside `cmos_rtc`, `pit_counter`, `pit_mode` and `uart_regs`:
an access outside of an array is undefined.

* `Device.after`, `Device.Overruns`, **`Device.wp_write`**: what a write leaves, and when it is undefined;
* `DeviceAccess`: the calls of the ten functions;
* **`devices_in_range_iff`**: which sequences of calls stay inside the arrays.
-/

namespace NexusVM

open Prog

/-! ## A write -/

/-- The devices after a write. -/
def Device.after (d : Devices) : Device → UInt16 → UInt64 → Devices
  | .cmos, port, value =>
    if port = 0x70 then { d with cmosIndex := (value &&& 0x7F).toUInt8 }
    else if port = 0x71 then
      { d with cmosRtc := d.cmosRtc.setIfInBounds d.cmosIndex.toNat value.toUInt8 }
    else d
  | .ps2Keyboard, port, value => if port = 0x60 then { d with ps2Status := value.toUInt8 } else d
  | .pit, port, value =>
    match pitCounterOf port with
    | some counter => { d with pitCounter := d.pitCounter.setIfInBounds counter value.toUInt16 }
    | none =>
      if port = 0x43 then
        { d with pitMode := d.pitMode.setIfInBounds ((value >>> 6) &&& 3).toNat value.toUInt8 }
      else d
  | .uart, port, value =>
    { d with uartRegs := d.uartRegs.setIfInBounds (port &&& 7).toNat value.toUInt8 }
  | .vga, port, value =>
    if port = 0x3C0 ∨ port = 0x3C2 then { d with vgaAttrIndex := value.toUInt8 }
    else if port = 0x3DA then { d with vgaMiscOutput := value.toUInt8 }
    else d

/-- A mode for the fourth of the three counters. -/
def Device.Overruns (dev : Device) (port : UInt16) (value : UInt64) : Prop :=
  dev = .pit ∧ port = 0x43 ∧ (value >>> 6) &&& 3 = 3

instance (dev : Device) (port : UInt16) (value : UInt64) : Decidable (dev.Overruns port value) := by
  unfold Device.Overruns
  infer_instance

section Stores

variable {α : Type} {n i : ℕ} {xs : Vector α n} {x : α} {d : Devices}

theorem wp_store {Q : Vector α n → Devices → Prop} :
    wp (store xs i x) Q d ↔ i < n ∧ Q (xs.setIfInBounds i x) d := by
  rw [store, wp_bind, wp_require, wp_pure]

end Stores

theorem and_three_lt (x : UInt64) : (x &&& 3).toNat < 3 ↔ x &&& 3 ≠ 3 := by
  have hlt : (x &&& 3).toNat < 4 := by
    rw [UInt64.toNat_and, show (3 : UInt64).toNat = 2 ^ 2 - 1 from rfl, Nat.and_two_pow_sub_one_eq_mod]
    exact Nat.mod_lt _ (by decide)
  rw [Ne, ← UInt64.toNat_inj, show (3 : UInt64).toNat = 3 from rfl]
  omega

theorem and_seven_lt (port : UInt16) : (port &&& 7).toNat < 8 := by
  rw [UInt16.toNat_and, show (7 : UInt16).toNat = 2 ^ 3 - 1 from rfl, Nat.and_two_pow_sub_one_eq_mod]
  exact Nat.mod_lt _ (by decide)

theorem pitCounterOf_lt {port : UInt16} {counter : ℕ} (h : pitCounterOf port = some counter) :
    counter < 3 ∧ port ≠ 0x43 := by
  unfold pitCounterOf at h
  split_ifs at h with hp
  have hle : port.toNat ≤ 0x42 := UInt16.le_iff_toNat_le.mp hp.2
  cases h
  refine ⟨by omega, ?_⟩
  rintro rfl
  exact absurd hle (by decide)

/-- **A write** is undefined just where it sets the mode of a fourth counter. -/
theorem Device.wp_write {dev : Device} {port : UInt16} {value : UInt64} {d : Devices}
    {Q : Unit → Devices → Prop} :
    wp (dev.write port value) Q d ↔ ¬ dev.Overruns port value ∧ Q () (dev.after d port value) := by
  have hother : dev ≠ .pit → ¬ dev.Overruns port value := fun hne h => hne h.1
  cases dev with
  | cmos =>
    rw [and_iff_right (hother (by simp)), write, cmosWrite, wp_bind, wp_get, after]
    split_ifs with h70 h71 hidx
    · rw [wp_set]
    · have hlt : d.cmosIndex.toNat < 128 := UInt8.lt_iff_toNat_lt.mp hidx
      rw [wp_bind, wp_store, wp_set, and_iff_right hlt]
    · have hge : 128 ≤ d.cmosIndex.toNat := Nat.le_of_not_lt fun hc => hidx (UInt8.lt_iff_toNat_lt.mpr hc)
      rw [wp_pure, Vector.setIfInBounds_eq_of_size_le hge]
    · rw [wp_pure]
  | ps2Keyboard =>
    rw [and_iff_right (hother (by simp)), write, ps2KeyboardWrite, after]
    split_ifs
    · rw [wp_modify]
    · rw [wp_pure]
  | pit =>
    rw [write, pitWrite, wp_bind, wp_get, after]
    cases hc : pitCounterOf port with
    | some counter =>
      obtain ⟨hlt, hne⟩ := pitCounterOf_lt hc
      dsimp only
      rw [wp_bind, wp_store, wp_set, and_iff_right hlt, and_iff_right fun h => hne h.2.1]
    | none =>
      dsimp only
      split_ifs with h43
      · rw [wp_bind, wp_store, wp_set, and_three_lt]
        exact and_congr_left fun _ => ⟨fun hne h => hne h.2.2, fun h he => h ⟨rfl, h43, he⟩⟩
      · rw [wp_pure, and_iff_right fun h => h43 h.2.1]
  | uart =>
    rw [and_iff_right (hother (by simp)), write, uartWrite, wp_bind, wp_get, wp_bind, wp_store, wp_set,
      and_iff_right (and_seven_lt port), after]
  | vga =>
    rw [and_iff_right (hother (by simp)), write, vgaWrite, after]
    split_ifs
    · rw [wp_modify]
    · rw [wp_modify]
    · rw [wp_pure]

theorem Device.wlp_write {dev : Device} {port : UInt16} {value : UInt64} {d : Devices} :
    wlp (dev.write port value) (fun _ d' => d' = dev.after d port value) d := by
  intro _ d' hrun
  have hafter : wp (dev.write port value) (fun _ x => d' = x) d := wp_of_run hrun rfl
  exact (Device.wp_write.mp hafter).2

/-! ## Runs -/

/-- A call of a read or a write function. -/
inductive DeviceAccess
  | read (dev : Device) (port : UInt16) (size : UInt32)
  | write (dev : Device) (port : UInt16) (size : UInt32) (value : UInt64)
deriving DecidableEq

/-- Perform a call. -/
def DeviceAccess.run : DeviceAccess → DevM Unit
  | .read dev port _ => discard (dev.read port)
  | .write dev port _ value => dev.write port value

/-- The call is `pit_write` with a mode for a fourth counter. -/
def DeviceAccess.Overruns : DeviceAccess → Prop
  | .read _ _ _ => False
  | .write dev port _ value => dev.Overruns port value

theorem DeviceAccess.wp_iff {a : DeviceAccess} {d : Devices} {P : Prop} :
    wp a.run (fun _ _ => P) d ↔ ¬ a.Overruns ∧ P := by
  cases a with
  | read dev port size =>
    obtain ⟨x, d', hread, -⟩ := dev.read_spec port d
    rw [run, wp_discard]
    exact ⟨fun h => ⟨id, wp_run h hread⟩, fun h => wp_of_run hread h.2⟩
  | write dev port size value => exact Device.wp_write

/-- **Which calls stay inside the arrays.** From any state of the devices, a sequence of calls makes no
access outside of an array if and only if it never sets the mode of a fourth timer counter. -/
theorem devices_in_range_iff (accesses : List DeviceAccess) (d : Devices) :
    wp (runOps DeviceAccess.run accesses) (fun _ _ => True) d ↔ ∀ a ∈ accesses, ¬ a.Overruns := by
  induction accesses generalizing d with
  | nil => simp [runOps]
  | cons a accesses ih =>
    simp only [runOps, wp_bind, ih, DeviceAccess.wp_iff, List.forall_mem_cons]

/-- **The read-back command of the timer** selects a fourth counter. -/
theorem pit_mode_overrun : DeviceAccess.Overruns (.write .pit 0x43 1 0xC2) ∧
    (runOps DeviceAccess.run [.write .pit 0x43 1 0xC2]).run {} = none := by
  exact ⟨⟨rfl, rfl, by decide⟩, by decide⟩

end NexusVM
