import NexusVM.Lib.Prog
import NexusVM.Types
import Mathlib.Data.UInt

/-!
# The emulated devices

The devices of `io_emul.c`, one set of static variables for all VMs. A read function stores its
answer through a pointer, which is its result here; neither the vCPU nor the access size matters.

* `Devices`, `DevM`: the static variables, and the functions on them;
* `cmosRead`, `cmosWrite` and the same for the keyboard, the timer, the serial port and the VGA;
* `Device.read`, `Device.write`, **`Device.read_spec`**: the two functions of a device;
* `IoHandler`, `IoEmul`: the registered handlers, and all static variables of the file.
-/

namespace NexusVM

/-- The state of the devices. -/
structure Devices where
  cmosRtc : Vector UInt8 128 := Vector.replicate 128 0
  cmosIndex : UInt8 := 0
  ps2Status : UInt8 := 0
  ps2Output : UInt8 := 0
  pitCounter : Vector UInt16 3 := Vector.replicate 3 0
  pitMode : Vector UInt8 3 := Vector.replicate 3 0
  uartRegs : Vector UInt8 8 := Vector.replicate 8 0
  vgaAttrIndex : UInt8 := 0
  vgaMiscOutput : UInt8 := 0

abbrev DevM : Type → Type := Prog Devices

/-- An element of an array. -/
def load {α : Type} {n : ℕ} (xs : Vector α n) (i : ℕ) : DevM α := Prog.fetch fun _ => xs[i]?

/-- An array with another element; outside the array the store is undefined. -/
def store {α : Type} {n : ℕ} (xs : Vector α n) (i : ℕ) (x : α) : DevM (Vector α n) := do
  Prog.require (i < n)
  return xs.setIfInBounds i x

/-! ## CMOS -/

/-- `cmos_read` -/
def cmosRead (port : UInt16) : DevM UInt64 := do
  let d ← get
  if port = 0x70 then return d.cmosIndex.toUInt64
  else if port = 0x71 then
    if d.cmosIndex < 128 then return (← load d.cmosRtc d.cmosIndex.toNat).toUInt64
    else return 0xFF
  else return 0xFF

/-- `cmos_write` -/
def cmosWrite (port : UInt16) (value : UInt64) : DevM Unit := do
  let d ← get
  if port = 0x70 then set { d with cmosIndex := (value &&& 0x7F).toUInt8 }
  else if port = 0x71 then
    if d.cmosIndex < 128 then
      set { d with cmosRtc := ← store d.cmosRtc d.cmosIndex.toNat value.toUInt8 }

/-! ## PS/2 keyboard -/

/-- `ps2_keyboard_read` -/
def ps2KeyboardRead (port : UInt16) : DevM UInt64 := do
  let d ← get
  if port = 0x60 then
    set { d with ps2Output := 0 }
    return d.ps2Output.toUInt64
  else if port = 0x64 then return d.ps2Status.toUInt64
  else return 0xFF

/-- `ps2_keyboard_write` -/
def ps2KeyboardWrite (port : UInt16) (value : UInt64) : DevM Unit := do
  if port = 0x60 then modify fun d => { d with ps2Status := value.toUInt8 }

/-! ## Timer -/

/-- The counter of a port, as `pit_read` and `pit_write` compute it. -/
def pitCounterOf (port : UInt16) : Option ℕ :=
  if port ≥ 0x40 ∧ port ≤ 0x42 then some (port.toNat - 0x40) else none

/-- `pit_read` -/
def pitRead (port : UInt16) : DevM UInt64 := do
  let d ← get
  match pitCounterOf port with
  | some counter => return (← load d.pitCounter counter).toUInt64
  | none => return 0

/-- `pit_write` -/
def pitWrite (port : UInt16) (value : UInt64) : DevM Unit := do
  let d ← get
  match pitCounterOf port with
  | some counter => set { d with pitCounter := ← store d.pitCounter counter value.toUInt16 }
  | none =>
    if port = 0x43 then
      let c := ((value >>> 6) &&& 3).toNat
      set { d with pitMode := ← store d.pitMode c value.toUInt8 }

/-! ## Serial port -/

/-- `uart_read`; the check of the register number always succeeds. -/
def uartRead (port : UInt16) : DevM UInt64 := do
  let d ← get
  return (← load d.uartRegs (port &&& 7).toNat).toUInt64

/-- `uart_write`; the check of the register number always succeeds. -/
def uartWrite (port : UInt16) (value : UInt64) : DevM Unit := do
  let d ← get
  set { d with uartRegs := ← store d.uartRegs (port &&& 7).toNat value.toUInt8 }

/-! ## VGA -/

/-- `vga_read` -/
def vgaRead (_port : UInt16) : DevM UInt64 := return 0

/-- `vga_write` -/
def vgaWrite (port : UInt16) (value : UInt64) : DevM Unit := do
  if port = 0x3C0 ∨ port = 0x3C2 then modify fun d => { d with vgaAttrIndex := value.toUInt8 }
  else if port = 0x3DA then modify fun d => { d with vgaMiscOutput := value.toUInt8 }

/-! ## The two functions of a device -/

/-- A device. -/
inductive Device
  | cmos
  | ps2Keyboard
  | pit
  | uart
  | vga
deriving DecidableEq

def Device.read : Device → UInt16 → DevM UInt64
  | .cmos => cmosRead
  | .ps2Keyboard => ps2KeyboardRead
  | .pit => pitRead
  | .uart => uartRead
  | .vga => vgaRead

def Device.write : Device → UInt16 → UInt64 → DevM Unit
  | .cmos => cmosWrite
  | .ps2Keyboard => ps2KeyboardWrite
  | .pit => pitWrite
  | .uart => uartWrite
  | .vga => vgaWrite

/-- What a read answers. -/
def Device.answer (d : Devices) : Device → UInt16 → UInt64
  | .cmos, port =>
    if port = 0x70 then d.cmosIndex.toUInt64
    else if port = 0x71 then (d.cmosRtc[d.cmosIndex.toNat]?.getD 0xFF).toUInt64
    else 0xFF
  | .ps2Keyboard, port =>
    if port = 0x60 then d.ps2Output.toUInt64
    else if port = 0x64 then d.ps2Status.toUInt64
    else 0xFF
  | .pit, port => ((pitCounterOf port).bind fun i => d.pitCounter[i]?).elim 0 UInt16.toUInt64
  | .uart, port => (d.uartRegs[(port &&& 7).toNat]?.getD 0).toUInt64
  | .vga, _ => 0

open Prog

/-- **A read answers**, and it changes nothing but the keyboard's output, which it takes. -/
theorem Device.read_spec (dev : Device) (port : UInt16) (d : Devices) :
    wp (dev.read port) (fun x d' => x = dev.answer d port ∧
      (d' = d ∨ d' = { d with ps2Output := 0 })) d := by
  cases dev with
  | cmos =>
    rw [read, cmosRead, wp_bind, wp_get, answer]
    split_ifs with h70 h71 hidx
    · rw [wp_pure]
      exact ⟨rfl, .inl rfl⟩
    · have hlt : d.cmosIndex.toNat < 128 := UInt8.lt_iff_toNat_lt.mp hidx
      simp only [load, wp_bind, wp_fetch, wp_pure, Vector.getElem?_eq_getElem hlt]
      exact ⟨_, rfl, rfl, .inl trivial⟩
    · have hge : ¬ d.cmosIndex.toNat < 128 := fun hc => hidx (UInt8.lt_iff_toNat_lt.mpr hc)
      rw [wp_pure, Vector.getElem?_eq_none (by omega)]
      exact ⟨rfl, .inl rfl⟩
    · rw [wp_pure]
      exact ⟨rfl, .inl rfl⟩
  | ps2Keyboard =>
    rw [read, ps2KeyboardRead, wp_bind, wp_get, answer]
    split_ifs with h60 h64
    · rw [wp_bind, wp_set, wp_pure]
      exact ⟨rfl, .inr rfl⟩
    · rw [wp_pure]
      exact ⟨rfl, .inl rfl⟩
    · rw [wp_pure]
      exact ⟨rfl, .inl rfl⟩
  | pit =>
    rw [read, pitRead, wp_bind, wp_get, answer]
    cases hc : pitCounterOf port with
    | none =>
      dsimp only
      rw [wp_pure]
      exact ⟨rfl, .inl rfl⟩
    | some i =>
      have hi : i < 3 := by
        unfold pitCounterOf at hc
        split_ifs at hc with hp
        have h2 : port.toNat ≤ 0x42 := UInt16.le_iff_toNat_le.mp hp.2
        cases hc
        omega
      dsimp only [Option.bind_some]
      simp only [load, wp_bind, wp_fetch, wp_pure, Vector.getElem?_eq_getElem hi]
      exact ⟨_, rfl, rfl, .inl trivial⟩
  | uart =>
    have hi : (port &&& 7).toNat < 8 := by
      rw [UInt16.toNat_and, show (7 : UInt16).toNat = 2 ^ 3 - 1 from rfl,
        Nat.and_two_pow_sub_one_eq_mod]
      omega
    rw [read, uartRead, wp_bind, wp_get, answer]
    simp only [load, wp_bind, wp_fetch, wp_pure, Vector.getElem?_eq_getElem hi]
    exact ⟨_, rfl, rfl, .inl trivial⟩
  | vga =>
    rw [read, vgaRead, wp_pure, answer]
    exact ⟨rfl, .inl rfl⟩

/-! ## Static variables -/

/-- `io_handler_t`; `handler` is called as a read function, and nothing uses `context`. -/
structure IoHandler where
  entry : Addr
  port : UInt16
  count : UInt16
  handler : Device
  context : Option Device
deriving DecidableEq

/-- The static variables of `io_emul.c`. -/
structure IoEmul where
  gIoHandlers : List IoHandler := []
  gIoInitialized : Bool := false
  devices : Devices := {}
  gIrqLines : Vector Bool 256 := Vector.replicate 256 false

end NexusVM
