import NexusVM.DeviceBounds
import NexusVM.IoEmul

/-!
# Writes to ports

What a port is read as after writes, if a write reaches the write function of its device.

* `StandardHandlers`, `ioEmulInit_standard`, `handlerOf_owns`: the handlers after `io_emul_init`;
* `PortAccess`, `ioPortWriteMeant`: accesses, and what a write is meant to do;
* `uartAfter`, `Cmos`, `cmosAfter`, `Recorded`: what a history of accesses leaves;
* **`meant_step`**: with writes as they are meant, the UART and the CMOS are memories;
* **`port_writes_reach_devices_iff`**: which sequences of accesses are served in this way.
-/

namespace NexusVM

open Prog

/-! ## Handlers -/

/-- The first port of a device. -/
def Device.base : Device → UInt16
  | .cmos => 0x70
  | .ps2Keyboard => 0x60
  | .pit => 0x40
  | .uart => 0x3F8
  | .vga => 0x3C0

/-- The number of its ports. -/
def Device.count : Device → UInt16
  | .cmos => 8
  | .ps2Keyboard => 2
  | .pit => 4
  | .uart => 8
  | .vga => 0x3DA - 0x3C0 + 1

/-- The port is one of the device's. -/
def Device.Owns (dev : Device) (port : UInt16) : Prop :=
  dev.base.toNat ≤ port.toNat ∧ port.toNat < dev.base.toNat + dev.count.toNat

instance (dev : Device) (port : UInt16) : Decidable (dev.Owns port) := by
  unfold Device.Owns
  infer_instance

/-- Every handler has the ports of its device. -/
def StandardHandlers (h : Host) : Prop :=
  ∀ e ∈ h.io.gIoHandlers, e.port = e.handler.base ∧ e.count = e.handler.count

variable {h h₀ g : Host} {port : UInt16} {size : UInt32} {value : UInt64} {vcpu : Option Addr}
variable {dev : Device} {e : IoHandler}

theorem Device.Owns.unique {dev' : Device} (ho : dev.Owns port) (ho' : dev'.Owns port) : dev = dev' := by
  unfold Device.Owns at ho ho'
  cases dev <;> cases dev' <;> first | rfl | (
    simp only [Device.base, Device.count, UInt16.reduceSub, UInt16.reduceAdd, UInt16.reduceToNat] at ho ho'
    omega)

theorem ioRegisterHandler_standard (dev : Device) (context : Option Device) :
    Keeps StandardHandlers (ioRegisterHandler dev.base dev.count dev context) := by
  intro h hs
  rw [ioRegisterHandler, wp_bind]
  refine wp_alignedAlloc (fun b _ => ?_) ?_
  · dsimp only
    rw [wp_bind, wp_modify, wp_pure]
    exact List.forall_mem_cons.mpr ⟨⟨rfl, rfl⟩, hs⟩
  · dsimp only
    rw [wp_pure]
    exact hs

/-- **After `io_emul_init`** every handler has the ports of its device. -/
theorem ioEmulInit_standard : wp ioEmulInit (fun _ h => StandardHandlers h) h₀ := by
  have hregister := fun dev => ioRegisterHandler_standard dev (some dev)
  have hrest := (hregister .cmos).bind fun _ => (hregister .ps2Keyboard).bind fun _ =>
    (hregister .pit).bind fun _ => (hregister .uart).bind fun _ => (hregister .vga).bind fun _ =>
    Keeps.pure Result.ok
  rw [ioEmulInit, wp_bind, wp_modify]
  exact hrest _ fun e he => absurd he List.not_mem_nil

theorem handlerOf_owns (hs : StandardHandlers h) (he : h.handlerOf port = some e) :
    e.handler.Owns port := by
  obtain ⟨hport, hcount⟩ := hs e (List.mem_of_find?_eq_some he)
  have hcovers : e.Covers port :=
    of_decide_eq_true (List.find?_some (p := fun e : IoHandler => decide (e.Covers port)) he)
  rw [← UInt16.toNat_inj] at hport hcount
  rw [Device.Owns, ← hport, ← hcount]
  exact ⟨UInt16.le_iff_toNat_le.mp hcovers.1, hcovers.2⟩

/-! ## Accesses -/

/-- An access to a port, with the pointer to the vCPU. -/
inductive PortAccess
  | read (vcpu : Option Addr) (port : UInt16) (size : UInt32)
  | write (vcpu : Option Addr) (port : UInt16) (size : UInt32) (value : UInt64)
deriving DecidableEq

/-- What an access returns. -/
inductive PortResult
  | value (r : Except Result UInt64)
  | written (r : Result)

/-- Perform an access. -/
def PortAccess.run : PortAccess → HostM PortResult
  | .read vcpu port size => do return .value (← ioPortRead vcpu port size)
  | .write vcpu port size value => do return .written (← ioPortWrite vcpu port size value)

/-- What `io_port_write` is for: the write function of the device gets the value. -/
def ioPortWriteMeant (vcpu : Option Addr) (port : UInt16) (value : UInt64) : HostM Result := do
  if vcpu.isNone then return .errInvalidParam
  let h ← get
  match h.handlerOf port with
  | some e =>
    onDevices (e.handler.write port value)
    return .ok
  | none => return .ok

/-- Perform an access, a write as it is meant. -/
def PortAccess.meant : PortAccess → HostM PortResult
  | .read vcpu port size => do return .value (← ioPortRead vcpu port size)
  | .write vcpu port _ value => do return .written (← ioPortWriteMeant vcpu port value)

/-- The access writes to a port that has a handler. -/
def PortAccess.WritesDevice (h : Host) : PortAccess → Prop
  | .read _ _ _ => False
  | .write vcpu port _ _ => vcpu ≠ none ∧ h.handlerOf port ≠ none

theorem PortAccess.not_writesDevice_iff : ¬ PortAccess.WritesDevice h (.write vcpu port size value) ↔
    vcpu.isNone ∨ h.handlerOf port = none := by
  rw [WritesDevice, not_and_or, not_not, not_not, Option.isNone_iff_eq_none]

theorem ioPortWriteMeant_of_noHandler (hn : vcpu.isNone ∨ h.handlerOf port = none) :
    wp (ioPortWriteMeant vcpu port value) (fun r h' =>
      r = (if vcpu.isNone then .errInvalidParam else .ok) ∧ h' = h) h := by
  unfold ioPortWriteMeant
  split_ifs with hnull
  · rw [wp_pure]
    exact ⟨rfl, rfl⟩
  · rw [wp_bind, wp_get, hn.resolve_left hnull]
    dsimp only
    rw [wp_pure]
    exact ⟨rfl, rfl⟩

theorem PortAccess.run_of_not_writesDevice {a : PortAccess} (ha : ¬ a.WritesDevice h) :
    ∃ r h', a.run.run h = some (r, h') ∧ a.meant.run h = some (r, h') := by
  cases a with
  | read vcpu port size =>
    have hread : wp (ioPortRead vcpu port size) _ h := ioPortRead_answers
    obtain ⟨r, h', hrun, -⟩ := hread
    exact ⟨_, h', run_bind hrun, run_bind hrun⟩
  | write vcpu port size value =>
    rw [not_writesDevice_iff] at ha
    have hwrite : wp (ioPortWrite vcpu port size value) _ h := ioPortWrite_of_noHandler ha
    have hmeant : wp (ioPortWriteMeant vcpu port value) _ h := ioPortWriteMeant_of_noHandler ha
    obtain ⟨r₁, _, hrun₁, rfl, rfl⟩ := hwrite
    obtain ⟨r₂, _, hrun₂, rfl, rfl⟩ := hmeant
    exact ⟨_, _, run_bind hrun₁, run_bind hrun₂⟩

theorem PortAccess.not_writesDevice_of_run {a : PortAccess} {r : PortResult}
    (hrun : a.run.run h = some (r, g)) : ¬ a.WritesDevice h := by
  cases a with
  | read vcpu port size => exact id
  | write vcpu port size value =>
    have hwrite : wlp (PortAccess.run (.write vcpu port size value))
        (fun _ _ => vcpu.isNone ∨ h.handlerOf port = none) h := by
      simp only [run, wlp_bind, wlp_pure]
      exact wlp_mono ioPortWrite_spec fun _ _ hq => hq.2
    exact not_writesDevice_iff.mpr (hwrite r g hrun)

/-! ## Histories -/

/-- What an access writes to a port. -/
def PortAccess.written (port : UInt16) : PortAccess → Option UInt64
  | .write (some _) q _ value => if q = port then some value else none
  | _ => none

/-- The byte behind a port of the UART after some accesses: the last one that was written. -/
def uartAfter (d : Devices) (pre : List PortAccess) (port : UInt16) : UInt8 :=
  pre.foldl (fun x a => (a.written port).elim x UInt64.toUInt8) (d.uartRegs[(port &&& 7).toNat]?.getD 0)

/-- A CMOS: the index that is selected, and the bytes. -/
structure Cmos where
  index : UInt8
  byte : ℕ → UInt8

/-- A CMOS after an access: port 0x70 selects, and port 0x71 stores. -/
def Cmos.step (s : Cmos) (a : PortAccess) : Cmos :=
  match a.written 0x70, a.written 0x71 with
  | some value, _ => { s with index := (value &&& 0x7F).toUInt8 }
  | none, some value =>
    if s.index < 128 then { s with byte := Function.update s.byte s.index.toNat value.toUInt8 } else s
  | none, none => s

/-- The CMOS among the devices; beyond its bytes it answers 0xFF. -/
def Devices.cmos (d : Devices) : Cmos := ⟨d.cmosIndex, fun i => d.cmosRtc[i]?.getD 0xFF⟩

/-- The CMOS after some accesses. -/
def cmosAfter (d : Devices) (pre : List PortAccess) : Cmos := pre.foldl Cmos.step d.cmos

/-- What the ports of UART and CMOS are read as, after the accesses `pre`. -/
structure Recalls (h : Host) (pre : List PortAccess) (a : PortAccess) (r : PortResult) : Prop where
  uart : ∀ c port size, a = .read (some c) port size → Device.Owns .uart port →
    h.handlerOf port ≠ none → r = .value (.ok (uartAfter h.io.devices pre port).toUInt64)
  cmos : ∀ c size, a = .read (some c) 0x71 size → h.handlerOf 0x71 ≠ none →
    r = .value (.ok ((cmosAfter h.io.devices pre).byte
      (cmosAfter h.io.devices pre).index.toNat).toUInt64)

/-- The devices have kept what has been written to them since the state `h`. -/
structure Recorded (h : Host) (pre : List PortAccess) (g : Host) : Prop where
  handlers : g.io.gIoHandlers = h.io.gIoHandlers
  uart : ∀ port, Device.Owns .uart port → h.handlerOf port ≠ none →
    g.io.devices.uartRegs[(port &&& 7).toNat]? = some (uartAfter h.io.devices pre port)
  cmos : h.handlerOf 0x71 ≠ none → g.io.devices.cmos = cmosAfter h.io.devices pre

variable {d : Devices} {pre : List PortAccess} {a : PortAccess} {c : Addr}

theorem uartAfter_append (d : Devices) (pre : List PortAccess) (a : PortAccess) (port : UInt16) :
    uartAfter d (pre ++ [a]) port = (a.written port).elim (uartAfter d pre port) UInt64.toUInt8 := by
  rw [uartAfter, List.foldl_append]
  rfl

theorem cmosAfter_append (d : Devices) (pre : List PortAccess) (a : PortAccess) :
    cmosAfter d (pre ++ [a]) = (cmosAfter d pre).step a := by
  rw [cmosAfter, List.foldl_append]
  rfl

theorem Cmos.step_of_not_written {s : Cmos} (h70 : a.written 0x70 = none) (h71 : a.written 0x71 = none) :
    s.step a = s := by
  rw [step, h70, h71]

/-! ## One access -/

theorem Device.after_uartRegs (hdev : dev ≠ .uart) : (dev.after d port value).uartRegs = d.uartRegs := by
  cases dev with
  | uart => exact absurd rfl hdev
  | pit =>
    rw [after]
    split
    · rfl
    · split_ifs <;> rfl
  | cmos | ps2Keyboard | vga =>
    rw [after]
    split_ifs <;> rfl

theorem Device.after_cmos (hdev : dev ≠ .cmos) : (dev.after d port value).cmos = d.cmos := by
  cases dev with
  | cmos => exact absurd rfl hdev
  | pit =>
    rw [after]
    split
    · rfl
    · split_ifs <;> rfl
  | ps2Keyboard | vga =>
    rw [after]
    split_ifs <;> rfl
  | uart => rfl

theorem Device.Owns.after_uart {q : UInt16} {x : UInt8} (ho : dev.Owns port) (hq : Device.Owns .uart q)
    (hx : d.uartRegs[(q &&& 7).toNat]? = some x) :
    (dev.after d port value).uartRegs[(q &&& 7).toNat]? =
      some (if port = q then value.toUInt8 else x) := by
  by_cases hdev : dev = .uart
  · subst hdev
    -- the ports of the UART differ in their lower three bits
    have hbits : ∀ r : UInt16, (r &&& 7).toNat = r.toNat % 8 := fun r => by
      rw [UInt16.toNat_and]
      exact Nat.and_two_pow_sub_one_eq_mod _ 3
    have hrange : ∀ r : UInt16, Device.Owns .uart r → 0x3F8 ≤ r.toNat ∧ r.toNat < 0x400 := fun _ h => h
    have hport := hrange port ho
    have hq' := hrange q hq
    have hsame : (port &&& 7).toNat = (q &&& 7).toNat ↔ port = q := by
      rw [hbits, hbits, ← UInt16.toNat_inj]
      omega
    rw [after, Vector.getElem?_setIfInBounds, hx, if_pos (and_seven_lt port)]
    simp only [hsame]
    split_ifs <;> rfl
  · have hne : port ≠ q := by
      rintro rfl
      exact hdev (ho.unique hq)
    rw [after_uartRegs hdev, hx, if_neg hne]

theorem Devices.cmos_store (d : Devices) (x : UInt8) :
    ({ d with cmosRtc := d.cmosRtc.setIfInBounds d.cmosIndex.toNat x } : Devices).cmos =
      if d.cmosIndex < 128 then { d.cmos with byte := Function.update d.cmos.byte d.cmosIndex.toNat x }
      else d.cmos := by
  have hlt : d.cmosIndex < 128 ↔ d.cmosIndex.toNat < 128 := UInt8.lt_iff_toNat_lt
  split_ifs with hidx
  · refine congrArg (Cmos.mk d.cmosIndex) ?_
    funext i
    rw [Vector.getElem?_setIfInBounds]
    by_cases hi : d.cmosIndex.toNat = i
    · subst hi
      rw [if_pos rfl, if_pos (hlt.mp hidx), Function.update_self]
      rfl
    · rw [if_neg hi, Function.update_of_ne (Ne.symm hi)]
      rfl
  · have hge : 128 ≤ d.cmosIndex.toNat := Nat.le_of_not_lt fun hc => hidx (hlt.mpr hc)
    rw [Vector.setIfInBounds_eq_of_size_le hge]

theorem Device.Owns.after_cmos (ho : dev.Owns port) :
    (dev.after d port value).cmos = d.cmos.step (.write (some c) port size value) := by
  have hwritten : ∀ q, PortAccess.written q (.write (some c) port size value) =
      if port = q then some value else none := fun _ => rfl
  by_cases hdev : dev = .cmos
  · subst hdev
    rw [after, Cmos.step, hwritten, hwritten]
    by_cases h70 : port = 0x70
    · rw [if_pos h70, if_pos h70]
      rfl
    by_cases h71 : port = 0x71
    · rw [if_neg h70, if_neg h70, if_pos h71, if_pos h71]
      exact d.cmos_store value.toUInt8
    · rw [if_neg h70, if_neg h70, if_neg h71, if_neg h71]
  · have hne : ∀ q, Device.Owns .cmos q → port ≠ q := by
      rintro _ hq rfl
      exact hdev (ho.unique hq)
    rw [Device.after_cmos hdev, Cmos.step_of_not_written]
    · rw [hwritten, if_neg (hne 0x70 ⟨by decide, by decide⟩)]
    · rw [hwritten, if_neg (hne 0x71 ⟨by decide, by decide⟩)]

theorem handlerOf_cmos (hs : StandardHandlers h) (h71 : h.handlerOf 0x71 ≠ none) :
    h.handlerOf 0x70 ≠ none := by
  obtain ⟨e, he⟩ := Option.ne_none_iff_exists'.mp h71
  have hcmos : Device.Owns .cmos 0x71 := ⟨by decide, by decide⟩
  have hdev : e.handler = .cmos := (handlerOf_owns hs he).unique hcmos
  obtain ⟨hport, hcount⟩ := hs e (List.mem_of_find?_eq_some he)
  intro hnone
  have hno := List.find?_eq_none.mp hnone e (List.mem_of_find?_eq_some he)
  rw [decide_eq_true_eq, IoHandler.Covers, hport, hcount, hdev] at hno
  exact hno ⟨by decide, by decide⟩

theorem Recorded.same (hr : Recorded h pre g)
    (ha : ∀ q, h.handlerOf q ≠ none → a.written q = none) (hs : StandardHandlers h) :
    Recorded h (pre ++ [a]) g := by
  refine ⟨hr.handlers, fun q hq hreg => ?_, fun h71 => ?_⟩
  · rw [uartAfter_append, ha q hreg]
    exact hr.uart q hq hreg
  · rw [cmosAfter_append, Cmos.step_of_not_written (ha _ (handlerOf_cmos hs h71)) (ha _ h71)]
    exact hr.cmos h71

theorem Recorded.write (hr : Recorded h pre g) (hs : StandardHandlers h)
    (he : h.handlerOf port = some e) : Recorded h (pre ++ [.write (some c) port size value])
      (g.setIo { g.io with devices := e.handler.after g.io.devices port value }) := by
  have ho := handlerOf_owns hs he
  refine ⟨hr.handlers, fun q hq hreg => ?_, fun h71 => ?_⟩
  · rw [uartAfter_append, Host.setIo_io, ho.after_uart hq (hr.uart q hq hreg), PortAccess.written]
    split_ifs <;> rfl
  · have hafter : (e.handler.after g.io.devices port value).cmos =
        g.io.devices.cmos.step (.write (some c) port size value) := ho.after_cmos
    rw [cmosAfter_append, Host.setIo_io, hafter, hr.cmos h71]

theorem Recorded.handlerOf (hr : Recorded h pre g) (port : UInt16) :
    g.handlerOf port = h.handlerOf port := by
  rw [Host.handlerOf, hr.handlers, Host.handlerOf]

/-- **A read** recalls what has been written. -/
theorem Recorded.answer (hr : Recorded h pre g) (hs : StandardHandlers h) :
    Recalls h pre (.read vcpu port size) (.value (g.portAnswer vcpu port size)) := by
  have hanswer : ∀ e c, h.handlerOf port = some e →
      g.portAnswer (some c) port size = .ok (e.handler.answer g.io.devices port) := by
    intro e c he
    rw [Host.portAnswer, if_neg (by simp), hr.handlerOf, he]
  refine ⟨fun c q _ hread hq hreg => ?_, fun c _ hread h71 => ?_⟩
  · simp only [PortAccess.read.injEq] at hread
    obtain ⟨rfl, rfl, -⟩ := hread
    obtain ⟨e, he⟩ := Option.ne_none_iff_exists'.mp hreg
    rw [hanswer e c he, (handlerOf_owns hs he).unique hq, Device.answer, hr.uart port hq hreg]
    rfl
  · simp only [PortAccess.read.injEq] at hread
    obtain ⟨rfl, rfl, -⟩ := hread
    obtain ⟨e, he⟩ := Option.ne_none_iff_exists'.mp h71
    have hcmos : Device.Owns .cmos 0x71 := ⟨by decide, by decide⟩
    rw [hanswer e c he, (handlerOf_owns hs he).unique hcmos, ← hr.cmos h71]
    rfl

/-- **An access with writes as they are meant** recalls what has been written, and keeps it. -/
theorem meant_step (hs : StandardHandlers h) (hr : Recorded h pre g) (a : PortAccess) :
    wlp a.meant (fun r g' => Recalls h pre a r ∧ Recorded h (pre ++ [a]) g') g := by
  cases a with
  | read vcpu port size =>
    have hkept := hr.same (a := .read vcpu port size) (fun _ _ => rfl) hs
    simp only [PortAccess.meant, wlp_bind, wlp_pure]
    refine wlp_mono ioPortRead_answers.wlp ?_
    rintro r _ ⟨rfl, rfl | rfl⟩
    · exact ⟨hr.answer hs, hkept⟩
    · exact ⟨hr.answer hs, hkept.handlers, hkept.uart, hkept.cmos⟩
  | write vcpu port size value =>
    have hno : ∀ r, Recalls h pre (.write vcpu port size value) r := fun r =>
      ⟨fun _ _ _ hread => (by cases hread), fun _ _ hread => (by cases hread)⟩
    simp only [PortAccess.meant, wlp_bind, wlp_pure]
    by_cases hn : vcpu.isNone ∨ h.handlerOf port = none
    · refine wlp_mono (ioPortWriteMeant_of_noHandler (by rw [hr.handlerOf]; exact hn)).wlp ?_
      rintro r _ ⟨-, rfl⟩
      refine ⟨hno _, hr.same (fun q hreg => ?_) hs⟩
      cases vcpu with
      | none => rfl
      | some c =>
        have hport : h.handlerOf port = none := hn.resolve_left (by simp)
        have hne : port ≠ q := by
          rintro rfl
          exact hreg hport
        exact if_neg hne
    · rw [not_or, Option.isNone_iff_eq_none] at hn
      obtain ⟨c, rfl⟩ := Option.ne_none_iff_exists'.mp hn.1
      obtain ⟨e, he⟩ := Option.ne_none_iff_exists'.mp hn.2
      rw [ioPortWriteMeant, if_neg (by simp), wlp_bind, wlp_get, hr.handlerOf, he]
      dsimp only
      rw [wlp_bind, onDevices, wlp_zoom]
      refine wlp_mono Device.wlp_write ?_
      rintro _ _ rfl
      rw [wlp_pure]
      exact ⟨hno _, hr.write hs he⟩

/-! ## Runs -/

/-- After the accesses `pre` the access does what it is meant to, and recalls what has been written. -/
def Meets (h : Host) (pre : List PortAccess) (a : PortAccess) : Prop :=
  ∃ g r g', (runOps PortAccess.run pre).run h = some ((), g) ∧ a.run.run g = some (r, g') ∧
    a.meant.run g = some (r, g') ∧ Recalls h pre a r

theorem recorded_nil (h : Host) : Recorded h [] h := by
  refine ⟨rfl, fun q _ _ => ?_, fun _ => rfl⟩
  rw [uartAfter, List.foldl_nil, Vector.getElem?_eq_getElem (and_seven_lt q)]
  rfl

theorem Recorded.writesDevice_iff (hr : Recorded h pre g) :
    a.WritesDevice g ↔ a.WritesDevice h := by
  cases a with
  | read vcpu port size => exact Iff.rfl
  | write vcpu port size value => rw [PortAccess.WritesDevice, PortAccess.WritesDevice, hr.handlerOf]

theorem Recorded.run (hs : StandardHandlers h) (hr : Recorded h pre g) (ha : ¬ a.WritesDevice h) :
    ∃ r g', a.run.run g = some (r, g') ∧ a.meant.run g = some (r, g') ∧ Recalls h pre a r ∧
      Recorded h (pre ++ [a]) g' := by
  obtain ⟨r, g', hrun, hmeant⟩ := PortAccess.run_of_not_writesDevice (mt hr.writesDevice_iff.mp ha)
  obtain ⟨hrecalls, hrecorded⟩ := meant_step hs hr a r g' hmeant
  exact ⟨r, g', hrun, hmeant, hrecalls, hrecorded⟩

theorem recorded_run (hs : StandardHandlers h) (hpre : ∀ a ∈ pre, ¬ a.WritesDevice h) :
    wp (runOps PortAccess.run pre) (fun _ g => Recorded h pre g) h := by
  refine wp_runOps (C := fun _ _ => True) (I := fun pre g => Recorded h pre g) ?_
    (along_of_forall (fun _ _ _ => trivial) h) (recorded_nil h)
  intro pre a g ha _ hr
  obtain ⟨r, g', hrun, -, -, hr'⟩ := hr.run hs (hpre a ha)
  exact wp_of_run hrun hr'

/-- **Which port accesses are served.** After `io_emul_init`, each access of a sequence does what it is
meant to do, with writes that reach the write function of the device, and UART and CMOS recall what has
been written to them, if and only if there is no write to a port that has a handler. -/
theorem port_writes_reach_devices_iff {r : Result} (hinit : ioEmulInit.run h₀ = some (r, h))
    (accesses : List PortAccess) : (∀ pre a post, accesses = pre ++ a :: post → Meets h pre a) ↔
      ∀ a ∈ accesses, ¬ a.WritesDevice h := by
  have hs : StandardHandlers h := wp_run ioEmulInit_standard hinit
  constructor
  · intro hmeets
    -- the first write to a device is undefined
    have hprefix : ∀ pre, pre <+: accesses → ∀ a ∈ pre, ¬ a.WritesDevice h := by
      intro pre
      induction pre using List.reverseRecOn with
      | nil => exact fun _ a ha => absurd ha List.not_mem_nil
      | append_singleton pre a ih =>
        rintro ⟨post, hpost⟩
        have hpre := ih ⟨a :: post, by rw [← hpost, List.append_assoc]; rfl⟩
        obtain ⟨g, r, g', hrun, hr, -⟩ := hmeets pre a post (by rw [← hpost, List.append_assoc]; rfl)
        have hrecorded := wp_run (recorded_run hs hpre) hrun
        have ha := PortAccess.not_writesDevice_of_run hr
        rw [hrecorded.writesDevice_iff] at ha
        exact List.forall_mem_append.mpr ⟨hpre, List.forall_mem_singleton.mpr ha⟩
    exact hprefix accesses List.prefix_rfl
  · intro hno pre a post hsplit
    subst hsplit
    obtain ⟨hpre, ha⟩ := List.forall_mem_append.mp hno
    obtain ⟨_, g, hrun, hr⟩ := recorded_run hs hpre
    obtain ⟨r, g', hrun', hmeant, hrecalls, -⟩ := hr.run hs (ha a List.mem_cons_self)
    exact ⟨g, r, g', hrun, hrun', hmeant, hrecalls⟩

theorem port_writes_reach_devices_iff_unhandled : ∃ h, ioEmulInit.run (bootHost 1 .intel) = some (.ok, h) ∧
    ∀ pre a post, [.read (some 16384) 0x3F8 1, .write (some 16384) 0x80 1 5, .read (some 16384) 0x71 1] =
      pre ++ a :: post → Meets h pre a := by
  obtain ⟨_, h, hinit, rfl, -⟩ := ioEmulInit_spec (h := bootHost 1 .intel)
  have hs : StandardHandlers h := wp_run ioEmulInit_standard hinit
  have hnone : h.handlerOf 0x80 = none := by
    by_contra hne
    obtain ⟨e, he⟩ := Option.ne_none_iff_exists'.mp hne
    have hno : ∀ dev : Device, ¬ dev.Owns 0x80 := by
      intro dev
      cases dev <;> decide
    exact hno _ (handlerOf_owns hs he)
  refine ⟨h, hinit, (port_writes_reach_devices_iff hinit _).mpr ?_⟩
  intro a ha
  simp only [List.mem_cons, List.not_mem_nil, or_false] at ha
  rcases ha with rfl | rfl | rfl
  · exact id
  · exact fun hw => hw.2 hnone
  · exact id

/-- **A byte sent over the UART** is used as the address for an answer. -/
theorem uart_write_not_served : ∃ h, ioEmulInit.run (bootHost 1 .intel) = some (.ok, h) ∧
    (PortAccess.run (.write (some 16384) 0x3F8 1 0x41)).run h = none ∧
    ¬ Meets h [] (.write (some 16384) 0x3F8 1 0x41) := by
  have hdec : ((ioEmulInit.run (bootHost 1 .intel)).any fun p => p.1 = .ok &&
      (p.2.handlerOf 0x3F8).isSome) = true := by decide +kernel
  obtain ⟨⟨r, h⟩, hinit, hp⟩ := (Option.any_eq_true _ _).mp hdec
  rw [Bool.and_eq_true, decide_eq_true_eq] at hp
  obtain ⟨rfl, hsome⟩ := hp
  have hw : PortAccess.WritesDevice h (.write (some 16384) 0x3F8 1 0x41) :=
    ⟨by simp, Option.isSome_iff_ne_none.mp hsome⟩
  have hundefined : (PortAccess.run (.write (some 16384) 0x3F8 1 0x41)).run h = none := by
    by_contra hne
    obtain ⟨⟨r, g⟩, hrun⟩ := Option.ne_none_iff_exists'.mp hne
    exact PortAccess.not_writesDevice_of_run hrun hw
  refine ⟨h, hinit, hundefined, ?_⟩
  rintro ⟨g, r, g', hrun, hr, -⟩
  cases hrun
  rw [hundefined] at hr
  cases hr

end NexusVM
