import NexusVM.Lib.Purge
import NexusVM.Host

/-!
# Port emulation

The functions of `io_emul.c` over the registered handlers.

* `ioRegisterHandler`, `ioUnregisterHandler`, `ioEmulInit`: the list of handlers;
* `ioPortRead`, `ioPortWrite`: access to a port; both call the one function of the handler;
* `ioIrqSet`, `ioIrqGet`: the interrupt lines;
* `ioPortRead_answers`, `ioPortWrite_spec`, `ioIrqSet_spec`, `ioIrqGet_spec`, `ioEmulInit_spec`: what
  each call does.
-/

namespace NexusVM

open Prog

/-! ## Handlers -/

/-- `io_register_handler`; its callers pass a fifth argument, which it does not have. -/
def ioRegisterHandler (port count : UInt16) (handler : Device) (context : Option Device) :
    HostM Result := do
  match ← onMem (alignedAlloc .ioHandler 16 sizeofIoHandler) with
  | none => return .errNoMemory
  | some entry =>
    modify fun h => h.setIo { h.io with
      gIoHandlers := ⟨entry, port, count, handler, context⟩ :: h.io.gIoHandlers }
    return .ok

/-- `io_unregister_handler` -/
def ioUnregisterHandler (port : UInt16) : HostM Result := do
  let h ← get
  match h.io.gIoHandlers.find? fun e => e.port = port with
  | none => return .errNotFound
  | some e =>
    set (h.setIo { h.io with gIoHandlers := h.io.gIoHandlers.erase e })
    freeBuffer .ioHandler (some e.entry)
    return .ok

/-- `io_emul_init`; the results of the registrations are not looked at. -/
def ioEmulInit : HostM Result := do
  modify fun h => h.setIo { h.io with gIoHandlers := [], gIoInitialized := true }
  let _ ← ioRegisterHandler 0x70 8 .cmos (some .cmos)
  let _ ← ioRegisterHandler 0x60 2 .ps2Keyboard (some .ps2Keyboard)
  let _ ← ioRegisterHandler 0x40 4 .pit (some .pit)
  let _ ← ioRegisterHandler 0x3F8 8 .uart (some .uart)
  let _ ← ioRegisterHandler 0x3C0 (0x3DA - 0x3C0 + 1) .vga (some .vga)
  return .ok

/-! ## Access to ports -/

/-- The port is one of the handler's. -/
def IoHandler.Covers (e : IoHandler) (port : UInt16) : Prop :=
  port ≥ e.port ∧ port.toNat < e.port.toNat + e.count.toNat

instance (e : IoHandler) (port : UInt16) : Decidable (e.Covers port) := by
  unfold IoHandler.Covers; infer_instance

/-- The handler of a port. -/
def Host.handlerOf (h : Host) (port : UInt16) : Option IoHandler :=
  h.io.gIoHandlers.find? fun e => e.Covers port

/-- What a port without a handler answers. -/
def noHandler (size : UInt32) : UInt64 :=
  if size = 1 then 0xFF else if size = 2 then 0xFFFF else if size = 4 then 0xFFFFFFFF else 0

/-- `io_port_read` -/
def ioPortRead (vcpu : Option Addr) (port : UInt16) (size : UInt32) : HostM (Except Result UInt64) := do
  if vcpu.isNone then return .error .errInvalidParam
  let h ← get
  match h.handlerOf port with
  | some e => return .ok (← onDevices (e.handler.read port))
  | none => return .ok (noHandler size)

/-- A store of `x` to the address `p`. -/
def storeThrough (_p _x : UInt64) : HostM Unit :=
  -- `p` is a number that the guest chose, not the address of an object
  failure

/-- `io_port_write`; the written value is passed to the read function of the handler as the pointer
through which it stores its answer. -/
def ioPortWrite (vcpu : Option Addr) (port : UInt16) (_size : UInt32) (value : UInt64) :
    HostM Result := do
  if vcpu.isNone then return .errInvalidParam
  let h ← get
  match h.handlerOf port with
  | some e =>
    let x ← onDevices (e.handler.read port)
    storeThrough value x
    return .ok
  | none => return .ok

/-! ## Interrupt lines -/

/-- `io_irq_set` -/
def ioIrqSet (_vm : Option Addr) (irq : UInt32) (level : Bool) : HostM Unit := do
  if irq < 256 then
    modify fun h => h.setIo { h.io with gIrqLines := h.io.gIrqLines.setIfInBounds irq.toNat level }

/-- `io_irq_get` -/
def ioIrqGet (_vm : Option Addr) (irq : UInt32) : HostM Bool := do
  let h ← get
  if irq < 256 then Prog.fetch fun _ => h.io.gIrqLines[irq.toNat]? else return false

/-! ## What the calls do -/

variable {h : Host} {vcpu vm : Option Addr} {port : UInt16} {size : UInt32}

/-- The answer of a read of a port. -/
def Host.portAnswer (h : Host) (vcpu : Option Addr) (port : UInt16) (size : UInt32) :
    Except Result UInt64 :=
  if vcpu.isNone then .error .errInvalidParam
  else match h.handlerOf port with
    | some e => .ok (e.handler.answer h.io.devices port)
    | none => .ok (noHandler size)

/-- The keyboard's output has been taken. -/
def Host.takeOutput (h : Host) : Host :=
  h.setIo { h.io with devices := { h.io.devices with ps2Output := 0 } }

/-- **A read of a port** changes nothing but the keyboard's output, which it may take. -/
theorem ioPortRead_answers : wp (ioPortRead vcpu port size) (fun r h' =>
    r = h.portAnswer vcpu port size ∧ (h' = h ∨ h' = h.takeOutput)) h := by
  rw [ioPortRead, Host.portAnswer]
  split_ifs with hnull
  · rw [wp_pure]
    exact ⟨rfl, .inl rfl⟩
  rw [wp_bind, wp_get]
  cases hh : h.handlerOf port with
  | none =>
    dsimp only
    rw [wp_pure]
    exact ⟨rfl, .inl rfl⟩
  | some e =>
    dsimp only
    rw [wp_bind, wp_onDevices]
    refine wp_mono (e.handler.read_spec port h.io.devices) ?_
    rintro x d' ⟨rfl, hd⟩
    rw [wp_pure]
    refine ⟨rfl, ?_⟩
    rcases hd with rfl | rfl
    · exact .inl rfl
    · exact .inr rfl

theorem ioPortRead_spec (hquiet : h.io.devices.ps2Output = 0) :
    wp (ioPortRead vcpu port size) (fun r h' => r = h.portAnswer vcpu port size ∧ h' = h) h := by
  refine wp_mono ioPortRead_answers ?_
  rintro r _ ⟨rfl, rfl | rfl⟩
  · exact ⟨rfl, rfl⟩
  · refine ⟨rfl, ?_⟩
    rw [Host.takeOutput, ← hquiet]
    rfl

/-- A write of a port is undefined where the port has a handler, and nothing happens elsewhere. -/
theorem ioPortWrite_spec {value : UInt64} :
    wlp (ioPortWrite vcpu port size value) (fun _ h' => h' = h ∧
      (vcpu.isNone ∨ h.handlerOf port = none)) h := by
  rw [ioPortWrite]
  refine wlp_ite (fun hnull => ?_) fun _ => ?_
  · rw [wlp_pure]
    exact ⟨rfl, .inl hnull⟩
  rw [wlp_bind, wlp_get]
  cases hh : h.handlerOf port with
  | none =>
    dsimp only
    rw [wlp_pure]
    exact ⟨rfl, .inr rfl⟩
  | some e =>
    dsimp only [storeThrough]
    rw [wlp_bind]
    intro x h' _
    rw [wlp_bind]
    exact wlp_failure

theorem ioPortWrite_of_noHandler {value : UInt64} (hn : vcpu.isNone ∨ h.handlerOf port = none) :
    wp (ioPortWrite vcpu port size value) (fun r h' =>
      r = (if vcpu.isNone then .errInvalidParam else .ok) ∧ h' = h) h := by
  unfold ioPortWrite
  split_ifs with hnull
  · rw [wp_pure]
    exact ⟨rfl, rfl⟩
  · rw [wp_bind, wp_get, hn.resolve_left hnull]
    dsimp only
    rw [wp_pure]
    exact ⟨rfl, rfl⟩

/-- **Setting a line.** -/
theorem ioIrqSet_spec {irq : UInt32} {level : Bool} :
    wp (ioIrqSet vm irq level) (fun _ h' => h' = if irq < 256 then h.setIo { h.io with
      gIrqLines := h.io.gIrqLines.setIfInBounds irq.toNat level } else h) h := by
  unfold ioIrqSet
  split_ifs
  · rw [wp_modify]
  · rw [wp_pure]

/-- **Reading a line.** -/
theorem ioIrqGet_spec {irq : UInt32} :
    wp (ioIrqGet vm irq) (fun r h' => h' = h ∧ r = h.io.gIrqLines[irq.toNat]?.getD false) h := by
  rw [ioIrqGet, wp_bind, wp_get]
  refine wp_ite (fun hlt => ?_) fun hge => ?_
  · have hlt' : irq.toNat < 256 := UInt32.lt_iff_toNat_lt.mp hlt
    rw [wp_fetch, Vector.getElem?_eq_getElem hlt']
    exact ⟨_, rfl, rfl, rfl⟩
  · have hge' : ¬ irq.toNat < 256 := fun hc => hge (UInt32.lt_iff_toNat_lt.mpr hc)
    rw [wp_pure, Vector.getElem?_eq_none (by omega)]
    exact ⟨rfl, rfl⟩

theorem ioRegisterHandler_spec {count : UInt16} {handler : Device} {context : Option Device} :
    wp (ioRegisterHandler port count handler context) (fun _ h' => ∃ m i,
      h' = (h.setMem m).setIo i ∧ i.devices = h.io.devices ∧ i.gIrqLines = h.io.gIrqLines) h := by
  rw [ioRegisterHandler, wp_bind]
  refine wp_alignedAlloc (fun b hf => ?_) ?_
  · dsimp only
    rw [wp_bind, wp_modify, wp_pure]
    exact ⟨_, _, rfl, rfl, rfl⟩
  · dsimp only
    rw [wp_pure]
    exact ⟨h.refuse.mem, h.io, rfl, rfl, rfl⟩

/-- **`io_emul_init`** succeeds, and leaves the devices and the lines as they are. -/
theorem ioEmulInit_spec : wp ioEmulInit (fun r h' => r = .ok ∧ ∃ m i,
    h' = (h.setMem m).setIo i ∧ i.devices = h.io.devices ∧ i.gIrqLines = h.io.gIrqLines) h := by
  simp only [ioEmulInit, wp_bind, wp_modify, wp_pure]
  refine wp_mono ioRegisterHandler_spec ?_
  rintro _ _ ⟨m₁, i₁, rfl, hd₁, hl₁⟩
  refine wp_mono ioRegisterHandler_spec ?_
  rintro _ _ ⟨m₂, i₂, rfl, hd₂, hl₂⟩
  refine wp_mono ioRegisterHandler_spec ?_
  rintro _ _ ⟨m₃, i₃, rfl, hd₃, hl₃⟩
  refine wp_mono ioRegisterHandler_spec ?_
  rintro _ _ ⟨m₄, i₄, rfl, hd₄, hl₄⟩
  refine wp_mono ioRegisterHandler_spec ?_
  rintro _ _ ⟨m₅, i₅, rfl, hd₅, hl₅⟩
  refine ⟨trivial, m₅, i₅, ?_, ?_, ?_⟩
  · simp only [Host.setMem, Host.setIo]
  · exact hd₅.trans (hd₄.trans (hd₃.trans (hd₂.trans hd₁)))
  · exact hl₅.trans (hl₄.trans (hl₃.trans (hl₂.trans hl₁)))

end NexusVM
