import NexusVM.Host
import NexusVM.Lib.Flags

/-!
# Intercept bitmaps

The functions of `vmx/vmx.c` that choose at which MSRs and ports a guest exits.

* `changeMsrIntercept`, `changeIoIntercept`: a bit of a bitmap, with the bound on its byte;
* `MsrCall`, `IoCall`: the calls of a run;
* **`msr_intercepts_iff`**: reads and writes share bits of one bitmap, and all are tracked just if the
  last calls agree on each bit that is shared;
* **`io_intercepts_iff`**: no call reaches a port from 0x8000 on, and the processor looks at the bit
  of the port 0x8000 below it.
-/

namespace NexusVM

open Flags Prog

/-- Turn a bit of the byte at `a` on or off. -/
def changeByte (on : Bool) (a bit : ℕ) : HostM Unit :=
  modify fun h => h.setMem { h.mem with ram := storeBit h.mem.ram on a bit }

@[simp] theorem wp_changeByte {on : Bool} {a bit : ℕ} {Q : Unit → Host → Prop} {h : Host} :
    wp (changeByte on a bit) Q h ↔
      Q () (h.setMem { h.mem with ram := storeBit h.mem.ram on a bit }) := wp_modify _

/-! ## MSRs -/

/-- Turn the bit of an MSR on or off in the bitmap of a vCPU, `offset` bytes further on; an index
beyond the bound is ignored. -/
def changeMsrIntercept (offset : UInt32) (on : Bool) (vcpu : Option Addr) (msr : UInt32) :
    HostM Unit :=
  match vcpu with
  | none => return ()
  | some c => do
    let u ← getVcpu c
    match u.msrBitmap with
    | none => return ()
    | some bitmap =>
      let index := msr / 8 + offset
      let bit := msr % 8
      Prog.when (index < 8192) (changeByte on (bitmap + index.toNat) bit.toNat)

/-- `vmx_enable_msr_read_intercept` -/
def vmxEnableMsrReadIntercept : Option Addr → UInt32 → HostM Unit := changeMsrIntercept 0 true

/-- `vmx_disable_msr_read_intercept` -/
def vmxDisableMsrReadIntercept : Option Addr → UInt32 → HostM Unit := changeMsrIntercept 0 false

/-- `vmx_enable_msr_write_intercept` -/
def vmxEnableMsrWriteIntercept : Option Addr → UInt32 → HostM Unit := changeMsrIntercept 2048 true

/-- `vmx_disable_msr_write_intercept` -/
def vmxDisableMsrWriteIntercept : Option Addr → UInt32 → HostM Unit := changeMsrIntercept 2048 false

/-- The accesses that are intercepted. -/
inductive MsrAccess
  | read
  | write
deriving DecidableEq

/-- A call: the access to an MSR, and whether it is enabled or disabled. -/
abbrev MsrCall : Type := (MsrAccess × UInt32) × Bool

/-- Perform a call on a vCPU. -/
def MsrCall.perform (c : Addr) : MsrCall → HostM Unit
  | ((.read, msr), true) => vmxEnableMsrReadIntercept (some c) msr
  | ((.read, msr), false) => vmxDisableMsrReadIntercept (some c) msr
  | ((.write, msr), true) => vmxEnableMsrWriteIntercept (some c) msr
  | ((.write, msr), false) => vmxDisableMsrWriteIntercept (some c) msr

/-- Where the bits of an access begin in the bitmap. -/
def MsrAccess.offset : MsrAccess → UInt32
  | .read => 0
  | .write => 2048

/-- The range check of the functions for an access. -/
def MsrAccess.accepts (k : MsrAccess × UInt32) : Bool := k.2 / 8 + k.1.offset < 8192

/-- The bit that the functions for an access address. -/
def MsrAccess.bit (k : MsrAccess × UInt32) : ℕ := 8 * (k.2 / 8 + k.1.offset).toNat + (k.2 % 8).toNat

theorem MsrCall.perform_eq (c : Addr) (x : MsrCall) :
    x.perform c = changeMsrIntercept x.1.1.offset x.2 (some c) x.1.2 := by
  obtain ⟨⟨k, msr⟩, on⟩ := x
  cases k <;> cases on <;> rfl

theorem MsrAccess.read_bit (m : UInt32) : bit (.read, m) = m.toNat := by
  rw [bit, offset, UInt32.add_zero, UInt32.toNat_div, UInt32.toNat_mod]
  exact Nat.div_add_mod _ 8

theorem MsrAccess.read_accepts (m : UInt32) : accepts (.read, m) = decide (m.toNat < 65536) := by
  rw [accepts, offset, UInt32.add_zero, decide_eq_decide, UInt32.lt_iff_toNat_lt, UInt32.toNat_div]
  change m.toNat / 8 < 8192 ↔ _
  omega

theorem MsrAccess.write_index (m : UInt32) : (m / 8 + offset .write).toNat = m.toNat / 8 + 2048 := by
  have hlt := m.toNat_lt
  rw [offset, UInt32.toNat_add, UInt32.toNat_div]
  change (m.toNat / 8 + 2048) % 2 ^ 32 = _
  exact Nat.mod_eq_of_lt (by omega)

theorem MsrAccess.write_bit (m : UInt32) : bit (.write, m) = m.toNat + 16384 := by
  rw [bit, write_index, UInt32.toNat_mod]
  change 8 * (m.toNat / 8 + 2048) + m.toNat % 8 = _
  omega

theorem MsrAccess.write_accepts (m : UInt32) : accepts (.write, m) = decide (m.toNat < 49152) := by
  rw [accepts, decide_eq_decide, UInt32.lt_iff_toNat_lt, write_index]
  change m.toNat / 8 + 2048 < 8192 ↔ _
  omega

/-- The vCPU has a bitmap for its MSRs in which no bit is set. -/
structure ZeroedMsrs (c b : Addr) (h : Host) : Prop where
  vcpu : ∃ u, h.vcpus c = some u ∧ u.msrBitmap = some b
  zero : ∀ i < 8192, h.mem.ram (b + i) = 0

/-- After the calls so far: the bit at each place is as the last call that addresses it left it. -/
structure MsrBits (c b : Addr) (calls : List MsrCall) (h : Host) : Prop where
  vcpu : ∃ u, h.vcpus c = some u ∧ u.msrBitmap = some b
  bits : ∀ i < 65536, bitAt h.mem.ram b i =
    Flags.lastCall (fun k => MsrAccess.accepts k && decide (MsrAccess.bit k = i)) calls

variable {h : Host} {c : Addr} {a b : ℕ}

theorem ZeroedMsrs.bits (hz : ZeroedMsrs c b h) : MsrBits c b [] h :=
  ⟨hz.vcpu, fun i hi => bitAt_zero (hz.zero (i / 8) (Nat.div_lt_of_lt_mul hi))⟩

theorem MsrBits.perform {calls : List MsrCall} (hb : MsrBits c b calls h) (x : MsrCall) :
    wp (x.perform c) (fun _ h' => MsrBits c b (calls ++ [x]) h') h := by
  obtain ⟨u, hu, hub⟩ := hb.vcpu
  have hbit : (x.1.2 % 8).toNat < 8 := by
    rw [UInt32.toNat_mod]
    exact Nat.mod_lt _ (by decide)
  rw [MsrCall.perform_eq, changeMsrIntercept, wp_bind, wp_getVcpu]
  refine ⟨u, hu, ?_⟩
  rw [hub]
  simp only [wp_when, wp_changeByte]
  refine ⟨fun hacc => ⟨⟨u, hu, hub⟩, fun i hi => ?_⟩, fun hacc => ⟨⟨u, hu, hub⟩, fun i hi => ?_⟩⟩
  · have haccepts : MsrAccess.accepts x.1 = true := decide_eq_true hacc
    change bitAt (storeBit h.mem.ram x.2 _ _) b i = _
    rw [bitAt_storeBit hbit, Flags.lastCall_append, haccepts, Bool.true_and, hb.bits i hi]
    simp only [decide_eq_true_eq]
    rfl
  · have haccepts : MsrAccess.accepts x.1 = false := decide_eq_false hacc
    rw [Flags.lastCall_append, haccepts, Bool.false_and, if_neg Bool.false_ne_true, hb.bits i hi]

theorem MsrBits.run (hz : ZeroedMsrs c b h) (calls : List MsrCall) :
    wp (forEach (MsrCall.perform c) calls) (fun _ h' => MsrBits c b calls h') h :=
  wp_forEach _ (MsrBits c b) calls (fun _ x _ _ _ hb => hb.perform x) hz.bits

theorem MsrAccess.names_low {i : ℕ} (hi : i < 16384) (k : MsrAccess × UInt32) :
    (accepts k && decide (bit k = i)) = decide (k = (.read, UInt32.ofNat i)) := by
  obtain ⟨a, m⟩ := k
  have hof : (UInt32.ofNat i).toNat = i := by
    rw [UInt32.toNat_ofNat', Nat.mod_eq_of_lt (by omega)]
  cases a with
  | read =>
    rw [read_bit, read_accepts, Bool.eq_iff_iff, Bool.and_eq_true, decide_eq_true_iff,
      decide_eq_true_iff, decide_eq_true_iff, Prod.mk.injEq, ← UInt32.toNat_inj, hof]
    constructor
    · rintro ⟨-, hm⟩
      exact ⟨rfl, hm⟩
    · rintro ⟨-, hm⟩
      exact ⟨by omega, hm⟩
  | write =>
    have hne : ¬ bit (.write, m) = i := by
      rw [write_bit]
      omega
    rw [decide_eq_false hne, Bool.and_false]
    exact (decide_eq_false fun he => by cases he).symm

theorem MsrAccess.names_high {m : UInt32} (hm : m.toNat < 49152) (k : MsrAccess × UInt32) :
    (accepts k && decide (bit k = m.toNat + 16384)) =
      (decide (k = (.read, m + 16384)) || decide (k = (.write, m))) := by
  obtain ⟨a, n⟩ := k
  have hadd : (m + 16384).toNat = m.toNat + 16384 := by
    rw [UInt32.toNat_add]
    exact Nat.mod_eq_of_lt (by change m.toNat + 16384 < 2 ^ 32; omega)
  cases a with
  | read =>
    rw [read_bit, read_accepts, Bool.eq_iff_iff, Bool.and_eq_true, Bool.or_eq_true,
      decide_eq_true_iff, decide_eq_true_iff, decide_eq_true_iff, decide_eq_true_iff,
      Prod.mk.injEq, Prod.mk.injEq, ← UInt32.toNat_inj, hadd]
    constructor
    · rintro ⟨-, hn⟩
      exact .inl ⟨rfl, hn⟩
    · rintro (⟨-, hn⟩ | ⟨hc, -⟩)
      · exact ⟨by omega, hn⟩
      · cases hc
  | write =>
    rw [write_bit, write_accepts, Bool.eq_iff_iff, Bool.and_eq_true, Bool.or_eq_true,
      decide_eq_true_iff, decide_eq_true_iff, decide_eq_true_iff, decide_eq_true_iff,
      Prod.mk.injEq, Prod.mk.injEq, ← UInt32.toNat_inj, ← UInt32.toNat_inj]
    constructor
    · rintro ⟨-, hn⟩
      exact .inr ⟨rfl, by omega⟩
    · rintro (⟨hc, -⟩ | ⟨-, hn⟩)
      · cases hc
      · exact ⟨by omega, by omega⟩

/-- Every access that its range check accepts is intercepted just if the last call on it enabled it. -/
def MsrTracked (b : Addr) (calls : List MsrCall) (h : Host) : Prop :=
  ∀ k, MsrAccess.accepts k = true →
    bitAt h.mem.ram b (MsrAccess.bit k) = Flags.lastCall (fun x => decide (x = k)) calls

/-- **MSR intercepts.** -/
theorem msr_intercepts_iff (hz : ZeroedMsrs c b h) (calls : List MsrCall) :
    wp (forEach (MsrCall.perform c) calls) (fun _ h' => MsrTracked b calls h' ↔
      ∀ m : UInt32, m < 49152 → Flags.lastCall (fun x => decide (x = (.read, m + 16384))) calls =
        Flags.lastCall (fun x => decide (x = (.write, m))) calls) h := by
  refine wp_mono (MsrBits.run hz calls) fun _ h' hb => ?_
  have hadd : ∀ m : UInt32, m.toNat < 49152 → (m + 16384).toNat = m.toNat + 16384 := by
    intro m hm
    rw [UInt32.toNat_add]
    exact Nat.mod_eq_of_lt (by change m.toNat + 16384 < 2 ^ 32; omega)
  -- each shared bit follows its two names just if they agree
  have hshared : ∀ m : UInt32, m.toNat < 49152 → (
      bitAt h'.mem.ram b (m.toNat + 16384) =
          Flags.lastCall (fun x => decide (x = (.read, m + 16384))) calls ∧
        bitAt h'.mem.ram b (m.toNat + 16384) =
          Flags.lastCall (fun x => decide (x = (.write, m))) calls ↔
      Flags.lastCall (fun x => decide (x = (.read, m + 16384))) calls =
        Flags.lastCall (fun x => decide (x = (.write, m))) calls) := by
    intro m hm
    rw [hb.bits _ (by omega)]
    exact Flags.lastCall_or_iff (MsrAccess.names_high hm) calls
  constructor
  · intro ht m hm
    have hm' : m.toNat < 49152 := UInt32.lt_iff_toNat_lt.mp hm
    have hread := ht (.read, m + 16384) (by
      rw [MsrAccess.read_accepts, hadd m hm']
      exact decide_eq_true (by omega))
    have hwrite := ht (.write, m) (by
      rw [MsrAccess.write_accepts]
      exact decide_eq_true hm')
    rw [MsrAccess.read_bit, hadd m hm'] at hread
    rw [MsrAccess.write_bit] at hwrite
    exact (hshared m hm').mp ⟨hread, hwrite⟩
  · rintro hagree ⟨a, m⟩ hacc
    cases a with
    | write =>
      rw [MsrAccess.write_accepts, decide_eq_true_iff] at hacc
      rw [MsrAccess.write_bit]
      exact ((hshared m hacc).mpr (hagree m (UInt32.lt_iff_toNat_lt.mpr hacc))).2
    | read =>
      rw [MsrAccess.read_accepts, decide_eq_true_iff] at hacc
      rw [MsrAccess.read_bit]
      by_cases hlow : m.toNat < 16384
      · rw [hb.bits _ (by omega), funext (MsrAccess.names_low hlow), UInt32.ofNat_toNat]
      · -- a bit that is shared with the writes 16384 below
        have hle : (16384 : UInt32) ≤ m := UInt32.le_iff_toNat_le.mpr (by
          change 16384 ≤ m.toNat
          omega)
        have hsub : (m - 16384).toNat = m.toNat - 16384 := UInt32.toNat_sub_of_le _ _ hle
        have hback : m - 16384 + 16384 = m := UInt32.sub_add_cancel _ _
        have hm' : (m - 16384).toNat < 49152 := by omega
        have := ((hshared _ hm').mpr (hagree _ (UInt32.lt_iff_toNat_lt.mpr hm'))).1
        rw [hback, hsub] at this
        rwa [Nat.sub_add_cancel (by omega)] at this

/-- A vCPU with fresh bitmaps. -/
def interceptHost : Host where
  __ := bootHost 1 .intel
  vcpus a := if a = 16384 then some {
    msrBitmap := some 32768
    ioBitmapA := some 49152
    ioBitmapB := some 65536 } else none
  mem := { bumpMem with heap := { bumpHeap with
    live := [⟨.ioBitmap, 65536, 4096⟩, ⟨.ioBitmap, 49152, 4096⟩, ⟨.msrBitmap, 32768, 8192⟩]
    asked := 4 } }

theorem zeroedMsrs_interceptHost : ZeroedMsrs 16384 32768 interceptHost :=
  ⟨⟨_, rfl, rfl⟩, fun _ _ => rfl⟩

/-- Enabling the intercept of reads from an MSR below 16384. -/
theorem msr_intercepts_iff_enable : wp (forEach (MsrCall.perform 16384) [((.read, 16), true)])
    (fun _ h' => MsrTracked 32768 [((.read, 16), true)] h') interceptHost := by
  refine wp_mono (msr_intercepts_iff zeroedMsrs_interceptHost [((.read, 16), true)]) ?_
  refine fun _ h' hiff => hiff.mpr fun m hm => ?_
  have hne : ¬ (16 : UInt32) = m + 16384 := by
    intro heq
    have hlt : m.toNat < 49152 := UInt32.lt_iff_toNat_lt.mp hm
    have hnat := congrArg UInt32.toNat heq
    rw [UInt32.toNat_add] at hnat
    change 16 = (m.toNat + 16384) % 2 ^ 32 at hnat
    omega
  simp [Flags.lastCall, hne]

/-- Enabling the intercept of writes to MSR 0 enables that of reads from MSR 16384. -/
theorem msr_write_enables_read : ZeroedMsrs 16384 32768 interceptHost ∧
    ¬ wp (forEach (MsrCall.perform 16384) [((.write, 0), true)])
      (fun _ h' => MsrTracked 32768 [((.write, 0), true)] h') interceptHost := by
  refine ⟨zeroedMsrs_interceptHost, ?_⟩
  rintro ⟨_, h', hrun, ht⟩
  have hb := wp_run (MsrBits.run zeroedMsrs_interceptHost _) hrun
  have hread := ht (.read, 16384) (by decide)
  rw [MsrAccess.read_bit, hb.bits _ (by decide)] at hread
  revert hread
  decide

/-! ## Ports -/

/-- Turn the bit of a port on or off in both bitmaps of a vCPU; an index beyond the bound is
ignored. -/
def changeIoIntercept (on : Bool) (vcpu : Option Addr) (port : UInt16) : HostM Unit :=
  match vcpu with
  | none => return ()
  | some c => do
    let u ← getVcpu c
    let index := port.toUInt32 / 8
    let bit := port.toUInt32 % 8
    Prog.when (index < 4096) do
      let bitmapA ← Prog.fetch fun _ => u.ioBitmapA
      let bitmapB ← Prog.fetch fun _ => u.ioBitmapB
      changeByte on (bitmapA + index.toNat) bit.toNat
      changeByte on (bitmapB + index.toNat) bit.toNat

/-- `vmx_enable_io_port_intercept` -/
def vmxEnableIoPortIntercept : Option Addr → UInt16 → HostM Unit := changeIoIntercept true

/-- `vmx_disable_io_port_intercept` -/
def vmxDisableIoPortIntercept : Option Addr → UInt16 → HostM Unit := changeIoIntercept false

/-- A call: the port, and whether it is enabled or disabled. -/
abbrev IoCall : Type := UInt16 × Bool

/-- Perform a call on a vCPU. -/
def IoCall.perform (c : Addr) : IoCall → HostM Unit
  | (port, true) => vmxEnableIoPortIntercept (some c) port
  | (port, false) => vmxDisableIoPortIntercept (some c) port

theorem IoCall.perform_eq (c : Addr) (x : IoCall) :
    x.perform c = changeIoIntercept x.2 (some c) x.1 := by
  obtain ⟨port, on⟩ := x
  cases on <;> rfl

/-- The bit that the processor consults for a port: bitmap A has the lower half of the ports, bitmap B
the upper half. -/
def consultedBit (m : Addr → UInt8) (a b : Addr) (p : UInt16) : Bool :=
  if p.toNat < 0x8000 then bitAt m a p.toNat else bitAt m b (p.toNat - 0x8000)

/-- The two bitmaps of a vCPU for its ports. -/
structure IoBitmaps (c a b : Addr) (h : Host) : Prop where
  vcpu : ∃ u, h.vcpus c = some u ∧ u.ioBitmapA = some a ∧ u.ioBitmapB = some b
  sound : h.mem.heap.Sound
  liveA : ⟨.ioBitmap, a, 4096⟩ ∈ h.mem.heap.live
  liveB : ⟨.ioBitmap, b, 4096⟩ ∈ h.mem.heap.live
  ne : a ≠ b

theorem IoBitmaps.apart (hp : IoBitmaps c a b h) : a + 4096 ≤ b ∨ b + 4096 ≤ a := by
  have hne : (⟨.ioBitmap, a, 4096⟩ : Block BlockKind) ≠ ⟨.ioBitmap, b, 4096⟩ := by
    intro he
    cases he
    exact hp.ne rfl
  exact (hp.sound.apart hp.liveA hp.liveB hne).2

/-- Both bitmaps show, for each port of the lower half, whether the last call on it enabled it. -/
structure IoBits (c a b : Addr) (calls : List IoCall) (h : Host) : Prop where
  bitmaps : IoBitmaps c a b h
  bitsA : ∀ i < 32768, bitAt h.mem.ram a i = Flags.lastCall (fun p => decide (p.toNat = i)) calls
  bitsB : ∀ i < 32768, bitAt h.mem.ram b i = Flags.lastCall (fun p => decide (p.toNat = i)) calls

theorem IoBits.nil (hp : IoBitmaps c a b h) (hA : ∀ i < 4096, h.mem.ram (a + i) = 0)
    (hB : ∀ i < 4096, h.mem.ram (b + i) = 0) : IoBits c a b [] h :=
  ⟨hp, fun i hi => bitAt_zero (hA (i / 8) (Nat.div_lt_of_lt_mul hi)),
    fun i hi => bitAt_zero (hB (i / 8) (Nat.div_lt_of_lt_mul hi))⟩

theorem IoBits.perform {calls : List IoCall} (hb : IoBits c a b calls h) (x : IoCall) :
    wp (x.perform c) (fun _ h' => IoBits c a b (calls ++ [x]) h') h := by
  obtain ⟨u, hu, hua, hub⟩ := hb.bitmaps.vcpu
  have hapart := hb.bitmaps.apart
  have hindex : (x.1.toUInt32 / 8).toNat = x.1.toNat / 8 := by
    rw [UInt32.toNat_div, UInt16.toNat_toUInt32]
    rfl
  have hbit : (x.1.toUInt32 % 8).toNat = x.1.toNat % 8 := by
    rw [UInt32.toNat_mod, UInt16.toNat_toUInt32]
    rfl
  have hlt : x.1.toNat % 8 < 8 := Nat.mod_lt _ (by decide)
  have hplace : 8 * (x.1.toNat / 8) + x.1.toNat % 8 = x.1.toNat := Nat.div_add_mod _ 8
  rw [IoCall.perform_eq, changeIoIntercept, wp_bind, wp_getVcpu]
  refine ⟨u, hu, ?_⟩
  simp only [wp_when, wp_bind, wp_fetch, hua, hub, wp_changeByte, UInt32.lt_iff_toNat_lt, hindex, hbit]
  refine ⟨fun hacc => ⟨a, rfl, b, rfl, ?_, fun i hi => ?_, fun i hi => ?_⟩,
    fun hacc => ⟨hb.bitmaps, fun i hi => ?_, fun i hi => ?_⟩⟩
  · exact ⟨⟨u, hu, hua, hub⟩, hb.bitmaps.sound, hb.bitmaps.liveA, hb.bitmaps.liveB, hb.bitmaps.ne⟩
  · have hx : x.1.toNat / 8 < 4096 := hacc
    have hne : (a + i / 8 : ℕ) ≠ b + x.1.toNat / 8 := by omega
    change bitAt (storeBit (storeBit h.mem.ram x.2 _ _) x.2 _ _) a i = _
    rw [bitAt_storeBit_of_ne hne, bitAt_storeBit hlt, hplace, Flags.lastCall_append, hb.bitsA i hi]
    simp only [decide_eq_true_eq]
  · have hx : x.1.toNat / 8 < 4096 := hacc
    have hne : (b + i / 8 : ℕ) ≠ a + x.1.toNat / 8 := by omega
    change bitAt (storeBit (storeBit h.mem.ram x.2 _ _) x.2 _ _) b i = _
    rw [bitAt_storeBit hlt, bitAt_storeBit_of_ne hne, hplace, Flags.lastCall_append, hb.bitsB i hi]
    simp only [decide_eq_true_eq]
  · have hx : ¬ x.1.toNat / 8 < 4096 := hacc
    have hne : ¬ x.1.toNat = i := by omega
    rw [Flags.lastCall_append, decide_eq_false hne, if_neg Bool.false_ne_true, hb.bitsA i hi]
  · have hx : ¬ x.1.toNat / 8 < 4096 := hacc
    have hne : ¬ x.1.toNat = i := by omega
    rw [Flags.lastCall_append, decide_eq_false hne, if_neg Bool.false_ne_true, hb.bitsB i hi]

theorem IoBits.run (hb : IoBits c a b [] h) (calls : List IoCall) :
    wp (forEach (IoCall.perform c) calls) (fun _ h' => IoBits c a b calls h') h :=
  wp_forEach _ (IoBits c a b) calls (fun _ x _ _ _ hb => hb.perform x) hb

/-- Every port is intercepted just if the last call on it enabled it. -/
def IoTracked (a b : Addr) (calls : List IoCall) (h : Host) : Prop :=
  ∀ p, consultedBit h.mem.ram a b p = Flags.lastCall (fun q => decide (q = p)) calls

/-- **Port intercepts.** -/
theorem io_intercepts_iff (hp : IoBitmaps c a b h) (hA : ∀ i < 4096, h.mem.ram (a + i) = 0)
    (hB : ∀ i < 4096, h.mem.ram (b + i) = 0) (calls : List IoCall) :
    wp (forEach (IoCall.perform c) calls) (fun _ h' => IoTracked a b calls h' ↔
      ∀ p : UInt16, p < 0x8000 → Flags.lastCall (fun q => decide (q = p + 0x8000)) calls =
        Flags.lastCall (fun q => decide (q = p)) calls) h := by
  refine wp_mono (IoBits.run (.nil hp hA hB) calls) fun _ h' hb => ?_
  have hname : ∀ p : UInt16, (fun q : UInt16 => decide (q.toNat = p.toNat)) = fun q => decide (q = p) :=
    fun p => funext fun q => by simp only [UInt16.toNat_inj]
  constructor
  · intro ht p hlt
    have hp' : p.toNat < 0x8000 := UInt16.lt_iff_toNat_lt.mp hlt
    have hadd : (p + 0x8000).toNat = p.toNat + 0x8000 := by
      rw [UInt16.toNat_add]
      exact Nat.mod_eq_of_lt (by change p.toNat + 0x8000 < 2 ^ 16; omega)
    have hupper := ht (p + 0x8000)
    rw [consultedBit, hadd, if_neg (by omega), Nat.add_sub_cancel, hb.bitsB _ (by omega), hname]
      at hupper
    exact hupper.symm
  · intro hagree p
    rw [consultedBit]
    by_cases hlow : p.toNat < 0x8000
    · rw [if_pos hlow, hb.bitsA _ (by omega), hname]
    · have hlt := p.toNat_lt
      have hle : (0x8000 : UInt16) ≤ p := UInt16.le_iff_toNat_le.mpr (by
        change 0x8000 ≤ p.toNat
        omega)
      have hsub : (p - 0x8000).toNat = p.toNat - 0x8000 := UInt16.toNat_sub_of_le _ _ hle
      have hback : p - 0x8000 + 0x8000 = p := UInt16.sub_add_cancel _ _
      have hp' : p - 0x8000 < 0x8000 := UInt16.lt_iff_toNat_lt.mpr (by
        change (p - 0x8000).toNat < 0x8000
        omega)
      have := hagree _ hp'
      rw [hback] at this
      rw [if_neg hlow, ← hsub, hb.bitsB _ (by omega), hname, this]

theorem ioBitmaps_interceptHost : IoBitmaps 16384 49152 65536 interceptHost :=
  ⟨⟨_, rfl, rfl, rfl⟩, by unfold Heap.Sound; decide, by decide, by decide, by decide⟩

/-- Two ports 0x8000 apart are tracked if both are enabled. -/
theorem io_intercepts_iff_enable : wp (forEach (IoCall.perform 16384) [(0x70, true), (0x8070, true)])
    (fun _ h' => IoTracked 49152 65536 [(0x70, true), (0x8070, true)] h') interceptHost := by
  refine wp_mono (io_intercepts_iff ioBitmaps_interceptHost (fun _ _ => rfl) (fun _ _ => rfl)
    [(0x70, true), (0x8070, true)]) fun _ h' hiff => hiff.mpr fun p hp => ?_
  have hlt : p.toNat < 0x8000 := UInt16.lt_iff_toNat_lt.mp hp
  have hadd : (p + 0x8000).toNat = p.toNat + 0x8000 := by
    rw [UInt16.toNat_add]
    exact Nat.mod_eq_of_lt (by change p.toNat + 0x8000 < 2 ^ 16; omega)
  have hlow : ¬ (0x70 : UInt16) = p + 0x8000 := by
    rw [← UInt16.toNat_inj, hadd]
    change ¬ 0x70 = p.toNat + 0x8000
    omega
  have hhigh : ¬ (0x8070 : UInt16) = p := by
    rw [← UInt16.toNat_inj]
    change ¬ 0x8070 = p.toNat
    omega
  have hsame : (0x8070 : UInt16) = p + 0x8000 ↔ (0x70 : UInt16) = p := by
    rw [← UInt16.toNat_inj, ← UInt16.toNat_inj, hadd]
    change 0x8070 = p.toNat + 0x8000 ↔ 0x70 = p.toNat
    omega
  simp [Flags.lastCall, hlow, hhigh, hsame]

/-- Enabling the intercept of port 0x8000 does nothing. -/
theorem io_upper_half_missed : IoBitmaps 16384 49152 65536 interceptHost ∧
    (∀ i < 4096, interceptHost.mem.ram (49152 + i) = 0) ∧
    (∀ i < 4096, interceptHost.mem.ram (65536 + i) = 0) ∧
    ¬ wp (forEach (IoCall.perform 16384) [(0x8000, true)])
      (fun _ h' => IoTracked 49152 65536 [(0x8000, true)] h') interceptHost := by
  refine ⟨ioBitmaps_interceptHost, fun _ _ => rfl, fun _ _ => rfl, ?_⟩
  rintro ⟨_, h', hrun, ht⟩
  have hbits : IoBits 16384 49152 65536 [] interceptHost :=
    .nil ioBitmaps_interceptHost (fun _ _ => rfl) fun _ _ => rfl
  have hb := wp_run (hbits.run _) hrun
  have hupper := ht 0x8000
  rw [consultedBit, if_neg (by decide), hb.bitsB _ (by decide)] at hupper
  revert hupper
  decide

end NexusVM
