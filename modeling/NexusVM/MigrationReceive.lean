import NexusVM.Runs
import NexusVM.Records

/-!
# Receiving the state of a VM

The functions of `migration/migration.c` on the target side. The source uses the type of the header
and three constants without defining them: they are parameters here. So is the network.

* `Network`, `migrationReceive`: how the calls of `migration_receive` end, and what they store;
* `migrationDeserializeVmState`, `migrationReceiveVmState`: the functions; a read beyond the end of
  the buffer is undefined;
* `Network.Complete`: a whole header of the right kind, a whole payload, and enough of it;
* `Network.Unnoticed`: one of the three falls short, and nothing tells the receiver;
* **`receive_all_or_nothing_iff`**: the VM is changed only by complete states just if nothing falls
  short unnoticed.
-/

namespace NexusVM

open Prog

/-- `migration_header_t` -/
structure MigrationHeader where
  magic : UInt32
  version : UInt32
  type : UInt32
  size : UInt64
  checksum : UInt32 := 0

/-- What the source does not define: how a header lies in memory, and the constants in it. -/
structure HeaderFormat where
  codec : Codec MigrationHeader
  magic : UInt32
  version : UInt32
  type : UInt32

/-- What the network does at each call, and what was in the memory that a call fills. -/
structure Network where
  result : ℕ → Result
  /-- The bytes that arrive when so many are asked for. -/
  data : ℕ → ℕ → List UInt8
  length_data_le : ∀ n size, (data n size).length ≤ size
  stale : ℕ → ℕ → UInt8

variable {h : Host} {a p : Addr} {v : Nexusvm} {w : Network} {f : HeaderFormat}

namespace Network

/-- The memory of a call after it: what arrived, and behind it what was there. -/
def memory (w : Network) (n size : ℕ) : List UInt8 :=
  w.data n size ++ ((List.range size).map (w.stale n)).drop (w.data n size).length

@[simp] theorem length_memory (w : Network) (n size : ℕ) : (w.memory n size).length = size := by
  have h := w.length_data_le n size
  rw [memory, List.length_append, List.length_drop, List.length_map, List.length_range]
  omega

end Network

/-! ## Functions -/

/-- The `n`-th call of `migration_receive`: its result, what it leaves in memory, and `received`. -/
def migrationReceive (w : Network) (n size : ℕ) : Result × List UInt8 × ℕ :=
  (w.result n, w.memory n size, (w.data n size).length)

/-- `memcpy` out of a buffer. -/
def readBuffer (buffer : List UInt8) (offset size : ℕ) : HostM (List UInt8) := do
  Prog.require (offset + size ≤ buffer.length)
  return (buffer.drop offset).take size

/-- The loop of `migration_deserialize_vm_state`. -/
def deserializeVcpus (buffer : List UInt8) : ℕ → List Addr → HostM Unit
  | _, [] => return ()
  | ptr, c :: cs => do
    let bytes ← readBuffer buffer ptr sizeofCpuState
    putVcpu c { ← getVcpu c with cpuState := cpuStateCodec.decode bytes }
    deserializeVcpus buffer (ptr + sizeofCpuState) cs

/-- `migration_deserialize_vm_state`; the size of the buffer is not looked at. -/
def migrationDeserializeVmState (vm : Addr) (buffer : List UInt8) : HostM Result := do
  let bytes ← readBuffer buffer 0 sizeofVmConfig
  let v ← getVm vm
  putVm vm { v with config := vmConfigCodec.decode bytes }
  deserializeVcpus buffer sizeofVmConfig v.vcpus
  return .ok

/-- The check of a header. -/
def HeaderFormat.Matches (f : HeaderFormat) (header : MigrationHeader) : Prop :=
  header.magic = f.magic ∧ header.version = f.version ∧ header.type = f.type

instance (f : HeaderFormat) (header : MigrationHeader) : Decidable (f.Matches header) := by
  unfold HeaderFormat.Matches; infer_instance

/-- `migration_receive_vm_state`; neither `received` nor the checksum is looked at. -/
def migrationReceiveVmState (w : Network) (f : HeaderFormat) (connection vm : Option Addr) :
    HostM Result :=
  match connection, vm with
  | some _, some a => do
    let (result, bytes, _) := migrationReceive w 0 f.codec.size
    if result ≠ .ok then return result
    let header := f.codec.decode bytes
    if ¬ f.Matches header then return .errGeneric
    match ← onMem (alignedAlloc .stateBuffer 16 header.size.toNat) with
    | none => return .errNoMemory
    | some buffer =>
      let (result, bytes, _) := migrationReceive w 1 header.size.toNat
      if result ≠ .ok then
        freeBuffer .stateBuffer (some buffer)
        return result
      let result ← migrationDeserializeVmState a bytes
      freeBuffer .stateBuffer (some buffer)
      return result
  | _, _ => return .errInvalidParam

/-! ## Complete states -/

/-- The bytes that the state of a VM takes. -/
def Nexusvm.stateSize (v : Nexusvm) : ℕ := sizeofVmConfig + v.vcpuCount.toNat * sizeofCpuState

namespace Network

/-- What the receiver takes for the header. -/
def header (w : Network) (f : HeaderFormat) : MigrationHeader :=
  f.codec.decode (w.memory 0 f.codec.size)

/-- The size that it says. -/
def payloadSize (w : Network) (f : HeaderFormat) : ℕ := (w.header f).size.toNat

/-- A whole header of the right kind arrives, then a payload of the size it says, which is enough
for the VM. -/
structure Complete (w : Network) (f : HeaderFormat) (v : Nexusvm) : Prop where
  header : w.result 0 = .ok
  wholeHeader : (w.data 0 f.codec.size).length = f.codec.size
  kind : f.Matches (w.header f)
  payload : w.result 1 = .ok
  wholePayload : (w.data 1 (w.payloadSize f)).length = w.payloadSize f
  enough : v.stateSize ≤ w.payloadSize f

/-- One of the three falls short, although both calls return `NEXUSVM_OK`, the memory of the header
looks right and there is room for the payload. -/
structure Unnoticed (w : Network) (f : HeaderFormat) (v : Nexusvm) (h : Host) : Prop where
  header : w.result 0 = .ok
  kind : f.Matches (w.header f)
  room : h.mem.heap.Serves .stateBuffer 16 (w.payloadSize f) 1
  payload : w.result 1 = .ok
  short : (w.data 0 f.codec.size).length < f.codec.size ∨
    (w.data 1 (w.payloadSize f)).length < w.payloadSize f ∨ w.payloadSize f < v.stateSize

theorem Unnoticed.not_complete (hu : w.Unnoticed f v h) : ¬ w.Complete f v := by
  intro hc
  have h₁ := hc.wholeHeader
  have h₂ := hc.wholePayload
  have h₃ := hc.enough
  rcases hu.short with hs | hs | hs <;> omega

theorem complete_of_not_unnoticed (hn : ¬ w.Unnoticed f v h) (header : w.result 0 = .ok)
    (kind : f.Matches (w.header f)) (room : h.mem.heap.Serves .stateBuffer 16 (w.payloadSize f) 1)
    (payload : w.result 1 = .ok) : w.Complete f v := by
  have h₁ := w.length_data_le 0 f.codec.size
  have h₂ := w.length_data_le 1 (w.payloadSize f)
  by_cases hshort : (w.data 0 f.codec.size).length < f.codec.size ∨
    (w.data 1 (w.payloadSize f)).length < w.payloadSize f ∨ w.payloadSize f < v.stateSize
  · exact absurd ⟨header, kind, room, payload, hshort⟩ hn
  · rw [not_or, not_or] at hshort
    exact ⟨header, by omega, kind, payload, by omega, by omega⟩

end Network

/-- The VM is changed by a complete state only: the call returns without reading beyond a buffer, and
after anything else it reports an error and leaves all VMs and vCPUs as they were. -/
def AllOrNothing (w : Network) (f : HeaderFormat) (connection : Option Addr) (a : Addr) (v : Nexusvm)
    (h : Host) : Prop :=
  wp (migrationReceiveVmState w f connection (some a)) (fun r h' => ¬ w.Complete f v →
    r ≠ .ok ∧ h'.vms = h.vms ∧ h'.vcpus = h.vcpus) h

/-! ## Reads -/

theorem deserializeVcpus_run {buffer : List UInt8} {cs : List Addr} {ptr : ℕ}
    (hcs : ∀ c ∈ cs, ∃ u, h.vcpus c = some u) (hptr : ptr ≤ buffer.length) :
    wp (deserializeVcpus buffer ptr cs) (fun _ _ => True) h ↔
      ptr + cs.length * sizeofCpuState ≤ buffer.length := by
  induction cs generalizing h ptr with
  | nil =>
    rw [deserializeVcpus, wp_pure, List.length_nil, Nat.zero_mul]
    exact iff_of_true trivial hptr
  | cons c cs ih =>
    obtain ⟨u, hu⟩ := hcs c List.mem_cons_self
    rw [deserializeVcpus, List.length_cons, Nat.succ_mul]
    simp only [readBuffer, wp_bind, wp_require, wp_pure, wp_getVcpu, wp_putVcpu, hu, Option.some.injEq,
      exists_eq_left']
    have hcs' : ∀ u', ∀ d ∈ cs, ∃ u, (h.setVcpu c (some u')).vcpus d = some u := by
      intro u' d hd
      rw [Host.setVcpu_vcpus]
      by_cases hdc : d = c
      · subst hdc
        exact ⟨u', Function.update_self _ _ _⟩
      · rw [Function.update_of_ne hdc]
        exact hcs d (List.mem_cons_of_mem _ hd)
    constructor
    · rintro ⟨hle, hrest⟩
      have := (ih (hcs' _) hle).mp hrest
      omega
    · intro hle
      have hle' : ptr + sizeofCpuState ≤ buffer.length := by omega
      exact ⟨hle', (ih (hcs' _) hle').mpr (by omega)⟩

/-- **The state of a VM is read just if the buffer holds all of it.** -/
theorem migrationDeserializeVmState_wp (hv : h.vms a = some v) (hvc : HasVcpus h v)
    {buffer : List UInt8} {Q : Result → Host → Prop} (hQ : ∀ h', Q .ok h') :
    wp (migrationDeserializeVmState a buffer) Q h ↔ v.stateSize ≤ buffer.length := by
  rw [migrationDeserializeVmState]
  simp only [readBuffer, wp_bind, wp_require, wp_pure, wp_getVm, wp_putVm, hv, Option.some.injEq,
    exists_eq_left', hQ]
  have hrun : ∀ config, sizeofVmConfig ≤ buffer.length →
      (wp (deserializeVcpus buffer sizeofVmConfig v.vcpus) (fun _ _ => True)
        (h.setVm a (some { v with config := config })) ↔ v.stateSize ≤ buffer.length) := by
    intro config hle
    rw [Nexusvm.stateSize, ← hvc.count]
    exact deserializeVcpus_run (h := h.setVm a _) hvc.vcpus hle
  constructor
  · rintro ⟨hle, hrest⟩
    exact (hrun _ (by omega)).mp hrest
  · intro hle
    have hle' : sizeofVmConfig ≤ buffer.length := by
      unfold Nexusvm.stateSize at hle
      omega
    exact ⟨by omega, (hrun _ hle').mpr hle⟩

theorem migrationDeserializeVmState_ok (buffer : List UInt8) :
    wlp (migrationDeserializeVmState a buffer) (fun r _ => r = .ok) h := by
  simp only [migrationDeserializeVmState, readBuffer, wlp_bind, wlp_require, wlp_getVm, wlp_putVm,
    wlp_pure]
  exact fun _ _ _ _ _ _ => trivial

/-! ## All or nothing -/

/-- **When a state is received whole or not at all.** For all that the network does, all that was in
memory before, every format of the header and every VM with its vCPUs, whether the allocator has room
or not. -/
theorem receive_all_or_nothing_iff (hv : h.vms a = some v) (hvc : HasVcpus h v) (w : Network)
    (f : HeaderFormat) (p : Addr) : AllOrNothing w f (some p) a v h ↔ ¬ w.Unnoticed f v h := by
  unfold AllOrNothing migrationReceiveVmState migrationReceive
  constructor
  · intro hall hu
    have hkind : f.Matches (f.codec.decode (w.memory 0 f.codec.size)) := hu.kind
    simp only [hu.header, ne_eq, not_true_eq_false, if_false, hkind, wp_bind, wp_alignedAlloc_iff]
      at hall
    obtain ⟨b, hb, hfits, -⟩ := hu.room
    have hafter := hall.1 b hb hfits
    simp only [hu.payload, not_true_eq_false, if_false, wp_bind] at hafter
    -- what was read is not looked at again
    obtain ⟨r, h₁, hrun, hq⟩ := hafter
    rw [migrationDeserializeVmState_ok _ r h₁ hrun, wp_freeBuffer_some, wp_pure] at hq
    exact (hq hu.not_complete).1 rfl
  · intro hn
    refine wp_ite (fun hres => ?_) fun hres => ?_
    · rw [wp_pure]
      exact fun _ => ⟨hres, rfl, rfl⟩
    refine wp_ite (fun _ => ?_) fun hkind => ?_
    · rw [wp_pure]
      exact fun _ => ⟨by simp, rfl, rfl⟩
    rw [wp_bind, wp_alignedAlloc_iff]
    refine ⟨fun b hb hfits => ?_, fun _ => ?_⟩
    · refine wp_ite (fun hres' => ?_) fun hres' => ?_
      · rw [wp_bind, wp_freeBuffer_some, wp_pure]
        exact fun _ => ⟨hres', rfl, rfl⟩
      -- both calls are a success and there is room: nothing falls short
      have hc : w.Complete f v := Network.complete_of_not_unnoticed hn (not_not.mp hres)
        (not_not.mp hkind) ⟨b, hb, hfits, trivial⟩ (not_not.mp hres')
      rw [wp_bind]
      refine (migrationDeserializeVmState_wp hv (h := h.grant _) ⟨hvc.count, hvc.vcpus⟩
        fun h' => ?_).mpr ?_
      · rw [wp_bind, wp_freeBuffer_some, wp_pure]
        exact fun hn => absurd hc hn
      · rw [Network.length_memory]
        exact hc.enough
    · rw [wp_pure]
      exact fun _ => ⟨by simp, rfl, rfl⟩

/-- A header of 32 bytes. -/
def alignedFormat : HeaderFormat where
  codec := (Codec.pair (Codec.vec Codec.u32 3) (Codec.pair (Codec.pad 4) (Codec.pair Codec.u64
    (Codec.pair Codec.u32 (Codec.pad 4))))).iso
    (fun (v, _, size, checksum, _) => ⟨v.get 0, v.get 1, v.get 2, size, checksum⟩)
    (fun r => (#v[r.magic, r.version, r.type], (), r.size, r.checksum, ()))
    fun _ => rfl
  magic := 0x4D56584E
  version := 1
  type := 1

/-- A network that delivers a header and the first bytes of a payload, and always reports success. -/
def deliver (size : UInt64) (payload : List UInt8) : Network where
  result _ := .ok
  data n asked := match n with
    | 0 => (alignedFormat.codec.encode ⟨0x4D56584E, 1, 1, size, 0⟩).take asked
    | _ => payload.take asked
  length_data_le n asked := by
    split <;> exact List.length_take_le _ _
  stale _ _ := 0xCC

/-- A state for one vCPU arrives whole. -/
theorem receive_all_or_nothing_iff_whole : ∃ h v,
    (runOps HvOp.run [.create { vcpuCount := 1 }]).run (bootHost 1 .intel) = some ((), h) ∧
      h.vms 16384 = some v ∧
      AllOrNothing (deliver 1048 (List.replicate 1048 0)) alignedFormat (some 8) 16384 v h := by
  have hsome : ((runOps HvOp.run [.create { vcpuCount := 1 }]).run (bootHost 1 .intel)).any
      (fun p => (p.2.vms 16384).any fun v => v.stateSize = 1048) = true := by decide +kernel
  obtain ⟨⟨⟨⟩, h⟩, hrun, hsome⟩ := (Option.any_eq_true _ _).mp hsome
  obtain ⟨v, hv, hsize⟩ := (Option.any_eq_true _ _).mp hsome
  have hi := hvInv_run (boot_bootHost (by decide) .intel) hrun
  refine ⟨h, v, hrun, hv, (receive_all_or_nothing_iff hv (hi.good.layout.hasVcpus trivial hv) _ _ _).mpr ?_⟩
  -- nothing falls short
  intro hu
  refine hu.not_complete ⟨rfl, by decide +kernel, hu.kind, rfl, by decide +kernel, ?_⟩
  rw [of_decide_eq_true hsize]
  decide +kernel

/-- **A state that does not arrive is received.** Of 1048 bytes none arrives; the call returns
`NEXUSVM_OK`, and the configuration is what was in the buffer before. A payload of 8 bytes is read
beyond its end. -/
theorem lost_state_received : ∃ h v h' v',
    (runOps HvOp.run [.create { vcpuCount := 1 }]).run (bootHost 1 .intel) = some ((), h) ∧
      h.vms 16384 = some v ∧
      (migrationReceiveVmState (deliver 1048 []) alignedFormat (some 8) (some 16384)).run h =
        some (.ok, h') ∧
      h'.vms 16384 = some v' ∧ v'.config.id = 0xCCCCCCCC ∧ v.config.id = 0 ∧
      ¬ AllOrNothing (deliver 1048 []) alignedFormat (some 8) 16384 v h ∧
      (migrationReceiveVmState (deliver 8 (List.replicate 8 0)) alignedFormat (some 8)
        (some 16384)).run h = none ∧
      ¬ AllOrNothing (deliver 8 (List.replicate 8 0)) alignedFormat (some 8) 16384 v h := by
  have hres : ((runOps HvOp.run [.create { vcpuCount := 1 }]).run (bootHost 1 .intel)).any
      (fun p => ((p.2.vms 16384).any fun v => v.config.id = 0) &&
        ((migrationReceiveVmState (deliver 1048 []) alignedFormat (some 8) (some 16384)).run p.2).any
          (fun q => q.1 = .ok && (q.2.vms 16384).any fun v => v.config.id = 0xCCCCCCCC) &&
        ((migrationReceiveVmState (deliver 8 (List.replicate 8 0)) alignedFormat (some 8)
          (some 16384)).run p.2).isNone) = true := by
    decide +kernel
  obtain ⟨⟨⟨⟩, h⟩, hrun, hres⟩ := (Option.any_eq_true _ _).mp hres
  simp only [Bool.and_eq_true, Option.any_eq_true, decide_eq_true_eq, Option.isNone_iff_eq_none]
    at hres
  obtain ⟨⟨⟨v, hv, hid⟩, ⟨r, h'⟩, hreceive, rfl, v', hv', hid'⟩, hbeyond⟩ := hres
  refine ⟨h, v, h', v', hrun, hv, hreceive, hv', hid', hid, fun hall => ?_, hbeyond, fun hall => ?_⟩
  · have hc : ¬ (deliver 1048 []).Complete alignedFormat v := fun hc => by
      have hwhole := hc.wholePayload
      revert hwhole
      decide +kernel
    exact (wp_run hall hreceive hc).1 rfl
  · exact hall.run_ne_none hbeyond

end NexusVM
