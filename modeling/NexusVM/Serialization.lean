import NexusVM.CheckpointImage
import NexusVM.Migration
import NexusVM.MigrationReceive

/-!
# The state of a VM as a buffer

`migration_serialize_vm_state` and `migration_send_vm_state` with the bytes: what was in the memory that
`malloc` hands out is a parameter, and each `memcpy` stays below the size of the buffer.

* `serializeVcpus`, `migrationSerializeVmStateBytes`, `migrationSendVmStateBytes`: the functions;
* `serializedBytes`: the configuration, the states of the vCPUs, and behind them what was there before;
* `migrationSerializeVmStateBytes_run`, `migrationSerializeVmStateBytes_forget`: the buffer holds them,
  and without the bytes the function is the one of the source side;
* `Loads`, `TakesState`, **`serialized_state_returns`**: the way back;
* `SendsOnlyState`, **`sends_only_state_iff`**: when all that is sent is the state of the VM.
-/

namespace NexusVM

open Prog

variable {h h' : Host} {a b p : Addr} {v w : Nexusvm} {f : HeaderFormat} {prior : ℕ → UInt8}

/-! ## Functions -/

/-- `memcpy` into a buffer. -/
def writeBuffer (buffer : List UInt8) (offset : ℕ) (bytes : List UInt8) : HostM (List UInt8) := do
  Prog.require (offset + bytes.length ≤ buffer.length)
  return buffer.take offset ++ bytes ++ buffer.drop (offset + bytes.length)

/-- The loop of `migration_serialize_vm_state`. -/
def serializeVcpus : ℕ → List Addr → List UInt8 → HostM (List UInt8)
  | _, [], buffer => return buffer
  | ptr, c :: cs, buffer => do
    let buffer ← writeBuffer buffer ptr (cpuStateCodec.encode (← getVcpu c).cpuState)
    serializeVcpus (ptr + sizeofCpuState) cs buffer

/-- `state_size` -/
def Nexusvm.serializedSize (v : Nexusvm) : ℕ :=
  sizeofVmConfig + sizeofCpuState * v.vcpuCount.toNat + sizeofSchedEntity * v.vcpuCount.toNat

/-- `migration_serialize_vm_state`: the buffer, its size and its bytes, or an error. -/
def migrationSerializeVmStateBytes (prior : ℕ → UInt8) (vm : Addr) :
    HostM (Except Result (Addr × UInt64 × List UInt8)) := do
  let v ← getVm vm
  let stateSize := v.serializedSize
  match ← onMem (alignedAlloc .stateBuffer 16 stateSize) with
  | none => return .error .errNoMemory
  | some buffer =>
    let bytes ← writeBuffer ((List.range stateSize).map prior) 0 (vmConfigCodec.encode v.config)
    let bytes ← serializeVcpus sizeofVmConfig v.vcpus bytes
    return .ok (buffer, UInt64.ofNat stateSize, bytes)

/-- `migration_send_vm_state`, with what is sent: the header, then the whole buffer. -/
def migrationSendVmStateBytes (f : HeaderFormat) (prior : ℕ → UInt8) (connection vm : Option Addr) :
    HostM (Result × List (List UInt8)) := do
  match connection, vm with
  | some _, some a =>
    match ← migrationSerializeVmStateBytes prior a with
    | .error result => return (result, [])
    | .ok (buffer, size, bytes) =>
      let header := f.codec.encode ⟨f.magic, f.version, f.type, size, 0⟩
      let result := migrationSend size
      freeBuffer .stateBuffer (some buffer)
      return (result, [header, bytes])
  | _, _ => return (.errInvalidParam, [])

/-! ## The buffer -/

/-- What the buffer holds in the end. -/
def serializedBytes (h : Host) (v : Nexusvm) (prior : ℕ → UInt8) : List UInt8 :=
  stateImage h v ++ ((List.range v.serializedSize).map prior).drop v.stateSize

theorem HasVcpus.length_stateImage (hvc : HasVcpus h v) : (stateImage h v).length = v.stateSize := by
  rw [NexusVM.length_stateImage, hvc.count]
  rfl

theorem serializedSize_eq (v : Nexusvm) :
    v.serializedSize = v.stateSize + v.vcpuCount.toNat * sizeofSchedEntity := by
  rw [Nexusvm.serializedSize, Nexusvm.stateSize, Nat.mul_comm sizeofCpuState,
    Nat.mul_comm sizeofSchedEntity]

theorem serializedSize_lt (v : Nexusvm) : v.serializedSize < 2 ^ 64 := by
  have hcount := v.vcpuCount.toNat_lt
  simp only [Nexusvm.serializedSize, sizeofVmConfig, sizeofCpuState, sizeofSchedEntity]
  omega

theorem length_serializedBytes (hvc : HasVcpus h v) (prior : ℕ → UInt8) :
    (serializedBytes h v prior).length = v.serializedSize := by
  rw [serializedBytes, List.length_append, hvc.length_stateImage, List.length_drop, List.length_map,
    List.length_range, serializedSize_eq]
  omega

theorem wp_writeBuffer (front back bytes : List UInt8) {Q : List UInt8 → Host → Prop} :
    wp (writeBuffer (front ++ back) front.length bytes) Q h ↔
      bytes.length ≤ back.length ∧ Q (front ++ bytes ++ back.drop bytes.length) h := by
  rw [writeBuffer, wp_bind, wp_require, wp_pure, List.length_append, Nat.add_le_add_iff_left,
    List.take_left, List.drop_length_add_append]

theorem serializeVcpus_spec {cs : List Addr} {front back : List UInt8} {ptr : ℕ}
    (hptr : front.length = ptr) (hcs : ∀ c ∈ cs, ∃ u, h.vcpus c = some u)
    (hle : cs.length * sizeofCpuState ≤ back.length) :
    wp (serializeVcpus ptr cs (front ++ back)) (fun bytes h' => h' = h ∧
      bytes = front ++ cpuStateCodec.encodeList (h.cpuStates cs) ++
        back.drop (cs.length * sizeofCpuState)) h := by
  induction cs generalizing ptr front back with
  | nil =>
    rw [serializeVcpus, wp_pure, List.length_nil, Nat.zero_mul, List.drop_zero]
    exact ⟨rfl, by rw [Host.cpuStates, List.map_nil, Codec.encodeList_nil, List.append_nil]⟩
  | cons c cs ih =>
    obtain ⟨u, hu⟩ := hcs c List.mem_cons_self
    have hlen : (cpuStateCodec.encode u.cpuState).length = sizeofCpuState :=
      cpuStateCodec.length_encode _
    have hfront : (front ++ cpuStateCodec.encode u.cpuState).length = ptr + sizeofCpuState := by
      rw [List.length_append, hlen, hptr]
    rw [List.length_cons, Nat.succ_mul] at hle
    subst hptr
    rw [serializeVcpus, wp_bind, wp_getVcpu]
    refine ⟨u, hu, ?_⟩
    rw [wp_bind, wp_writeBuffer, hlen]
    refine ⟨by omega, wp_mono (ih hfront (fun d hd => hcs d (List.mem_cons_of_mem _ hd)) ?_) ?_⟩
    · rw [List.length_drop]
      omega
    · rintro bytes h' ⟨rfl, rfl⟩
      refine ⟨rfl, ?_⟩
      rw [cpuStates_cons hu, Codec.encodeList_cons, List.drop_drop, List.length_cons, Nat.succ_mul,
        Nat.add_comm sizeofCpuState, List.append_assoc front]

/-- The request for the buffer. -/
def allocState (v : Nexusvm) : HostM (Option Addr) :=
  onMem (alignedAlloc .stateBuffer 16 v.serializedSize)

theorem allocState_run (h : Host) (v : Nexusvm) : ∃ buffer h', (allocState v).run h = some (buffer, h') ∧
    h'.vms = h.vms ∧ h'.vcpus = h.vcpus ∧
    (buffer.isSome ↔ h.mem.heap.Serves .stateBuffer 16 v.serializedSize 1) := by
  refine wp_alignedAlloc_iff.mpr ⟨fun b hb hfits => ⟨rfl, rfl, ?_⟩, fun hno => ⟨rfl, rfl, ?_⟩⟩
  · exact iff_of_true rfl ⟨b, hb, hfits, trivial⟩
  · exact iff_of_false Bool.false_ne_true hno

/-- What the function returns for the buffer that it gets. -/
def serializedResult (h : Host) (v : Nexusvm) (prior : ℕ → UInt8) (buffer : Option Addr) :
    Except Result (Addr × UInt64 × List UInt8) :=
  buffer.elim (.error .errNoMemory) fun buffer =>
    .ok (buffer, UInt64.ofNat v.serializedSize, serializedBytes h v prior)

/-- **The buffer holds the state of the VM, and behind it what was there before.** -/
theorem migrationSerializeVmStateBytes_run (hv : h.vms a = some v) (hvc : HasVcpus h v)
    {buffer : Option Addr} (halloc : (allocState v).run h = some (buffer, h'))
    (hvcpus : h'.vcpus = h.vcpus) : (migrationSerializeVmStateBytes prior a).run h =
      some (serializedResult h v prior buffer, h') := by
  refine wp_eq_iff.mp ?_
  rw [migrationSerializeVmStateBytes, wp_bind, wp_getVm]
  refine ⟨v, hv, ?_⟩
  rw [wp_bind]
  refine wp_of_run halloc ?_
  cases buffer with
  | none =>
    rw [wp_pure]
    exact ⟨rfl, rfl⟩
  | some buffer =>
    have hlen : ((List.range v.serializedSize).map prior).length = v.serializedSize := by
      rw [List.length_map, List.length_range]
    have hconfig : (vmConfigCodec.encode v.config).length = sizeofVmConfig :=
      vmConfigCodec.length_encode _
    have hsize := serializedSize_eq v
    rw [wp_bind]
    refine (wp_writeBuffer [] _ _).mpr ⟨?_, ?_⟩
    · rw [hlen, hconfig, hsize, Nexusvm.stateSize]
      omega
    rw [List.nil_append, wp_bind, hconfig]
    refine wp_mono (serializeVcpus_spec hconfig
      (fun c hc => hvcpus ▸ hvc.vcpus c hc) ?_) ?_
    · rw [List.length_drop, hlen, hvc.count, hsize, Nexusvm.stateSize]
      omega
    · rintro bytes t ⟨rfl, rfl⟩
      rw [wp_pure, List.drop_drop, hvc.count]
      refine ⟨?_, rfl⟩
      rw [serializedResult, Option.elim_some, serializedBytes, stateImage, Nexusvm.stateSize,
        Host.cpuStates, Host.cpuStates, hvcpus]

theorem migrationSerializeVmState_run (hv : h.vms a = some v) (hvc : HasVcpus h v)
    {buffer : Option Addr} (halloc : (allocState v).run h = some (buffer, h'))
    (hvcpus : h'.vcpus = h.vcpus) : (migrationSerializeVmState a).run h =
      some ((serializedResult h v prior buffer).map fun s => (s.1, s.2.1), h') := by
  refine wp_eq_iff.mp ?_
  rw [migrationSerializeVmState, wp_bind, wp_getVm]
  refine ⟨v, hv, ?_⟩
  rw [wp_bind]
  refine wp_of_run halloc ?_
  cases buffer with
  | none =>
    rw [wp_pure]
    exact ⟨rfl, rfl⟩
  | some buffer =>
    rw [wp_bind]
    refine wp_mono (wp_forEach _ (fun _ t => t = h') v.vcpus ?_ rfl) ?_
    · rintro pre c post t hsplit rfl
      obtain ⟨u, hu⟩ := hvc.vcpus c (by rw [hsplit]; simp)
      rw [wp_discard, wp_getVcpu, hvcpus]
      exact ⟨u, hu, rfl⟩
    · rintro _ t rfl
      rw [wp_pure]
      exact ⟨rfl, rfl⟩

theorem migrationSerializeVmStateBytes_forget (hv : h.vms a = some v) (hvc : HasVcpus h v)
    (prior : ℕ → UInt8) : ((migrationSerializeVmStateBytes prior a).run h).map
        (fun t => (t.1.map fun s => (s.1, s.2.1), t.2)) = (migrationSerializeVmState a).run h := by
  obtain ⟨buffer, h', halloc, -, hvcpus, -⟩ := allocState_run h v
  rw [migrationSerializeVmStateBytes_run hv hvc halloc hvcpus,
    migrationSerializeVmState_run hv hvc halloc hvcpus, Option.map_some]

/-! ## The way back -/

/-- Of a host only these vCPUs have changed, and of each only its state. -/
structure Loads (cs : List Addr) (states : List CpuState) (h h' : Host) : Prop where
  rest : h' = { h with vcpus := h'.vcpus }
  state : ∀ (i : ℕ) (c : Addr) (u : Nexusvcpu) (s : CpuState), cs[i]? = some c → states[i]? = some s →
    h.vcpus c = some u → h'.vcpus c = some { u with cpuState := s }
  others : ∀ c ∉ cs, h'.vcpus c = h.vcpus c

theorem wp_readBuffer (front bytes back : List UInt8) {Q : List UInt8 → Host → Prop} :
    wp (readBuffer (front ++ bytes ++ back) front.length bytes.length) Q h ↔ Q bytes h := by
  rw [readBuffer, wp_bind, wp_require, wp_pure, List.length_append, List.length_append,
    List.append_assoc, List.drop_left, List.take_left]
  exact and_iff_right (Nat.le_add_right _ _)

theorem deserializeVcpus_spec {cs : List Addr} {states : List CpuState} {front back : List UInt8}
    {ptr : ℕ} (hptr : front.length = ptr) (hcs : ∀ c ∈ cs, ∃ u, h.vcpus c = some u) (hnd : cs.Nodup)
    (hlen : states.length = cs.length) :
    wp (deserializeVcpus (front ++ (cpuStateCodec.encodeList states ++ back)) ptr cs)
      (fun _ h' => Loads cs states h h') h := by
  induction cs generalizing h states front ptr with
  | nil =>
    rw [deserializeVcpus, wp_pure]
    exact ⟨rfl, by simp, fun _ _ => rfl⟩
  | cons c cs ih =>
    obtain ⟨s, states, rfl⟩ := List.exists_cons_of_length_eq_add_one hlen
    obtain ⟨hc, hnd⟩ := List.nodup_cons.mp hnd
    obtain ⟨u, hu⟩ := hcs c List.mem_cons_self
    have hsize : (cpuStateCodec.encode s).length = sizeofCpuState := cpuStateCodec.length_encode _
    have hfront : (front ++ cpuStateCodec.encode s).length = ptr + sizeofCpuState := by
      rw [List.length_append, hsize, hptr]
    have hcs' : ∀ d ∈ cs, ∃ u', (h.setVcpu c (some { u with cpuState := s })).vcpus d = some u' := by
      intro d hd
      rw [Host.setVcpu_vcpus, Function.update_of_ne (ne_of_mem_of_not_mem hd hc)]
      exact hcs d (List.mem_cons_of_mem _ hd)
    rw [deserializeVcpus, Codec.encodeList_cons, List.append_assoc, ← List.append_assoc front,
      wp_bind, ← hptr, ← hsize, wp_readBuffer, Codec.decode_encode_self, wp_bind, wp_getVcpu]
    refine ⟨u, hu, ?_⟩
    rw [wp_bind, wp_putVcpu, hsize, hptr]
    refine wp_mono (ih hfront hcs' hnd (by simpa using hlen)) ?_
    rintro _ h' ⟨hrest, hstate, hothers⟩
    refine ⟨hrest, ?_, ?_⟩
    · intro i d u' s' hd hs' hu'
      cases i with
      | zero =>
        cases hd
        cases hs'
        rw [hu] at hu'
        cases hu'
        rw [hothers c hc, Host.setVcpu_vcpus, Function.update_self]
      | succ i =>
        have hmem : d ∈ cs := List.mem_of_getElem? hd
        refine hstate i d u' s' hd hs' ?_
        rw [Host.setVcpu_vcpus, Function.update_of_ne (ne_of_mem_of_not_mem hmem hc)]
        exact hu'
    · intro d hd
      obtain ⟨hne, hd⟩ := not_or.mp (mt List.mem_cons.mpr hd)
      rw [hothers d hd, Host.setVcpu_vcpus, Function.update_of_ne hne]

/-- The VM `w` at `b` has got the configuration of `v` and the states of its vCPUs, each from the one
with its index, and nothing else of it or of its host has changed. -/
structure TakesState (h : Host) (v : Nexusvm) (b : Addr) (w : Nexusvm) (h' h'' : Host) : Prop where
  vms : h''.vms = Function.update h'.vms b (some { w with config := v.config })
  state : ∀ (i : ℕ) (c d : Addr) (u u' : Nexusvcpu), v.vcpus[i]? = some c → w.vcpus[i]? = some d →
    h.vcpus c = some u → h'.vcpus d = some u' → h''.vcpus d = some { u' with cpuState := u.cpuState }
  others : ∀ d ∉ w.vcpus, h''.vcpus d = h'.vcpus d
  rest : h'' = { h' with vms := h''.vms, vcpus := h''.vcpus }

theorem migrationDeserializeVmState_takes (hvc : HasVcpus h v) (hw : h'.vms b = some w)
    (hwc : HasVcpus h' w) (hnd : w.vcpus.Nodup) (hcount : w.vcpuCount = v.vcpuCount)
    (back : List UInt8) : wp (migrationDeserializeVmState b (stateImage h v ++ back))
      (fun result h'' => result = .ok ∧ TakesState h v b w h' h'') h' := by
  have hconfig : (vmConfigCodec.encode v.config).length = sizeofVmConfig :=
    vmConfigCodec.length_encode _
  have hlen : (h.cpuStates v.vcpus).length = w.vcpus.length := by
    rw [Host.cpuStates, List.length_map, hvc.count, hwc.count, hcount]
  have hread := fun Q => wp_readBuffer (h := h') (Q := Q) [] (vmConfigCodec.encode v.config)
    (cpuStateCodec.encodeList (h.cpuStates v.vcpus) ++ back)
  rw [List.nil_append, List.length_nil, hconfig] at hread
  rw [migrationDeserializeVmState, stateImage, List.append_assoc, wp_bind, hread, wp_bind, wp_getVm]
  refine ⟨w, hw, ?_⟩
  rw [Codec.decode_encode_self, wp_bind, wp_putVm, wp_bind]
  refine wp_mono (deserializeVcpus_spec hconfig hwc.vcpus hnd hlen) ?_
  rintro _ h'' ⟨hrest, hstate, hothers⟩
  rw [wp_pure]
  refine ⟨rfl, by rw [hrest]; rfl, ?_, hothers, by rw [hrest]; rfl⟩
  intro i c d u u' hc hd hu hu'
  refine hstate i d u' u.cpuState hd ?_ hu'
  rw [Host.cpuStates, List.getElem?_map, hc, Option.map_some, hu, Option.map_some, Option.getD_some]

/-- **The state of a VM survives its transfer.** For every VM, every target with as many vCPUs, each an
object of its own, on the same host or another, and all that was in memory before. Neither function
touches a byte beyond the `size` bytes of the buffer. -/
theorem serialized_state_returns (hv : h.vms a = some v) (hvc : HasVcpus h v)
    (hw : h'.vms b = some w) (hwc : HasVcpus h' w) (hnd : w.vcpus.Nodup)
    (hcount : w.vcpuCount = v.vcpuCount) (prior : ℕ → UInt8) :
    wp (migrationSerializeVmStateBytes prior a) (fun r h₁ => h₁.vms = h.vms ∧ h₁.vcpus = h.vcpus ∧
      ∀ buffer size bytes, r = .ok (buffer, size, bytes) → bytes.length = size.toNat ∧
        wp (migrationDeserializeVmState b bytes)
          (fun result h'' => result = .ok ∧ TakesState h v b w h' h'') h') h := by
  obtain ⟨buffer, h₁, halloc, hvms, hvcpus, -⟩ := allocState_run h v
  refine wp_of_run (migrationSerializeVmStateBytes_run hv hvc halloc hvcpus) ⟨hvms, hvcpus, ?_⟩
  intro buffer' size bytes hr
  cases buffer with
  | none => cases hr
  | some buffer =>
    cases hr
    refine ⟨?_, migrationDeserializeVmState_takes hvc hw hwc hnd hcount _⟩
    rw [length_serializedBytes hvc, UInt64.toNat_ofNat_of_lt' (serializedSize_lt v)]

/-- Between two hosts: the target has two vCPUs too. -/
theorem serialized_state_returns_two : ∃ h v h' w,
    (runOps HvOp.run [.create { vcpuCount := 2, memorySize := 4096 }]).run (bootHost 1 .intel) =
      some ((), h) ∧
    (runOps HvOp.run [.create { vcpuCount := 2 }]).run (bootHost 2 .amd) = some ((), h') ∧
    h.vms 16384 = some v ∧ h'.vms 16384 = some w ∧
    ∃ buffer size bytes h₁, (migrationSerializeVmStateBytes (fun _ => 0xCC) 16384).run h =
        some (.ok (buffer, size, bytes), h₁) ∧ bytes.length = size.toNat ∧
      wp (migrationDeserializeVmState 16384 bytes)
        (fun result h'' => result = .ok ∧ TakesState h v 16384 w h' h'') h' := by
  have hsome : ((runOps HvOp.run [.create { vcpuCount := 2, memorySize := 4096 }]).run
      (bootHost 1 .intel)).any (fun t => ((t.2.vms 16384).any fun v => v.vcpuCount = 2) &&
        ((migrationSerializeVmStateBytes (fun _ => 0xCC) 16384).run t.2).any fun r => r.1.toBool) = true := by
    decide +kernel
  have hsome' : ((runOps HvOp.run [.create { vcpuCount := 2 }]).run (bootHost 2 .amd)).any
      (fun t => (t.2.vms 16384).any fun v => v.vcpuCount = 2) = true := by
    decide +kernel
  obtain ⟨⟨⟨⟩, h⟩, hrun, hany⟩ := (Option.any_eq_true _ _).mp hsome
  obtain ⟨⟨⟨⟩, h'⟩, hrun', hany'⟩ := (Option.any_eq_true _ _).mp hsome'
  rw [Bool.and_eq_true, Option.any_eq_true, Option.any_eq_true] at hany
  obtain ⟨⟨v, hv, hcount⟩, ⟨r, h₁⟩, hserialize, hok⟩ := hany
  obtain ⟨w, hw, hcount'⟩ := (Option.any_eq_true _ _).mp hany'
  have hl := (hvInv_run (boot_bootHost (by decide) .intel) hrun).good.layout
  have hl' := (hvInv_run (boot_bootHost (by decide) .amd) hrun').good.layout
  cases r with
  | error e => cases hok
  | ok r =>
    obtain ⟨-, -, hreturns⟩ := wp_run (serialized_state_returns hv (hl.hasVcpus trivial hv) hw
      (hl'.hasVcpus trivial hw) (hl'.nodup _ w trivial hw)
      ((of_decide_eq_true hcount').trans (of_decide_eq_true hcount).symm) _) hserialize
    obtain ⟨hlength, htakes⟩ := hreturns r.1 r.2.1 r.2.2 rfl
    exact ⟨h, v, h', w, hrun, hrun', hv, hw, r.1, r.2.1, r.2.2, h₁, hserialize, hlength, htakes⟩

/-! ## What is sent -/

/-- Whatever was in the memory that `malloc` hands out, the same bytes are in the buffer, and the same
are sent. -/
def SendsOnlyState (f : HeaderFormat) (p a : Addr) (h : Host) : Prop :=
  ∀ prior prior' : ℕ → UInt8,
    (migrationSerializeVmStateBytes prior a).run h = (migrationSerializeVmStateBytes prior' a).run h ∧
    (migrationSendVmStateBytes f prior (some p) (some a)).run h =
      (migrationSendVmStateBytes f prior' (some p) (some a)).run h

/-- The room for the scheduling entities is never filled. -/
theorem serializedBytes_behind (hvc : HasVcpus h v) (prior : ℕ → UInt8) {i : ℕ} (hi : v.stateSize ≤ i)
    (hlt : i < v.serializedSize) : (serializedBytes h v prior)[i]? = some (prior i) := by
  rw [serializedBytes, List.getElem?_append_right (by rwa [hvc.length_stateImage]),
    hvc.length_stateImage, List.getElem?_drop, Nat.add_sub_of_le hi, List.getElem?_map,
    List.getElem?_range hlt, Option.map_some]

theorem serializedBytes_of_no_vcpus (hn : v.vcpuCount = 0) : serializedBytes h v prior = stateImage h v := by
  rw [serializedBytes, List.drop_eq_nil_of_le, List.append_nil]
  rw [List.length_map, List.length_range, serializedSize_eq, hn, UInt32.toNat_zero, Nat.zero_mul,
    Nat.add_zero]

theorem sendsOnlyState_of_run {buffer : Option Addr} (hrun : ∀ prior,
    (migrationSerializeVmStateBytes prior a).run h = some (serializedResult h v prior buffer, h'))
    (heq : ∀ prior prior', serializedResult h v prior buffer = serializedResult h v prior' buffer) :
    SendsOnlyState f p a h := by
  intro prior prior'
  refine ⟨by rw [hrun, hrun, heq prior prior'], ?_⟩
  rw [migrationSendVmStateBytes, migrationSendVmStateBytes, run_bind (hrun prior),
    run_bind (hrun prior'), heq prior prior']

/-- A VM with a vCPU leaks. -/
theorem not_sendsOnlyState (hv : h.vms a = some v) (hvc : HasVcpus h v) (hn : v.vcpuCount ≠ 0)
    (hroom : h.mem.heap.Serves .stateBuffer 16 v.serializedSize 1) : ¬ SendsOnlyState f p a h := by
  intro hall
  obtain ⟨buffer, h₁, halloc, -, hvcpus, hserved⟩ := allocState_run h v
  obtain ⟨buffer, rfl⟩ := Option.isSome_iff_exists.mp (hserved.mpr hroom)
  have hpos : 0 < v.vcpuCount.toNat := UInt32.lt_iff_toNat_lt.mp (UInt32.pos_iff_ne_zero.mpr hn)
  have hlt : v.stateSize < v.serializedSize := by
    rw [serializedSize_eq]
    exact Nat.lt_add_of_pos_right (Nat.mul_pos hpos (by decide))
  have hruns := (hall (fun _ => 0) (fun _ => 1)).1
  rw [migrationSerializeVmStateBytes_run hv hvc halloc hvcpus,
    migrationSerializeVmStateBytes_run hv hvc halloc hvcpus] at hruns
  have hbytes : serializedBytes h v (fun _ => 0) = serializedBytes h v (fun _ => 1) := by
    simpa [serializedResult] using hruns
  have hbyte := serializedBytes_behind hvc (fun _ => 0) le_rfl hlt
  rw [hbytes, serializedBytes_behind hvc _ le_rfl hlt] at hbyte
  cases hbyte

/-- **When only the state of a VM is sent.** For every VM with its vCPUs and every format of the header:
just if there are no vCPUs, or no memory for the buffer, and then nothing is sent. -/
theorem sends_only_state_iff (hv : h.vms a = some v) (hvc : HasVcpus h v) (f : HeaderFormat) (p : Addr) :
    SendsOnlyState f p a h ↔
      v.vcpuCount = 0 ∨ ¬ h.mem.heap.Serves .stateBuffer 16 v.serializedSize 1 := by
  constructor
  · intro hall
    by_contra hn
    rw [not_or, not_not] at hn
    exact not_sendsOnlyState hv hvc hn.1 hn.2 hall
  · intro hor
    obtain ⟨buffer, h₁, halloc, -, hvcpus, hserved⟩ := allocState_run h v
    refine sendsOnlyState_of_run
      (fun prior => migrationSerializeVmStateBytes_run hv hvc halloc hvcpus) fun prior prior' => ?_
    rcases hor with hn | hroom
    · rw [serializedResult, serializedResult, serializedBytes_of_no_vcpus hn,
        serializedBytes_of_no_vcpus hn]
    · rw [Option.not_isSome_iff_eq_none.mp (mt hserved.mp hroom)]
      rfl

/-- A VM without vCPUs. -/
theorem sends_only_state_iff_none : ∃ h v,
    (runOps HvOp.run [.create { vcpuCount := 0 }]).run (bootHost 1 .intel) = some ((), h) ∧
      h.vms 16384 = some v ∧ SendsOnlyState alignedFormat 8 16384 h := by
  have hsome : ((runOps HvOp.run [.create { vcpuCount := 0 }]).run (bootHost 1 .intel)).any
      (fun t => (t.2.vms 16384).any fun v => v.vcpuCount = 0) = true := by decide +kernel
  obtain ⟨⟨⟨⟩, h⟩, hrun, hsome⟩ := (Option.any_eq_true _ _).mp hsome
  obtain ⟨v, hv, hnone⟩ := (Option.any_eq_true _ _).mp hsome
  have hl := (hvInv_run (boot_bootHost (by decide) .intel) hrun).good.layout
  exact ⟨h, v, hrun, hv, (sends_only_state_iff hv (hl.hasVcpus trivial hv) _ _).mpr
    (.inl (of_decide_eq_true hnone))⟩

/-- **Old contents of the heap are sent.** -/
theorem heap_contents_sent : ∃ h v,
    (runOps HvOp.run [.create { vcpuCount := 1 }]).run (bootHost 1 .intel) = some ((), h) ∧
      h.vms 16384 = some v ∧ ¬ SendsOnlyState alignedFormat 8 16384 h := by
  have hsome : ((runOps HvOp.run [.create { vcpuCount := 1 }]).run (bootHost 1 .intel)).any
      (fun t => (t.2.vms 16384).any fun v => v.vcpuCount ≠ 0 &&
        t.2.mem.heap.Serves .stateBuffer 16 v.serializedSize 1) = true := by decide +kernel
  obtain ⟨⟨⟨⟩, h⟩, hrun, hany⟩ := (Option.any_eq_true _ _).mp hsome
  obtain ⟨v, hv, hleak⟩ := (Option.any_eq_true _ _).mp hany
  rw [Bool.and_eq_true, decide_eq_true_eq, decide_eq_true_eq] at hleak
  have hl := (hvInv_run (boot_bootHost (by decide) .intel) hrun).good.layout
  exact ⟨h, v, hrun, hv, not_sendsOnlyState hv (hl.hasVcpus trivial hv) hleak.1 hleak.2⟩

end NexusVM
