import NexusVM.Detection
import NexusVM.Registry

/-!
# Placement of vCPUs

A vCPU is placed on a processor by its id modulo the number of processors.

* `CpuOp`, `BadArguments`, `DividesByZero`: the calls that place vCPUs, and those that go wrong;
* `createRequests`, `PlacesVcpu`: the requests of a creation up to its first vCPU, and the calls
  that are given one;
* `vmPrepare_requests`, `vmCreate_noCpus`: creations where no processor is known;
* `cpuOp_idle`, **`placement_divides_iff`**: after `hypervisor_init`, a call divides by zero just if it is given a
  vCPU.
-/

namespace NexusVM

open Prog

variable {h h' : Host} {vm : Addr} {config : VmConfig}

/-! ## Calls -/

/-- A call that may place a vCPU. -/
inductive CpuOp
  | vmCreate (config : Option VmConfig)
  | vcpuCreate (vm : Addr) (vcpuId : UInt32)
  | vcpuStart (vcpu : Option Addr)
  | vcpuStop (vcpu : Option Addr)
  | addVcpu (vcpu : Option Addr)
  | removeVcpu (vcpu : Option Addr)
  | yield (vcpu : Option Addr)
  | wake (vcpu : Option Addr)

def CpuOp.run : CpuOp → HostM Unit
  | .vmCreate config => discard (NexusVM.vmCreate config)
  | .vcpuCreate vm vcpuId => discard (NexusVM.vcpuCreate vm vcpuId)
  | .vcpuStart vcpu => discard (NexusVM.vcpuStart vcpu)
  | .vcpuStop vcpu => discard (NexusVM.vcpuStop vcpu)
  | .addVcpu vcpu => discard (schedulerAddVcpu vcpu)
  | .removeVcpu vcpu => discard (schedulerRemoveVcpu vcpu)
  | .yield vcpu => schedulerYield vcpu
  | .wake vcpu => schedulerWake vcpu

/-- The vCPU that a call is about. -/
def CpuOp.vcpu : CpuOp → Option Addr
  | .vmCreate _ | .vcpuCreate _ _ => none
  | .vcpuStart vcpu | .vcpuStop vcpu | .addVcpu vcpu | .removeVcpu vcpu | .yield vcpu
  | .wake vcpu => vcpu

/-- The name of a new VM fits into its record. -/
def NameFits (config : VmConfig) : Prop :=
  strncpy (List.replicate 64 0) config.name.toList 63 ≠ none

instance (config : VmConfig) : Decidable (NameFits config) := by unfold NameFits; infer_instance

/-- The arguments alone make the call undefined: the name of a new VM does not fit, or there is no
vCPU at the pointer. -/
def BadArguments (op : CpuOp) (h : Host) : Prop :=
  match op with
  | .vmCreate (some config) => ¬ NameFits config
  | op => ∃ c ∈ op.vcpu, h.vcpus c = none

/-- **A call divides by zero**: it is undefined, and not for its arguments. -/
def DividesByZero (op : CpuOp) (h : Host) : Prop := op.run.run h = none ∧ ¬ BadArguments op h

/-! ## Requests -/

/-- What `vm_create` asks the allocator for between the record of the VM and its vCPUs. -/
def prepareRequests (config : VmConfig) : List (BlockKind × ℕ × ℕ) :=
  (if config.memoryRegionCount > 0 then
    [(.regions, 16, config.memoryRegionCount.toNat * sizeofMemoryRegion)] else []) ++
  [(.pages, PAGE_SIZE.toNat, (1 * PAGE_SIZE).toNat), (.eptp, 16, 1 * sizeofEptp),
    (.vcpus, 16, config.vcpuCount.toNat * sizeofPointer)]

/-- The request for a vCPU. -/
def vcpuRequest : BlockKind × ℕ × ℕ := (.vcpu, 16, 1 * sizeofNexusvcpu)

/-- What `vm_create` asks for up to its first vCPU. -/
def createRequests (config : VmConfig) : List (BlockKind × ℕ × ℕ) :=
  (.vm, 16, 1 * sizeofNexusvm) :: (prepareRequests config ++ [vcpuRequest])

/-- The call is given the memory of a vCPU. -/
def PlacesVcpu (op : CpuOp) (h : Host) : Prop :=
  match op with
  | .vmCreate (some config) => config.vcpuCount ≠ 0 ∧ NameFits config ∧
      h.mem.heap.ServesAll (createRequests config)
  | .vcpuCreate _ _ => h.mem.heap.ServesAll [vcpuRequest]
  | _ => False

/-- The request is served just if the whole of `rs` is once it has been. -/
def Requests (rs : List (BlockKind × ℕ × ℕ)) (h : Host) (ok : Prop) (h' : Host) : Prop :=
  ∀ rest, h.mem.heap.ServesAll (rs ++ rest) ↔ ok ∧ h'.mem.heap.ServesAll rest

theorem wp_requests_bind {α β : Type} {x : HostM α} {f : α → HostM β} (rs : List _) {rs' : List _}
    (ok : α → Prop) {ok' : β → Prop} (hx : wp x (fun a h₁ => Requests rs h (ok a) h₁ ∧
      (ok a → wp (f a) (fun b h₂ => Requests rs' h₁ (ok' b) h₂) h₁) ∧
      (¬ ok a → wp (f a) (fun b _ => ¬ ok' b) h₁)) h) :
    wp (x >>= f) (fun b h₂ => Requests (rs ++ rs') h (ok' b) h₂) h := by
  rw [wp_bind]
  refine wp_mono hx ?_
  rintro a h₁ ⟨hreq, hgo, hstop⟩
  by_cases ha : ok a
  · refine wp_mono (hgo ha) fun b h₂ hreq' rest => ?_
    rw [List.append_assoc, hreq, hreq' rest]
    exact and_iff_right ha
  · refine wp_mono (hstop ha) fun b h₂ hb rest => ?_
    rw [List.append_assoc, hreq]
    simp [ha, hb]

theorem calloc_requests (kind : BlockKind) (count size : ℕ) : wp (calloc kind count size)
    (fun o h' => h'.vms = h.vms ∧ Requests [(kind, 16, count * size)] h (o ≠ none) h') h := by
  refine wp_alignedAlloc_first (fun a hf hs => ?_) fun hn => ?_
  · exact ⟨rfl, fun rest => by simpa using hs rest⟩
  · exact ⟨rfl, fun rest => by simpa using hn rest⟩

theorem eptAllocRoot_requests : wp (onMem eptAllocRoot) (fun o h' => h'.vms = h.vms ∧
    Requests [(.pages, PAGE_SIZE.toNat, (1 * PAGE_SIZE).toNat)] h (o ≠ none) h') h := by
  rw [wp_onMem, eptAllocRoot, wp_bind, eptAllocPages, wp_bind, alignedAlloc, onHeap, wp_zoom]
  refine Heap.wp_alloc_first (fun a hf hs => ?_) fun hn => ?_
  · simp only [wp_bind, wp_modify, wp_pure]
    exact ⟨rfl, fun rest => by simpa using hs rest⟩
  · simp only [wp_pure]
    exact ⟨rfl, fun rest => by simpa using hn rest⟩

theorem vmAllocRegions_requests (hv : h.vms vm ≠ none) :
    wp (vmAllocRegions vm config) (fun r h' => h'.vms vm ≠ none ∧ Requests
      (if config.memoryRegionCount > 0 then
        [(.regions, 16, config.memoryRegionCount.toNat * sizeofMemoryRegion)] else [])
      h (r = .ok) h') h := by
  obtain ⟨v, hv'⟩ := Option.ne_none_iff_exists'.mp hv
  unfold vmAllocRegions
  split_ifs with hcount
  · rw [wp_bind]
    refine wp_mono (calloc_requests _ _ _) ?_
    rintro o h₁ ⟨hvms, hreq⟩
    cases o with
    | none =>
      dsimp only
      rw [wp_pure, hvms]
      exact ⟨hv, fun rest => by simpa using hreq rest⟩
    | some regions =>
      simp only [wp_bind, wp_getVm, wp_putVm, wp_pure, hvms]
      refine ⟨v, hv', by simp, fun rest => by simpa using hreq rest⟩
  · rw [wp_pure]
    exact ⟨hv, fun rest => by simp⟩

/-- **The requests before the vCPUs** are served just if `vm_create` gets to them. -/
theorem vmPrepare_requests (hv : h.vms vm ≠ none) :
    wp (vmPrepare vm config) (fun r h' => Requests (prepareRequests config) h (r = .ok) h') h := by
  refine wp_requests_bind _ (fun r => r = .ok) (wp_mono (vmAllocRegions_requests hv) ?_)
  rintro r h₁ ⟨hv₁, hreq⟩
  refine ⟨hreq, fun hr => ?_, fun hr => ?_⟩
  swap
  · rw [if_pos hr, wp_pure]
    exact hr
  rw [if_neg (not_not.mpr hr)]
  refine wp_requests_bind [_] (fun o => o ≠ none) (wp_mono eptAllocRoot_requests ?_)
  rintro root h₂ ⟨hvms, hreq⟩
  rw [← hvms] at hv₁
  refine ⟨hreq, fun hsome => ?_, fun hnone => ?_⟩
  swap
  · obtain rfl := not_not.mp hnone
    simp
  obtain ⟨root, rfl⟩ := Option.ne_none_iff_exists'.mp hsome
  obtain ⟨w, hw⟩ := Option.ne_none_iff_exists'.mp hv₁
  simp only [wp_bind (getVm vm), wp_getVm, wp_bind (putVm vm _), wp_putVm]
  refine ⟨w, hw, ?_⟩
  refine wp_requests_bind [_] (fun o => o ≠ none) (wp_mono (calloc_requests _ _ _) ?_)
  rintro eptp h₃ ⟨hvms, hreq⟩
  refine ⟨hreq, fun hsome => ?_, fun hnone => ?_⟩
  swap
  · obtain rfl := not_not.mp hnone
    simp
  obtain ⟨eptp, rfl⟩ := Option.ne_none_iff_exists'.mp hsome
  simp only [wp_bind (getVm vm), wp_getVm, wp_bind (putVm vm _), wp_putVm]
  refine ⟨_, (congrFun hvms vm).trans (Function.update_self _ _ _), ?_⟩
  rw [← List.append_nil [_]]
  refine wp_requests_bind _ (fun o => o ≠ none) (wp_mono (calloc_requests _ _ _) ?_)
  rintro vcpus h₄ ⟨hvms, hreq⟩
  refine ⟨hreq, fun hsome => ?_, fun hnone => ?_⟩
  swap
  · obtain rfl := not_not.mp hnone
    simp
  obtain ⟨vcpus, rfl⟩ := Option.ne_none_iff_exists'.mp hsome
  simp only [wp_bind, wp_getVm, wp_putVm, wp_pure]
  exact ⟨_, (congrFun hvms vm).trans (Function.update_self _ _ _), fun rest => by simp⟩

/-! ## Without processors -/

/-- No processor is known and there is no vCPU; the VMs are in memory. -/
structure Idle (h : Host) : Prop extends NoCpus h where
  vcpus : h.vcpus = fun _ => none
  first : ∀ f, h.hv.vms = some f → h.vms f ≠ none
  fresh : ∀ a, Fresh h.mem a → h.vms a = none

theorem vcpuCreate_noCpus (hn : NoCpus h) (vm : Addr) (i : UInt32) :
    wlp (vcpuCreate vm i) (fun _ _ => ¬ h.mem.heap.ServesAll [vcpuRequest]) h := by
  rw [vcpuCreate, wlp_bind, calloc]
  refine (wp_alignedAlloc_first (fun c hf hs => ?_) fun hno => ?_).wlp
  · simp only [wlp_bind, wlp_getHv, wlp_require]
    exact fun _ hne => absurd hn.online hne
  · dsimp only
    rw [wlp_pure]
    exact hno []

theorem vcpuCreate_refused (vm : Addr) (i : UInt32)
    (hno : ¬ h.mem.heap.ServesAll [vcpuRequest]) :
    wp (vcpuCreate vm i) (fun r h' => r = .error .errNoMemory ∧ h' = h.refuse) h := by
  rw [vcpuCreate, wp_bind, calloc]
  refine wp_alignedAlloc_first (fun c hf hs => ?_) fun _ => ?_
  · exact absurd ((hs []).mpr trivial) hno
  · dsimp only
    rw [wp_pure]
    exact ⟨rfl, rfl⟩

section Build

variable {h₀ : Host} {v : Nexusvm}

theorem createVcpus_noCpus (hn : NoCpus h) (vm : Addr) (n : ℕ) (i : UInt32) :
    wlp (createVcpus vm n i) (fun _ _ => ¬ (n ≠ 0 ∧ h.mem.heap.ServesAll [vcpuRequest])) h := by
  cases n with
  | zero =>
    rw [createVcpus, wlp_pure]
    exact fun hc => hc.1 rfl
  | succ n =>
    rw [createVcpus, wlp_bind]
    refine wlp_mono (vcpuCreate_noCpus hn vm i) fun r h' hno => ?_
    exact fun _ _ _ hc => hno hc.2

theorem createVcpus_refused (hb : Builds vm h₀ v [] h) (hv : v.vcpus = []) {n : ℕ} (i : UInt32)
    (hno : ¬ (n ≠ 0 ∧ h.mem.heap.ServesAll [vcpuRequest])) :
    wp (createVcpus vm n i) (fun _ h' => Builds vm h₀ v [] h') h := by
  cases n with
  | zero =>
    rw [createVcpus, wp_pure]
    exact hb
  | succ n =>
    have hno' : ¬ h.mem.heap.ServesAll [vcpuRequest] := fun hc => hno ⟨Nat.succ_ne_zero n, hc⟩
    rw [createVcpus, wp_bind]
    refine wp_mono (vcpuCreate_refused vm i hno') ?_
    rintro _ _ ⟨rfl, rfl⟩
    dsimp only
    rw [wp_bind, wp_getVm]
    refine ⟨v, hb.getVm, ?_⟩
    rw [hv, forEach, wp_bind, wp_pure, wp_pure]
    exact hb.setMem (Allocates.refuse _)

theorem Builds.noCpus {cs : List Addr} (hn : NoCpus h₀) (hb : Builds vm h₀ v cs h) : NoCpus h := by
  rw [hb.shape]
  exact ⟨hn.initialized, hn.online, hn.cpus⟩

theorem vmBuild_noCpus (hn : NoCpus h₀) (hb : Builds vm h₀ v [] h) (hv : v.vcpus = [])
    (hregs : v.memoryRegions = []) : wlp (vmBuild vm config) (fun _ _ => ¬ (config.vcpuCount ≠ 0 ∧
      h.mem.heap.ServesAll (prepareRequests config ++ [vcpuRequest]))) h := by
  have hvm : h.vms vm ≠ none := by rw [hb.getVm]; exact Option.some_ne_none v
  rw [vmBuild_eq, wlp_bind]
  refine wlp_mono (wp_and (vmPrepare_requests hvm) (vmPrepare_spec hv hregs hb)).wlp ?_
  rintro r h₁ ⟨hreq, w, -, -, -, hb₁⟩
  refine wlp_ite (fun hr => ?_) fun hr => ?_
  · rw [wlp_pure, hreq]
    exact fun hc => hr hc.2.1
  · refine wlp_mono (createVcpus_noCpus (hb₁.noCpus hn) vm _ 0) fun _ _ hno hc => hno ⟨?_, ?_⟩
    · rw [ne_eq, ← UInt32.toNat_zero, UInt32.toNat_inj]
      exact hc.1
    · exact ((hreq _).mp hc.2).2

theorem vmBuild_refused (hb : Builds vm h₀ v [] h) (hv : v.vcpus = [])
    (hregs : v.memoryRegions = []) (hno : ¬ (config.vcpuCount ≠ 0 ∧
      h.mem.heap.ServesAll (prepareRequests config ++ [vcpuRequest]))) :
    wp (vmBuild vm config) (fun _ h' => ∃ w, Builds vm h₀ w [] h') h := by
  have hvm : h.vms vm ≠ none := by rw [hb.getVm]; exact Option.some_ne_none v
  rw [vmBuild_eq, wp_bind]
  refine wp_mono (wp_and (vmPrepare_requests hvm) (vmPrepare_spec hv hregs hb)) ?_
  rintro r h₁ ⟨hreq, w, -, hw, -, hb₁⟩
  refine wp_ite (fun hr => ?_) fun hr => ?_
  · rw [wp_pure]
    exact ⟨w, hb₁⟩
  · refine wp_mono (createVcpus_refused hb₁ hw 0 fun hc => hno ⟨?_, ?_⟩) fun _ h' hb' =>
      ⟨w, hb'⟩
    · rintro hzero
      rw [hzero] at hc
      exact hc.1 rfl
    · exact (hreq _).mpr ⟨not_not.mp hr, hc.2⟩

end Build

/-! ## Creation of a VM -/

theorem Idle.failedCreate (hi : Idle h) {m : PhysMem} {hv : Hypervisor} (ha : Allocates h.mem m)
    (hhv : hv = h.hv ∨ hv = h.hv.nextId) : Idle ((h.setHv hv).setMem m) := by
  rcases hhv with rfl | rfl <;>
    exact ⟨⟨hi.initialized, hi.online, hi.cpus⟩, hi.vcpus, hi.first,
      fun a hf => hi.fresh a (ha.fresh hf)⟩

theorem Idle.create (hi : Idle h) {v : Nexusvm} {h₁ : Host} (hb : Builds vm h v [] h₁) :
    Idle (h₁.linkVm vm v) := by
  have hn := hb.noCpus hi.toNoCpus
  refine ⟨⟨hn.initialized, hn.online, hn.cpus⟩, ?_, fun f hf => ?_, fun a hf => ?_⟩
  · funext c
    exact (hb.others c List.not_mem_nil).trans (congrFun hi.vcpus c)
  · cases hf
    simp [Host.linkVm]
  · have hne : a ≠ vm := by
      rintro rfl
      obtain ⟨b, hbl, -, hbase⟩ := hb.held
      exact hf b hbl hbase
    have hnone : h₁.vms a = none := (hb.vms_eq hne).trans (hi.fresh a (hb.alloc.fresh hf))
    simp [Host.linkVm, hne, hnone]

/-- The state when `vm_create` has filled the record of the VM that it was given. -/
def Host.beginVm (h : Host) (vm : Addr) (config : VmConfig) (name : List UInt8) : Host :=
  (((h.grant ⟨.vm, vm, 1 * sizeofNexusvm⟩).setHv h.hv.nextId).setVm vm
    (some (newVm config h.hv.nextVmId name)))

theorem builds_beginVm (hf : h.mem.heap.Fits 16 ⟨.vm, vm, 1 * sizeofNexusvm⟩) (config : VmConfig)
    (name : List UInt8) :
    Builds vm h (newVm config h.hv.nextVmId name) [] (h.beginVm vm config name) := by
  refine builds_newVm ?_ (Fresh.of_fits hf) (Heap.holds_grant_self _ _) config _ name
  exact Allocates.grant hf

/-- **`vm_create` without processors**, where it is given no vCPU. -/
theorem vmCreate_idle (hi : Idle h) (hname : NameFits config) (hno : ¬ (config.vcpuCount ≠ 0 ∧
    h.mem.heap.ServesAll (createRequests config))) :
    wp (vmCreate (some config)) (fun _ h' => Idle h') h := by
  obtain ⟨name, hname⟩ := Option.ne_none_iff_exists'.mp hname
  rw [vmCreate, wp_bind, wp_get]
  simp only [hi.initialized, Bool.not_true, Bool.false_eq_true, if_false]
  rw [wp_bind, calloc]
  refine wp_alignedAlloc_first (fun vm hf hs => ?_) fun _ => ?_
  swap
  · rw [wp_pure]
    exact hi.failedCreate (m := h.refuse.mem) (Allocates.refuse _)
      (.inl rfl)
  have hb := builds_beginVm hf config name
  have hno' : ¬ (config.vcpuCount ≠ 0 ∧ (h.beginVm vm config name).mem.heap.ServesAll
      (prepareRequests config ++ [vcpuRequest])) := fun hc => hno ⟨hc.1, (hs _).mpr hc.2⟩
  simp only [wp_bind, wp_getHv, wp_putHv, wp_fetch, wp_putVm]
  refine ⟨hi.initialized, name, hname, ?_⟩
  refine wp_mono (vmBuild_refused hb rfl rfl hno') ?_
  rintro r h₁ ⟨w, hb₁⟩
  refine wp_ite (fun hr => ?_) fun hr => ?_
  · rw [wp_bind]
    refine wp_mono (vmAbandon_spec (hi.fresh vm hb.fresh) hb₁) ?_
    rintro _ _ ⟨m, ha, rfl⟩
    rw [wp_pure]
    exact hi.failedCreate ha (.inr rfl)
  · rw [wp_bind]
    refine wp_mono (vmLink_spec (hb₁.noCpus hi.toNoCpus).initialized hb₁.getVm
      (hb₁.first hi.first hi.fresh)) ?_
    rintro _ _ rfl
    rw [wp_pure]
    exact hi.create hb₁

/-- **`vm_create` without processors** does not return where it is given a vCPU. -/
theorem vmCreate_noCpus (hn : NoCpus h) (config : VmConfig) : wlp (vmCreate (some config))
    (fun _ _ => ¬ (config.vcpuCount ≠ 0 ∧ h.mem.heap.ServesAll (createRequests config))) h := by
  rw [vmCreate, wlp_bind, wlp_get]
  simp only [hn.initialized, Bool.not_true, Bool.false_eq_true, if_false]
  rw [wlp_bind, calloc]
  refine (wp_alignedAlloc_first (fun vm hf hs => ?_) fun hno => ?_).wlp
  swap
  · rw [wlp_pure]
    exact fun hc => hno _ hc.2
  simp only [wlp_bind, wlp_getHv, wlp_putHv, wlp_fetch, wlp_putVm]
  rintro - name -
  refine wlp_mono (vmBuild_noCpus hn (builds_beginVm hf config name) rfl rfl) fun r h₁ hno => ?_
  have hno' : ¬ (config.vcpuCount ≠ 0 ∧ h.mem.heap.ServesAll (createRequests config)) :=
    fun hc => hno ⟨hc.1, (hs _).mp hc.2⟩
  exact fun _ _ _ => hno'

/-- **`vm_create`** with a name that does not fit. -/
theorem vmCreate_badName (hi : Idle h) (hname : ¬ NameFits config) :
    wlp (vmCreate (some config)) (fun _ h' => Idle h') h := by
  rw [vmCreate, wlp_bind, wlp_get]
  simp only [hi.initialized, Bool.not_true, Bool.false_eq_true, if_false]
  rw [wlp_bind, calloc]
  refine (wp_alignedAlloc (fun vm _ => ?_) ?_).wlp
  · simp only [wlp_bind, wlp_getHv, wlp_putHv, wlp_fetch]
    intro _ name hcopy
    refine absurd ?_ hname
    rw [NameFits, hcopy]
    exact Option.some_ne_none name
  · rw [wlp_pure]
    exact hi.failedCreate (m := h.refuse.mem) (Allocates.refuse _)
      (.inl rfl)

/-! ## Every call -/

theorem cpuOp_noVcpu (hi : Idle h) {op : CpuOp} (hrun : op.vcpu = none → wp op.run (fun _ h' => h' = h) h)
    (hget : ∀ c, op.vcpu = some c → wlp op.run (fun _ _ => False) h)
    (hbad : BadArguments op h ↔ ∃ c ∈ op.vcpu, h.vcpus c = none) (hplace : ¬ PlacesVcpu op h) :
    (DividesByZero op h ↔ PlacesVcpu op h) ∧ wlp op.run (fun _ h' => Idle h') h := by
  rw [DividesByZero, hbad]
  cases hc : op.vcpu with
  | none =>
    refine ⟨iff_of_false (fun hd => (hrun hc).run_ne_none hd.1) hplace, ?_⟩
    exact wlp_mono (hrun hc).wlp fun _ _ heq => heq ▸ hi
  | some c =>
    refine ⟨iff_of_false (fun hd => hd.2 ⟨c, rfl, congrFun hi.vcpus c⟩) hplace, ?_⟩
    exact wlp_mono (hget c hc) fun _ _ hf => hf.elim

/-- **Every call without processors**: it divides by zero just if it is given a vCPU, and the others
that return leave no processor known and no vCPU. -/
theorem cpuOp_idle (hi : Idle h) (op : CpuOp) : (DividesByZero op h ↔ PlacesVcpu op h) ∧
    wlp op.run (fun _ h' => Idle h') h := by
  have hno : ∀ c, h.vcpus c = none := fun c => congrFun hi.vcpus c
  cases op with
  | vmCreate config =>
    cases config with
    | none =>
      have hret : wp (CpuOp.run (.vmCreate none)) (fun _ h' => h' = h) h := by
        rw [CpuOp.run, wp_discard, vmCreate, wp_bind, wp_get, wp_pure]
      refine ⟨iff_of_false (fun hd => hret.run_ne_none hd.1) id, ?_⟩
      exact wlp_mono hret.wlp fun _ _ heq => heq ▸ hi
    | some config =>
      rw [DividesByZero, run_eq_none_iff, CpuOp.run, wlp_discard, wlp_discard]
      by_cases hname : NameFits config
      · by_cases hplace : config.vcpuCount ≠ 0 ∧ h.mem.heap.ServesAll (createRequests config)
        · have hstuck : wlp (vmCreate (some config)) (fun _ _ => False) h :=
            wlp_mono (vmCreate_noCpus hi.toNoCpus config) fun _ _ hc => hc hplace
          refine ⟨iff_of_true ⟨hstuck, not_not.mpr hname⟩ ⟨hplace.1, hname, hplace.2⟩, ?_⟩
          exact wlp_mono hstuck fun _ _ hf => hf.elim
        · have hret := vmCreate_idle hi hname hplace
          refine ⟨iff_of_false (fun hd => ?_) fun hp => hplace ⟨hp.1, hp.2.2⟩, hret.wlp⟩
          exact hret.run_ne_none (run_eq_none_iff.mpr hd.1)
      · exact ⟨iff_of_false (fun hd => hd.2 hname) fun hp => hname hp.2.1,
          vmCreate_badName hi hname⟩
  | vcpuCreate vm i =>
    rw [DividesByZero, run_eq_none_iff, CpuOp.run, wlp_discard, wlp_discard]
    have hargs : ¬ BadArguments (.vcpuCreate vm i) h := by
      rintro ⟨c, hc, -⟩
      cases hc
    by_cases hplace : h.mem.heap.ServesAll [vcpuRequest]
    · have hstuck : wlp (vcpuCreate vm i) (fun _ _ => False) h :=
        wlp_mono (vcpuCreate_noCpus hi.toNoCpus vm i) fun _ _ hc => hc hplace
      exact ⟨iff_of_true ⟨hstuck, hargs⟩ hplace, wlp_mono hstuck fun _ _ hf => hf.elim⟩
    · have hret := vcpuCreate_refused vm i hplace
      refine ⟨iff_of_false (fun hd => hret.run_ne_none (run_eq_none_iff.mpr hd.1)) hplace,
        wlp_mono hret.wlp ?_⟩
      rintro _ _ ⟨-, rfl⟩
      exact hi.failedCreate (m := h.refuse.mem) (Allocates.refuse _)
        (.inl rfl)
  | vcpuStart c | vcpuStop c | addVcpu c | removeVcpu c | yield c | wake c =>
    refine cpuOp_noVcpu hi (fun hc => ?_) (fun c' hc => ?_) Iff.rfl id
    · obtain rfl : c = none := hc
      simp only [CpuOp.run, wp_discard, NexusVM.vcpuStart, NexusVM.vcpuStop, schedulerAddVcpu,
        schedulerRemoveVcpu, schedulerYield, schedulerWake, wp_pure]
    · obtain rfl : c = some c' := hc
      simp only [CpuOp.run, wlp_discard, NexusVM.vcpuStart, NexusVM.vcpuStop, schedulerAddVcpu,
        schedulerRemoveVcpu, schedulerYield, schedulerWake, wlp_bind, wlp_getVcpu, hno]
      exact fun u hu => (by cases hu)

/-! ## Runs -/

/-- **Division by zero after initialisation.** Whatever the processor answers, once
`hypervisor_init` has succeeded both counts of processors are zero for ever, and a run of calls never
divides by one of them just if no call of the run is given the memory of a vCPU. -/
theorem placement_divides_iff {p : Processor} {hypercallInit : Result} {h₀ h₁ : Host}
    (hstart : h₀.gInitialized = false) (hvms : h₀.vms = fun _ => none)
    (hvcpus : h₀.vcpus = fun _ => none)
    (hinit : (hypervisorInit p hypercallInit).run h₀ = some (.ok, h₁)) (ops : List CpuOp) :
    (Along CpuOp.run (fun op h => ¬ DividesByZero op h) ops h₁ ↔
        Along CpuOp.run (fun op h => ¬ PlacesVcpu op h) ops h₁) ∧
      Along CpuOp.run (fun _ h => h.hv.onlineCpuCount = 0 ∧ h.gCpuCount = 0) ops h₁ := by
  obtain ⟨hn, hfirst, hvms₁, hvcpus₁⟩ := hypervisorInit_spec hstart _ _ hinit rfl
  have hidle : Idle h₁ := by
    refine ⟨hn, hvcpus₁.trans hvcpus, fun f hf => ?_, fun a _ => ?_⟩
    · rw [hfirst] at hf
      cases hf
    · rw [hvms₁, hvms]
  clear hinit hfirst hvms₁ hvcpus₁ hn
  induction ops generalizing h₁ with
  | nil => exact ⟨Iff.rfl, trivial⟩
  | cons op ops ih =>
    obtain ⟨hiff, hkeep⟩ := cpuOp_idle hidle op
    refine ⟨and_congr (not_congr hiff) (forall_congr' fun a => forall_congr' fun g =>
      forall_congr' fun hrun => (ih (hkeep a g hrun)).1), ⟨hidle.online, hidle.cpus⟩,
      fun a g hrun => (ih (hkeep a g hrun)).2⟩

/-- A process that has just started. -/
def startHost : Host :=
  { bootHost 0 .unknown with gInitialized := false, gSchedulerInitialized := false }

/-- A processor with VMX, whose vendor string `detect_cpu_features` reads as Intel's. -/
def vmxProcessor : Processor where
  cpuid leaf :=
    if leaf = 0 then { ebx := 0x756E6547, ecx := 0x49656E69, edx := 0x6C65746E }
    else if leaf = 1 then { ecx := 0x20 }
    else {}
  rdmsr _ := 0

theorem placement_divides_iff_no_vcpus : ∃ h₁,
    (hypervisorInit vmxProcessor .ok).run startHost = some (.ok, h₁) ∧
      Along CpuOp.run (fun op h => ¬ DividesByZero op h)
        [.vmCreate (some { vcpuCount := 0 }), .vcpuStart none] h₁ := by
  have hinit : ((hypervisorInit vmxProcessor .ok).run startHost).map Prod.fst = some .ok := by
    decide +kernel
  obtain ⟨⟨r, h₁⟩, hinit, rfl⟩ := Option.map_eq_some_iff.mp hinit
  refine ⟨h₁, hinit, (placement_divides_iff rfl rfl rfl hinit _).1.mpr ?_⟩
  exact ⟨fun hc => hc.1 rfl, fun _ _ _ => ⟨id, fun _ _ _ => trivial⟩⟩

/-- **A creation divides by zero.** The detection fills `logical_cpu_count`, but nothing ever sets
`online_cpu_count`: the first vCPU is placed modulo zero. -/
theorem vm_create_divides_by_zero : ∃ h₁,
    (hypervisorInit vmxProcessor .ok).run startHost = some (.ok, h₁) ∧
      h₁.mem.heap.refused = 0 ∧ h₁.hv.onlineCpuCount = 0 ∧
      DividesByZero (.vmCreate (some { vcpuCount := 1 })) h₁ := by
  have hinit : ((hypervisorInit vmxProcessor .ok).run startHost).map (fun p => (p.1,
      p.2.mem.heap.refused, p.2.hv.onlineCpuCount,
      ((CpuOp.vmCreate (some { vcpuCount := 1 })).run.run p.2).isNone)) = some (.ok, 0, 0, true) := by
    decide +kernel
  obtain ⟨⟨r, h₁⟩, hinit, hres⟩ := Option.map_eq_some_iff.mp hinit
  simp only [Prod.mk.injEq, Option.isNone_iff_eq_none] at hres
  obtain ⟨rfl, hrefused, honline, hnone⟩ := hres
  have hfits : NameFits { vcpuCount := 1 } := by decide
  exact ⟨h₁, hinit, hrefused, honline, hnone, not_not.mpr hfits⟩

end NexusVM
