import NexusVM.Lib.Bytes
import NexusVM.Types

/-!
# Hypercalls

`hypercall_handle` on the bytes of the host memory, as it takes an address out of a guest register.
The two records it uses are at their offsets under the x86-64 System V layout.

* `HypercallParams`, `HypercallResult`, `hypercallHandle`: the function;
* `Confined`: what a call changes and what it depends on stay within some addresses;
* `Footprint`: the addresses outside the record of the vCPU that a call uses;
* **`hypercall_confined_iff`**: a call is confined just if its footprint is allowed.
-/

namespace NexusVM

open Bytes

/-! ## The function -/

def HYPERCALL_VM_GET_INFO : UInt64 := 0x1600
def HYPERCALL_VCPU_GET_STATE : UInt64 := 0x1601
def HYPERCALL_VCPU_SET_STATE : UInt64 := 0x1602
def HYPERCALL_VM_GET_STATISTICS : UInt64 := 0x1603
def HYPERCALL_VCPU_GET_STATISTICS : UInt64 := 0x1604

/-- `hypercall_params_t`, the registers that a call uses. -/
structure HypercallParams where
  rax : UInt64
  rbx : UInt64

/-- `hypercall_result_t` -/
structure HypercallResult where
  status : Result := .ok
  ret0 : UInt64 := 0
  ret1 : UInt64 := 0
  ret2 : UInt64 := 0
  ret3 : UInt64 := 0
deriving DecidableEq

/-- A field of `n` bytes at an offset of a record. -/
def field (m : Bytes) (record : UInt64) (offset n : ℕ) : UInt64 :=
  UInt64.ofNat (Bytes.load m (record + UInt64.ofNat offset) n)

/-- `vcpu->vm` -/
def vcpuVm (m : Bytes) (vcpu : UInt64) : UInt64 := field m vcpu 16 8

/-- `&vcpu->cpu_state` -/
def vcpuCpuState (vcpu : UInt64) : UInt64 := vcpu + UInt64.ofNat 24

/-- `hypercall_handle`: its result, the record it fills in if it does, and the memory after it. -/
def hypercallHandle (vcpu : Option UInt64) (params : HypercallParams) (m : Bytes) :
    Result × Option HypercallResult × Bytes :=
  match vcpu with
  | none => (.errInvalidParam, none, m)
  | some vcpu =>
    if params.rax = HYPERCALL_VM_GET_INFO then
      let vm := vcpuVm m vcpu
      (.ok, some {
        ret0 := field m vm 0 4
        ret1 := field m vm 80 4
        ret2 := field m vm 104 8
        ret3 := field m vm 68 4 }, m)
    else if params.rax = HYPERCALL_VCPU_GET_STATE then
      (.ok, some {},
        if params.rbx ≠ 0 then copy m params.rbx (vcpuCpuState vcpu) sizeofCpuState else m)
    else if params.rax = HYPERCALL_VCPU_SET_STATE then
      (.ok, some {},
        if params.rbx ≠ 0 then copy m (vcpuCpuState vcpu) params.rbx sizeofCpuState else m)
    else if params.rax = HYPERCALL_VM_GET_STATISTICS then
      let vm := vcpuVm m vcpu
      (.ok, some {
        ret0 := field m vm 608 8
        ret1 := field m vm 624 8
        ret2 := field m vm 616 8 }, m)
    else if params.rax = HYPERCALL_VCPU_GET_STATISTICS then
      (.ok, some {
        ret0 := field m vcpu 736 8
        ret1 := field m vcpu 744 8
        ret2 := field m vcpu 752 8 }, m)
    else (.errNotSupported, some { status := .errNotSupported }, m)

/-! ## Confinement -/

/-- The record of a vCPU. -/
def vcpuRecord (vcpu : UInt64) : Set UInt64 := range vcpu sizeofNexusvcpu

/-- In every memory in which the vCPU belongs to the VM at `vm`, the call changes allowed bytes
only, and its results and the vCPU after it depend on allowed bytes only. -/
def Confined (vcpu vm : UInt64) (params : HypercallParams) (allowed : Set UInt64) : Prop :=
  ∀ m, vcpuVm m vcpu = vm →
    (∀ x ∉ allowed, (hypercallHandle (some vcpu) params m).2.2 x = m x) ∧
    ∀ m', Agree allowed m m' →
      (hypercallHandle (some vcpu) params m).1 = (hypercallHandle (some vcpu) params m').1 ∧
      (hypercallHandle (some vcpu) params m).2.1 = (hypercallHandle (some vcpu) params m').2.1 ∧
      Agree (vcpuRecord vcpu) (hypercallHandle (some vcpu) params m).2.2
        (hypercallHandle (some vcpu) params m').2.2

/-- The fields of the VM that a call reports, by offset and size. -/
def vmFields (callNumber : UInt64) : List (ℕ × ℕ) :=
  if callNumber = HYPERCALL_VM_GET_INFO then [(0, 4), (80, 4), (104, 8), (68, 4)]
  else if callNumber = HYPERCALL_VM_GET_STATISTICS then [(608, 8), (624, 8), (616, 8)]
  else []

/-- The addresses outside the record of the vCPU that a call reads or writes. -/
def Footprint (vm : UInt64) (params : HypercallParams) : Set UInt64 :=
  {x | (∃ p ∈ vmFields params.rax, x ∈ range (vm + UInt64.ofNat p.1) p.2) ∨
    (params.rax = HYPERCALL_VCPU_GET_STATE ∨ params.rax = HYPERCALL_VCPU_SET_STATE) ∧
      params.rbx ≠ 0 ∧ x ∈ range params.rbx sizeofCpuState}

variable {vcpu vm x : UInt64} {params : HypercallParams} {m m' : Bytes} {allowed : Set UInt64}

/-! ## Fields -/

theorem field_agree {a : UInt64} {off n : ℕ}
    (h : Agree (range (a + UInt64.ofNat off) n) m m') : field m a off n = field m' a off n := by
  rw [field, field, load_agree h]

theorem field_injective {a : UInt64} {off n : ℕ} (hn : n ≤ 8) (h : field m a off n = field m' a off n) :
    Agree (range (a + UInt64.ofNat off) n) m m' := by
  have hpow : 256 ^ n ≤ 256 ^ 8 := Nat.pow_le_pow_right (by decide) hn
  have h₁ := load_lt m (a + UInt64.ofNat off) n
  have h₂ := load_lt m' (a + UInt64.ofNat off) n
  apply load_injective
  have h' := congrArg UInt64.toNat h
  rwa [field, field, UInt64.toNat_ofNat', UInt64.toNat_ofNat', Nat.mod_eq_of_lt (by omega),
    Nat.mod_eq_of_lt (by omega)] at h'

theorem exists_memory (vcpu vm : UInt64) (base : Bytes) : ∃ m, vcpuVm m vcpu = vm ∧
    ∀ x ∉ range (vcpu + UInt64.ofNat 16) 8, m x = base x := by
  refine ⟨Bytes.store base (vcpu + UInt64.ofNat 16) 8 vm.toNat, ?_, fun x hx => store_of_notMem hx⟩
  have hlt : vm.toNat < 256 ^ 8 := vm.toNat_lt
  rw [vcpuVm, field, load_store hlt (by decide), UInt64.ofNat_toNat]

theorem vcpu_field_subset {off n : ℕ} (h : off + n ≤ sizeofNexusvcpu) :
    range (vcpu + UInt64.ofNat off) n ⊆ vcpuRecord vcpu := range_offset h

theorem vcpu_field_agree (hrec : vcpuRecord vcpu ⊆ allowed) (h : Agree allowed m m') {off n : ℕ}
    (hoff : off + n ≤ sizeofNexusvcpu) : field m vcpu off n = field m' vcpu off n :=
  field_agree fun x hx => h x (hrec (vcpu_field_subset hoff hx))

theorem field_allowed (vcpu : UInt64) {off n : ℕ} (hn : n ≤ 8)
    (h : ∀ m m', vcpuVm m vcpu = vm → Agree allowed m m' → field m vm off n = field m' vm off n) :
    range (vm + UInt64.ofNat off) n ⊆ allowed := by
  intro x hx
  by_contra hxa
  obtain ⟨m, hvm, -⟩ := exists_memory vcpu vm fun _ => 0
  have hagree : Agree allowed m (Function.update m x (m x + 1)) := by
    intro y hy
    rw [Function.update_of_ne]
    rintro rfl
    exact hxa hy
  have hx' := field_injective hn (h m _ hvm hagree) x hx
  rw [Function.update_self] at hx'
  simp at hx'

/-! ## The calls -/

theorem report_confined {f : Bytes → HypercallResult} {st : Result}
    (hcall : ∀ m, hypercallHandle (some vcpu) params m = (st, some (f m), m))
    (hrec : vcpuRecord vcpu ⊆ allowed) : Confined vcpu vm params allowed ↔
      ∀ m m', vcpuVm m vcpu = vm → Agree allowed m m' → f m = f m' := by
  constructor
  · intro hc m m' hvm hagree
    obtain ⟨-, hres, -⟩ := (hc m hvm).2 m' hagree
    rw [hcall, hcall] at hres
    exact Option.some.inj hres
  · intro hf m hvm
    refine ⟨fun x _ => by rw [hcall], fun m' hagree => ?_⟩
    rw [hcall, hcall]
    exact ⟨rfl, congrArg some (hf m m' hvm hagree), fun x hx => hagree x (hrec hx)⟩

theorem vmReport_confined_iff {f : Bytes → HypercallResult}
    (hcall : ∀ m, hypercallHandle (some vcpu) params m = (.ok, some (f m), m))
    (hrec : vcpuRecord vcpu ⊆ allowed)
    (hf : ∀ m m', vcpuVm m vcpu = vm → vcpuVm m' vcpu = vm →
      (f m = f m' ↔ ∀ p ∈ vmFields params.rax, field m vm p.1 p.2 = field m' vm p.1 p.2)) :
    Confined vcpu vm params allowed ↔
      ∀ p ∈ vmFields params.rax, range (vm + UInt64.ofNat p.1) p.2 ⊆ allowed := by
  have hsize : ∀ p ∈ vmFields params.rax, p.2 ≤ 8 := by
    unfold vmFields
    split_ifs <;> decide
  have hvm' : ∀ m m', vcpuVm m vcpu = vm → Agree allowed m m' → vcpuVm m' vcpu = vm := by
    intro m m' hvm hagree
    rw [← hvm]
    exact (vcpu_field_agree hrec hagree (by decide)).symm
  rw [report_confined hcall hrec]
  constructor
  · intro h p hp
    refine field_allowed vcpu (hsize p hp) fun m m' hvm hagree => ?_
    exact (hf m m' hvm (hvm' m m' hvm hagree)).mp (h m m' hvm hagree) p hp
  · intro h m m' hvm hagree
    refine (hf m m' hvm (hvm' m m' hvm hagree)).mpr fun p hp => ?_
    exact field_agree fun x hx => hagree x (h p hp hx)

/-- A call that copies the state of the vCPU out is confined just if its target is allowed. -/
theorem getState_confined_iff (hrec : vcpuRecord vcpu ⊆ allowed)
    (hcall : ∀ m, hypercallHandle (some vcpu) params m =
      (.ok, some {}, copy m params.rbx (vcpuCpuState vcpu) sizeofCpuState)) :
    Confined vcpu vm params allowed ↔ range params.rbx sizeofCpuState ⊆ allowed := by
  have hstate : range (vcpuCpuState vcpu) sizeofCpuState ⊆ vcpuRecord vcpu :=
    vcpu_field_subset (by decide)
  constructor
  · -- the state is all ones here, and the rest of the memory is zero
    intro hc x hx
    by_contra hxa
    classical
    obtain ⟨m, hvm, hm⟩ := exists_memory vcpu vm fun y =>
      if y ∈ range (vcpuCpuState vcpu) sizeofCpuState then 1 else 0
    have hout : ∀ y ∈ range (vcpuCpuState vcpu) sizeofCpuState, m y = 1 := by
      rintro y ⟨i, hi, rfl⟩
      rw [hm, if_pos ⟨i, hi, rfl⟩]
      rintro ⟨j, hj, heq⟩
      rw [vcpuCpuState, UInt64.add_assoc, UInt64.add_assoc, ← UInt64.ofNat_add,
        ← UInt64.ofNat_add] at heq
      have := offset_inj (by simp only [sizeofCpuState] at hi; omega) (by omega) heq
      omega
    have hx₁ := (hc m hvm).1 x hxa
    rw [hcall] at hx₁
    dsimp only at hx₁
    have hxr : x ∉ vcpuRecord vcpu := fun h => hxa (hrec h)
    rw [copy_const hout hx, hm x fun h => hxr (vcpu_field_subset (by decide) h),
      if_neg fun h => hxr (hstate h)] at hx₁
    exact absurd hx₁ (by decide)
  · intro hsub m hvm
    refine ⟨fun x hx => ?_, fun m' hagree => ?_⟩
    · rw [hcall]
      dsimp only
      rw [copy_of_notMem fun h => hx (hsub h)]
    · rw [hcall, hcall]
      dsimp only
      exact ⟨rfl, rfl, fun x hx => copy_agree hagree (hstate.trans hrec) x (.inl (hrec hx))⟩

/-- A call that copies the state of the vCPU in is confined just if its source is allowed. -/
theorem setState_confined_iff (hrec : vcpuRecord vcpu ⊆ allowed)
    (hcall : ∀ m, hypercallHandle (some vcpu) params m =
      (.ok, some {}, copy m (vcpuCpuState vcpu) params.rbx sizeofCpuState)) :
    Confined vcpu vm params allowed ↔ range params.rbx sizeofCpuState ⊆ allowed := by
  have hstate : range (vcpuCpuState vcpu) sizeofCpuState ⊆ vcpuRecord vcpu :=
    vcpu_field_subset (by decide)
  constructor
  · -- the byte at `x` ends up in the state of the vCPU
    rintro hc x hx
    by_contra hxa
    obtain ⟨m, hvm, -⟩ := exists_memory vcpu vm fun _ => 0
    have hagree : Agree allowed m (Function.update m x (m x + 1)) := by
      intro y hy
      rw [Function.update_of_ne]
      rintro rfl
      exact hxa hy
    obtain ⟨-, -, hafter⟩ := (hc m hvm).2 _ hagree
    rw [hcall, hcall] at hafter
    dsimp only at hafter
    obtain ⟨i, hi, rfl⟩ := hx
    have hnot : params.rbx + UInt64.ofNat i ∉ range (vcpuCpuState vcpu) sizeofCpuState :=
      fun h => hxa (hrec (hstate h))
    have hbyte := hafter (vcpuCpuState vcpu + UInt64.ofNat i) (hstate ⟨i, hi, rfl⟩)
    rw [copy_apply hi (by decide) hnot, copy_apply hi (by decide) hnot,
      Function.update_self] at hbyte
    simp at hbyte
  · intro hsub m hvm
    refine ⟨fun x hx => ?_, fun m' hagree => ?_⟩
    · rw [hcall]
      dsimp only
      rw [copy_of_notMem fun h => hx (hrec (hstate h))]
    · rw [hcall, hcall]
      dsimp only
      exact ⟨rfl, rfl, fun x hx => copy_agree hagree hsub x (.inl (hrec hx))⟩

theorem footprint_subset_iff : Footprint vm params ⊆ allowed ↔
    (∀ p ∈ vmFields params.rax, range (vm + UInt64.ofNat p.1) p.2 ⊆ allowed) ∧
      (params.rax = HYPERCALL_VCPU_GET_STATE ∨ params.rax = HYPERCALL_VCPU_SET_STATE →
        params.rbx ≠ 0 → range params.rbx sizeofCpuState ⊆ allowed) := by
  constructor
  · intro h
    exact ⟨fun p hp x hx => h (.inl ⟨p, hp, hx⟩), fun hc hne x hx => h (.inr ⟨hc, hne, hx⟩)⟩
  · rintro ⟨hf, hs⟩ x (⟨p, hp, hx⟩ | ⟨hc, hne, hx⟩)
    · exact hf p hp hx
    · exact hs hc hne hx

theorem vmFields_report (h : params.rax = HYPERCALL_VM_GET_INFO ∨
      params.rax = HYPERCALL_VM_GET_STATISTICS) (hrec : vcpuRecord vcpu ⊆ allowed) :
    Confined vcpu vm params allowed ↔
      ∀ p ∈ vmFields params.rax, range (vm + UInt64.ofNat p.1) p.2 ⊆ allowed := by
  rcases h with h | h
  · refine vmReport_confined_iff (f := fun m => {
        ret0 := field m (vcpuVm m vcpu) 0 4
        ret1 := field m (vcpuVm m vcpu) 80 4
        ret2 := field m (vcpuVm m vcpu) 104 8
        ret3 := field m (vcpuVm m vcpu) 68 4 }) (fun m => ?_) hrec fun m m' hm hm' => ?_
    · rw [hypercallHandle, if_pos h]
    · simp [vmFields, h, hm, hm']
  · have hne : params.rax ≠ HYPERCALL_VM_GET_INFO := by rw [h]; decide
    refine vmReport_confined_iff (f := fun m => {
        ret0 := field m (vcpuVm m vcpu) 608 8
        ret1 := field m (vcpuVm m vcpu) 624 8
        ret2 := field m (vcpuVm m vcpu) 616 8 }) (fun m => ?_) hrec fun m m' hm hm' => ?_
    · rw [hypercallHandle, if_neg hne, if_neg (by rw [h]; decide), if_neg (by rw [h]; decide),
        if_pos h]
    · rw [vmFields, if_neg hne, if_pos h]
      simp [hm, hm']

/-- **Confinement of hypercalls.** Let a call be allowed the record of its vCPU and, beside it, the
bytes `guest`. For every call number and all registers, it changes nothing else and depends on
nothing else just if the bytes that it uses outside the record are allowed: 640 bytes from the
address in `RBX` for the two calls that copy the state of the vCPU, and the fields of the VM that
the two calls on the VM report. -/
theorem hypercall_confined_iff (vcpu vm : UInt64) (params : HypercallParams) (guest : Set UInt64) :
    Confined vcpu vm params (vcpuRecord vcpu ∪ guest) ↔
      Footprint vm params ⊆ vcpuRecord vcpu ∪ guest := by
  have hrec : vcpuRecord vcpu ⊆ vcpuRecord vcpu ∪ guest := Set.subset_union_left
  generalize vcpuRecord vcpu ∪ guest = allowed at hrec
  rw [footprint_subset_iff]
  -- the other calls report no field of the VM
  have hfields : params.rax ≠ HYPERCALL_VM_GET_INFO → params.rax ≠ HYPERCALL_VM_GET_STATISTICS →
      vmFields params.rax = [] := fun h₁ h₂ => by rw [vmFields, if_neg h₁, if_neg h₂]
  by_cases hvm : params.rax = HYPERCALL_VM_GET_INFO ∨ params.rax = HYPERCALL_VM_GET_STATISTICS
  · rw [vmFields_report hvm hrec]
    refine (and_iff_left ?_).symm
    rintro hc -
    rcases hvm with h | h <;> rw [h] at hc <;> exact absurd hc (by decide)
  obtain ⟨hinfo, hstat⟩ := not_or.mp hvm
  rw [hfields hinfo hstat]
  by_cases hget : params.rax = HYPERCALL_VCPU_GET_STATE
  · by_cases hrbx : params.rbx = 0
    · have hcall : ∀ m, hypercallHandle (some vcpu) params m = (.ok, some {}, m) := fun m => by
        rw [hypercallHandle, if_neg hinfo, if_pos hget, if_neg (not_not.mpr hrbx)]
      simp [report_confined hcall hrec, hrbx]
    · have hcall : ∀ m, hypercallHandle (some vcpu) params m =
          (.ok, some {}, copy m params.rbx (vcpuCpuState vcpu) sizeofCpuState) := fun m => by
        rw [hypercallHandle, if_neg hinfo, if_pos hget, if_pos hrbx]
      simp [getState_confined_iff hrec hcall, hget, hrbx]
  by_cases hset : params.rax = HYPERCALL_VCPU_SET_STATE
  · by_cases hrbx : params.rbx = 0
    · have hcall : ∀ m, hypercallHandle (some vcpu) params m = (.ok, some {}, m) := fun m => by
        rw [hypercallHandle, if_neg hinfo, if_neg hget, if_pos hset, if_neg (not_not.mpr hrbx)]
      simp [report_confined hcall hrec, hrbx]
    · have hcall : ∀ m, hypercallHandle (some vcpu) params m =
          (.ok, some {}, copy m (vcpuCpuState vcpu) params.rbx sizeofCpuState) := fun m => by
        rw [hypercallHandle, if_neg hinfo, if_neg hget, if_pos hset, if_pos hrbx]
      simp [setState_confined_iff hrec hcall, hset, hrbx]
  refine iff_of_true ?_ ⟨by simp, fun hc => absurd hc (not_or.mpr ⟨hget, hset⟩)⟩
  by_cases hown : params.rax = HYPERCALL_VCPU_GET_STATISTICS
  · -- the counters are fields of the vCPU itself
    have hcall : ∀ m, hypercallHandle (some vcpu) params m = (.ok, some {
        ret0 := field m vcpu 736 8
        ret1 := field m vcpu 744 8
        ret2 := field m vcpu 752 8 }, m) := fun m => by
      rw [hypercallHandle, if_neg hinfo, if_neg hget, if_neg hset, if_neg hstat, if_pos hown]
    refine (report_confined hcall hrec).mpr fun m m' _ hagree => ?_
    rw [vcpu_field_agree hrec hagree (by decide), vcpu_field_agree hrec hagree (by decide),
      vcpu_field_agree hrec hagree (by decide)]
  · have hcall : ∀ m, hypercallHandle (some vcpu) params m =
        (.errNotSupported, some { status := .errNotSupported }, m) := fun m => by
      rw [hypercallHandle, if_neg hinfo, if_neg hget, if_neg hset, if_neg hstat, if_neg hown]
    exact (report_confined hcall hrec).mpr fun _ _ _ _ => rfl

/-- A memory in which the vCPU at 16384 belongs to the VM at 8192 and its state is all ones. -/
def sampleMemory : Bytes :=
  Bytes.store (fun y => if 16408 ≤ y ∧ y < 17048 then 1 else 0) (16384 + UInt64.ofNat 16) 8 8192

/-- **A guest can write to any host memory.** The vCPU asks for its state at the address 2²⁰, where
neither its record nor the page at 65536 is, the only memory of its VM. -/
theorem hypercall_writes_anywhere : vcpuVm sampleMemory 16384 = 8192 ∧
    1048576 ∉ vcpuRecord 16384 ∪ range 65536 4096 ∧
    (hypercallHandle (some 16384) ⟨HYPERCALL_VCPU_GET_STATE, 1048576⟩ sampleMemory).2.2 1048576 ≠
      sampleMemory 1048576 := by
  have hrange : ∀ {a : UInt64} {n : ℕ}, a.toNat + n ≤ 1048576 → 1048576 ∉ range a n := by
    rintro a n hle ⟨i, hi, h⟩
    have h' := congrArg UInt64.toNat h
    rw [UInt64.toNat_add, UInt64.toNat_ofNat', show (1048576 : UInt64).toNat = 1048576 from rfl] at h'
    omega
  refine ⟨by decide +kernel, ?_, by decide +kernel⟩
  rintro (h | h)
  · exact hrange (by decide) h
  · exact hrange (by decide) h

end NexusVM
