import NexusVM.Isolation

/-!
# Regions and page tables

The region table of a VM and its page tables are written by the same call, `vm_alloc_memory`, but a cold
reset clears one of them only.

* `mapPages_look`: what the loop of `vm_ept_map` leaves at each page;
* `MemoryRegion.Mapped`, `MemoryRegion.Mapped.translate`: a region whose pages the tree holds, and the
  translation of its addresses;
* `GuestOp`, `RegionInv`, `GuestOp.spec`: calls on a VM, and what they keep;
* **`regions_agree`**: every region is mapped as long as no cold reset clears the tables of a VM that has
  regions.
-/

namespace NexusVM

open Prog

variable {h h' : Host} {a : Addr} {v w : Nexusvm} {m m' : PhysMem} {lbl lbl' : Labels} {root : ℕ}

/-! ## The loop -/

theorem guestPage_add (guestPhys k : UInt64) :
    guestPage (guestPhys + (k <<< PAGE_SHIFT)) = (guestPhys.toNat / 4096 + k.toNat) % 2 ^ 36 := by
  rw [guestPage, UInt64.toNat_add, UInt64.toNat_shiftLeft, show PAGE_SHIFT.toNat % 64 = 12 from rfl,
    Nat.shiftLeft_eq]
  omega

theorem makePte_address {abi : EptAbi} {hostPhys k : UInt64} (write execute : Bool)
    (hd : 4096 ∣ hostPhys.toNat) (hlimit : hostPhys.toNat + k.toNat * 4096 < abi.span) :
    (abi.address (makePte (hostPhys + (k <<< PAGE_SHIFT)) write execute)).toNat =
      hostPhys.toNat + k.toNat * 4096 := by
  have h52 := abi.span_le
  have haddr : (hostPhys + (k <<< PAGE_SHIFT)).toNat = hostPhys.toNat + k.toNat * 4096 := by
    rw [UInt64.toNat_add, UInt64.toNat_shiftLeft, show PAGE_SHIFT.toNat % 64 = 12 from rfl,
      Nat.shiftLeft_eq]
    omega
  refine address_frameNumber ?_ (by omega) hlimit
  rw [← haddr, UInt64.ofNat_toNat]
  rfl

/-- What the tree holds after the pages from `i` on are mapped, `n` of them. -/
structure Looks (root : ℕ) (guestPhys hostPhys : UInt64) (write execute : Bool) (i n : ℕ)
    (m m' : PhysMem) : Prop where
  mapped : ∀ (gpa k : UInt64), i ≤ k.toNat → k.toNat < i + n →
    guestPage gpa = guestPage (guestPhys + (k <<< PAGE_SHIFT)) →
    m'.look root (eptPath gpa) (eptPtIndex gpa) =
      some (makePte (hostPhys + (k <<< PAGE_SHIFT)) write execute)
  other : ∀ gpa : UInt64, (∀ k : UInt64, i ≤ k.toNat → k.toNat < i + n →
    guestPage gpa ≠ guestPage (guestPhys + (k <<< PAGE_SHIFT))) →
    m'.look root (eptPath gpa) (eptPtIndex gpa) = m.look root (eptPath gpa) (eptPtIndex gpa)
  abi : m'.abi = m.abi

/-- **The loop of `vm_ept_map`** maps its pages and no others. -/
theorem mapPages_look {guestPhys hostPhys : UInt64} (write execute : Bool) {n : ℕ} {i : UInt64}
    (hn : i.toNat + n ≤ 2 ^ 36) (ht : EptTrees m lbl) (hslots : m.abi.slots = 512)
    (hr : lbl root = some (root, [])) :
    wlp (mapPages (some root) guestPhys hostPhys write execute n i) (fun r m' =>
      m'.heap.refused = m.heap.refused →
        r = .ok ∧ Looks root guestPhys hostPhys write execute i.toNat n m m') m := by
  induction n generalizing i m lbl with
  | zero =>
    rw [mapPages, wlp_pure]
    exact fun _ => ⟨rfl, fun _ _ hi hk => by omega, fun _ _ => rfl, rfl⟩
  | succ n ih =>
    have hnext : (i + 1).toNat = i.toNat + 1 := by
      rw [UInt64.toNat_add, show (1 : UInt64).toNat = 1 from rfl]
      omega
    rcases mapPages_succ_cases ht hslots hr guestPhys hostPhys write execute n i with
      ⟨m₁, lbl₁, hmaps, hstep⟩ | hlt
    · intro r m₂ hrun heq
      rw [hstep] at hrun
      rw [← hmaps.refused] at heq
      have habi := hmaps.grows.abi
      obtain ⟨hok, hmapped, hother, habi'⟩ :=
        ih (by omega) hmaps.trees (habi ▸ hslots) (hmaps.grows.keep root _ hr) r m₂ hrun heq
      rw [hnext] at hmapped hother
      -- the first page, and then the rest
      have hfirst : ∀ gpa, m₁.look root (eptPath gpa) (eptPtIndex gpa) =
          if guestPage gpa = guestPage (guestPhys + (i <<< PAGE_SHIFT)) then
            some (makePte (hostPhys + (i <<< PAGE_SHIFT)) write execute)
          else m.look root (eptPath gpa) (eptPtIndex gpa) := fun gpa => by
        rw [hmaps.look rfl root _ _ hr (eptPath_length gpa)]
        refine if_congr ?_ rfl rfl
        rw [← key_eq_iff, eq_self, true_and]
      refine ⟨hok, fun gpa k hik hk hpage => ?_, fun gpa hno => ?_, habi'.trans habi⟩
      · rcases Nat.lt_or_ge i.toNat k.toNat with hlt | hge
        · exact hmapped gpa k hlt (by omega) hpage
        · obtain rfl : k = i := UInt64.toNat_inj.mp (by omega)
          rw [hother gpa fun k' hk' hlt' heq => ?_, hfirst, if_pos hpage]
          rw [heq, guestPage_add, guestPage_add] at hpage
          omega
      · rw [hother gpa fun k hk hlt => hno k (by omega) (by omega), hfirst,
          if_neg (hno i (le_refl _) (by omega))]
    · exact wlp_mono hlt fun _ m₂ h₂ heq => absurd heq h₂.ne'

/-! ## Regions -/

/-- **The table and the page tables agree.** Every byte of every region is translated to its place in the
host memory of the region. -/
def RegionsAgree (h : Host) (a : Addr) : Prop :=
  ∀ v ∈ h.vms a, ∀ r ∈ v.regions, ∀ off < r.size,
    (vmGpaToHpa (some a) (r.guestPhys + off)).run h = some (r.hostPhys + off, h)

/-- The tree holds the pages of the region. -/
structure MemoryRegion.Mapped (r : MemoryRegion) (m : PhysMem) (root : ℕ) : Prop where
  guest : 4096 ∣ r.guestPhys.toNat
  size : 4096 ∣ r.size.toNat
  below : r.guestPhys.toNat + r.size.toNat ≤ 2 ^ 48
  host : 4096 ∣ r.hostPhys.toNat
  limit : r.hostPhys.toNat + r.size.toNat ≤ m.abi.span
  look : ∀ (gpa : UInt64) (k : ℕ), k * 4096 < r.size.toNat →
    guestPage gpa = r.guestPhys.toNat / 4096 + k →
    ∃ e, m.look root (eptPath gpa) (eptPtIndex gpa) = some e ∧
      (m.abi.address e).toNat = r.hostPhys.toNat + k * 4096

theorem MemoryRegion.Mapped.congr {r : MemoryRegion} (hr : r.Mapped m root) (habi : m'.abi = m.abi)
    (hlook : ∀ (gpa : UInt64) (k : ℕ), k * 4096 < r.size.toNat →
      guestPage gpa = r.guestPhys.toNat / 4096 + k → m'.look root (eptPath gpa) (eptPtIndex gpa) =
        m.look root (eptPath gpa) (eptPtIndex gpa)) : r.Mapped m' root where
  __ := hr
  limit := habi ▸ hr.limit
  look gpa k hk hpage := by
    rw [hlook gpa k hk hpage, habi]
    exact hr.look gpa k hk hpage

/-- **A mapped region is translated** byte by byte. -/
theorem MemoryRegion.Mapped.translate {r : MemoryRegion} (hr : r.Mapped h.mem root)
    (ht : EptTrees h.mem lbl) (hslots : h.mem.abi.slots = 512) (hv : h.vms a = some v)
    (hroot : v.eptRoot = some root) (hl : lbl root = some (root, [])) {off : UInt64}
    (hoff : off < r.size) :
    (vmGpaToHpa (some a) (r.guestPhys + off)).run h = some (r.hostPhys + off, h) := by
  obtain ⟨hguest, hsize, hbelow, hhost, hlimit, hlook⟩ := hr
  have h52 := h.mem.abi.span_le
  have hlt := UInt64.lt_iff_toNat_lt.mp hoff
  have hgpa : (r.guestPhys + off).toNat = r.guestPhys.toNat + off.toNat := by
    rw [UInt64.toNat_add]
    omega
  obtain ⟨e, he, haddr⟩ := hlook (r.guestPhys + off) (off.toNat / 4096) (by omega) (by
    rw [guestPage, hgpa]
    omega)
  rw [vmGpaToHpa_spec ht hslots hv hroot hl, he, Option.some.injEq, Prod.mk.injEq]
  refine ⟨?_, rfl⟩
  rw [← UInt64.toNat_inj, page_or_offset, haddr, hgpa, UInt64.toNat_add]
  omega

/-! ## `vm_alloc_memory` -/

/-- What an allocation does that is refused nothing: a region is recorded, and its pages are mapped. -/
structure MapsRegion (a : Addr) (v : Nexusvm) (root : ℕ) (guestPhys size : UInt64) (r : MemoryRegion)
    (h h' : Host) : Prop where
  guest : r.guestPhys = guestPhys
  bytes : r.size = size
  host : 4096 ∣ r.hostPhys.toNat
  limit : r.hostPhys.toNat + (allocSize size).toNat ≤ h'.mem.abi.span
  room : v.memoryRegionCount.toNat < v.memoryRegions.length
  vms : h'.vms = Function.update h.vms a (some (v.addRegion r))
  looks : ∃ m, m.abi = h.mem.abi ∧ (∀ is j, is.length = 3 → m.look root is j = h.mem.look root is j) ∧
    Looks root guestPhys r.hostPhys true false 0 (pageCount size).toNat m h'.mem

theorem vmAllocMemory_maps (hs : Separated lbl h) (hv : h.vms a = some v) (hroot : v.eptRoot = some root)
    (hr : lbl root = some (root, [])) {guestPhys size : UInt64} (hsize : size.toNat ≤ 2 ^ 48)
    (regionType : MemoryRegionType) :
    wlp (vmAllocMemory (some a) guestPhys size regionType) (fun _ h' =>
      h'.mem.heap.refused = h.mem.heap.refused →
        h' = h ∨ ∃ r, MapsRegion a v root guestPhys size r h h') h := by
  have hlimit := hs.trees.limit
  have hcount : (0 : UInt64).toNat + (pageCount size).toNat ≤ 2 ^ 36 := by
    rw [pageCount, UInt64.toNat_shiftRight, UInt64.toNat_sub, UInt64.toNat_add,
      Nat.shiftRight_eq_div_pow]
    simp only [PAGE_SIZE, PAGE_SHIFT, UInt64.reduceToNat, Nat.reduceMod]
    omega
  refine wlp_mono (vmAllocMemory_records (hlimit.trans_lt (EptAbi.span_lt _)) hv hroot
    (X := fun b m' => Looks root guestPhys (UInt64.ofNat b) true false 0 (pageCount size).toNat
      (h.mem.newPages b (allocSize size).toNat) m')
    (fun b hf _ => mapPages_look true false hcount (hs.trees.newPages hf) hs.slots hr) regionType) ?_
  intro result h' hres heq
  rcases hres heq with rfl | ⟨r, b, hrec⟩
  · exact .inl rfl
  have hhost : UInt64.ofNat b = r.hostPhys := by rw [← hrec.host, UInt64.ofNat_toNat]
  refine .inr ⟨r, hrec.guest, hrec.bytes, ?_, ?_, hrec.room, congrArg Host.vms hrec.shape,
    h.mem.newPages b (allocSize size).toNat, rfl, fun is j hd => hs.trees.look_newPages hrec.fits j hr hd,
    hhost ▸ hrec.maps⟩
  · rw [hrec.host]
    exact hrec.fits.2.1
  · rw [hrec.host, hrec.maps.abi]
    exact hrec.fits.2.2.1.trans hlimit

section MapsRegion

variable {guestPhys size : UInt64} {r : MemoryRegion} (hd : 4096 ∣ guestPhys.toNat)
  (hd' : 4096 ∣ size.toNat) (hbelow : guestPhys.toNat + size.toNat ≤ 2 ^ 48)

include hd' hbelow

theorem pageCount_aligned : (pageCount size).toNat = size.toNat / 4096 := by
  rw [pageCount, UInt64.toNat_shiftRight, UInt64.toNat_sub, UInt64.toNat_add,
    Nat.shiftRight_eq_div_pow]
  simp only [PAGE_SIZE, PAGE_SHIFT, UInt64.reduceToNat, Nat.reduceMod]
  omega

include hd

/-- **The new region is mapped.** -/
theorem MapsRegion.mapped (hm : MapsRegion a v root guestPhys size r h h') : r.Mapped h'.mem root := by
  obtain ⟨m, -, -, hlooks⟩ := hm.looks
  have hlimit := hm.limit
  have halloc : (allocSize size).toNat = size.toNat + 4096 := by
    rw [allocSize, UInt64.toNat_mul, UInt64.toNat_add, UInt64.toNat_div]
    simp only [PAGE_SIZE, UInt64.reduceToNat]
    omega
  refine ⟨hm.guest ▸ hd, hm.bytes ▸ hd', ?_, hm.host, ?_, fun gpa k hk hpage => ?_⟩
  · rw [hm.guest, hm.bytes]
    exact hbelow
  · rw [hm.bytes]
    omega
  · rw [hm.bytes] at hk
    rw [hm.guest] at hpage
    have hlt : k < 2 ^ 64 := by omega
    have hkn : (UInt64.ofNat k).toNat = k := UInt64.toNat_ofNat_of_lt' hlt
    refine ⟨_, hlooks.mapped gpa (UInt64.ofNat k) (Nat.zero_le _) ?_ ?_, ?_⟩
    · rw [hkn, pageCount_aligned hd' hbelow]
      omega
    · rw [guestPage_add, hkn, hpage]
      omega
    · rw [makePte_address true false hm.host (by rw [hkn]; omega), hkn]

theorem MapsRegion.old (hm : MapsRegion a v root guestPhys size r h h') {r' : MemoryRegion}
    (hr' : r'.Mapped h.mem root) (hapart : guestPhys.toNat + size.toNat ≤ r'.guestPhys.toNat ∨
      r'.guestPhys.toNat + r'.size.toNat ≤ guestPhys.toNat) : r'.Mapped h'.mem root := by
  obtain ⟨m, habi, hsame, hlooks⟩ := hm.looks
  have hguest := hr'.guest
  have hsize := hr'.size
  have hlimit := hr'.below
  refine hr'.congr (hlooks.abi.trans habi) fun gpa k hk hpage => ?_
  rw [hlooks.other gpa fun k' _ hk' heq => ?_, hsame _ _ (eptPath_length gpa)]
  rw [pageCount_aligned hd' hbelow] at hk'
  rw [guestPage_add, hpage] at heq
  omega

end MapsRegion

/-! ## Starting a VM -/

/-- Memory has only been asked for since `m₀`. -/
def Grown (m₀ : PhysMem) (h : Host) : Prop := Allocates m₀ h.mem

section Starting

variable {m₀ : PhysMem}

theorem putVcpu_grown (c : Addr) (u : Nexusvcpu) : Preserves (Grown m₀) (putVcpu c u) :=
  .modify fun _ hg => hg

theorem putVm_grown (a : Addr) (v : Nexusvm) : Preserves (Grown m₀) (putVm a v) :=
  .modify fun _ hg => hg

theorem putEntity_grown (e : Addr) (s : SchedEntity) : Preserves (Grown m₀) (putEntity e s) :=
  .modify fun _ hg => hg

theorem getLinks_grown : Preserves (Grown m₀) getLinks := Preserves.get.bind fun _ => .pure _

theorem putLinks_grown (l : DList.Links Node) : Preserves (Grown m₀) (putLinks l) :=
  .modify fun _ hg => hg

theorem homeCpu_grown (u : Nexusvcpu) : Preserves (Grown m₀) (homeCpu u) :=
  Preserves.get.bind fun _ => .ite ((Preserves.require _).bind fun _ => .pure _) (.pure _)

theorem calloc_grown (kind : BlockKind) (count size : ℕ) :
    Preserves (Grown m₀) (calloc kind count size) := by
  intro h hg
  refine wlp_mono (calloc_spec kind count size h).wlp ?_
  rintro o _ ⟨m, rfl, ha, -⟩
  exact hg.trans ha

theorem schedulerAddVcpu_grown (c : Addr) : Preserves (Grown m₀) (schedulerAddVcpu (some c)) := by
  refine (Preserves.fetch _).bind fun u => (homeCpu_grown u).bind fun cpu => ?_
  cases u.schedEntity with
  | some e => exact getLinks_grown.bind fun _ => (putLinks_grown _).bind fun _ => .pure _
  | none =>
    refine (calloc_grown _ _ _).bind fun o => ?_
    cases o with
    | none => exact .pure _
    | some e =>
      refine (Preserves.fetch _).bind fun v => (putVcpu_grown c _).bind fun _ => ?_
      refine (putEntity_grown e _).bind fun _ => ?_
      exact getLinks_grown.bind fun _ => (putLinks_grown _).bind fun _ => .pure _

theorem schedulerRemoveVcpu_grown (c : Addr) :
    Preserves (Grown m₀) (schedulerRemoveVcpu (some c)) := by
  refine (Preserves.fetch _).bind fun u => ?_
  cases u.schedEntity with
  | none => exact .pure _
  | some e =>
    refine (homeCpu_grown u).bind fun _ => ?_
    exact getLinks_grown.bind fun _ => (putLinks_grown _).bind fun _ => .pure _

theorem setupOutcome_grown : Preserves (Grown m₀) setupOutcome := by
  intro h hg
  simp only [setupOutcome, wlp_bind, wlp_get, wlp_set, wlp_pure]
  exact hg

theorem vcpuVendorSetup_grown (c : Addr) : Preserves (Grown m₀) (vcpuVendorSetup c) := by
  refine (Preserves.fetch _).bind fun hv => ?_
  cases hv.cpuVendor with
  | unknown => exact .pure _
  | intel =>
    refine (Preserves.fetch _).bind fun u => .ite (.pure _) ?_
    exact Preserves.get.bind fun _ => (putVcpu_grown c _).bind fun _ => setupOutcome_grown
  | amd => exact (Preserves.fetch _).bind fun u => .ite (.pure _) setupOutcome_grown

theorem vcpuStop_grown (c : Addr) : Preserves (Grown m₀) (vcpuStop (some c)) :=
  (Preserves.fetch _).bind fun _ => (putVcpu_grown c _).bind fun _ =>
    (schedulerRemoveVcpu_grown c).bind fun _ => .pure _

theorem vcpuStart_grown (c : Addr) : Preserves (Grown m₀) (vcpuStart (some c)) := by
  have hrest : Preserves (Grown m₀) (do
      putVcpu c { ← getVcpu c with running := true }
      let _ ← schedulerAddVcpu (some c)
      return Result.ok) :=
    (Preserves.fetch _).bind fun _ => (putVcpu_grown c _).bind fun _ =>
      (schedulerAddVcpu_grown c).bind fun _ => .pure _
  refine (Preserves.fetch _).bind fun u => .ite (.pure _) (.ite ?_ hrest)
  refine (vcpuVendorSetup_grown c).bind fun r => .ite (.pure _) ?_
  exact (Preserves.fetch _).bind fun _ => (putVcpu_grown c _).bind fun _ => hrest

theorem startVcpus_grown (started cs : List Addr) : Preserves (Grown m₀) (startVcpus started cs) := by
  induction cs generalizing started with
  | nil => exact .pure _
  | cons c cs ih =>
    refine (vcpuStart_grown c).bind fun r => .ite ?_ (ih _)
    exact (Preserves.forEach fun d _ => (vcpuStop_grown d).discard).bind fun _ => .pure _

/-- **`vm_start` only asks for memory.** -/
theorem vmStart_grown (a : Addr) : Preserves (Grown m₀) (vmStart (some a)) := by
  refine (Preserves.fetch _).bind fun v => .ite (.pure _) (.ite (.pure _) ?_)
  refine (startVcpus_grown [] v.vcpus).bind fun r => .ite (.pure _) ?_
  exact (Preserves.fetch _).bind fun _ => (putVm_grown a _).bind fun _ => .pure _

end Starting

/-! ## Calls on a VM -/

/-- An allocation for a VM, or a call of its life. -/
inductive GuestOp
  | alloc (guestPhys size : UInt64) (regionType : MemoryRegionType)
  | lifecycle (op : LifecycleOp)

def GuestOp.run (vm : Addr) : GuestOp → HostM Unit
  | .alloc guestPhys size regionType => discard (vmAllocMemory (some vm) guestPhys size regionType)
  | .lifecycle op => discard (op.run vm)

/-- An allocation is aligned, lies below 2⁴⁸, overlaps no region of the VM, and is refused no memory. -/
def GuestOp.Proper (vm : Addr) : GuestOp → Host → Prop
  | .alloc guestPhys size regionType, h => 4096 ∣ guestPhys.toNat ∧ 4096 ∣ size.toNat ∧
    guestPhys.toNat + size.toNat ≤ 2 ^ 48 ∧
    (∀ v ∈ h.vms vm, ∀ r ∈ v.regions, guestPhys.toNat + size.toNat ≤ r.guestPhys.toNat ∨
      r.guestPhys.toNat + r.size.toNat ≤ guestPhys.toNat) ∧
    (MemoryOp.alloc vm guestPhys size regionType).Served h
  | .lifecycle _, _ => True

instance GuestOp.decidableProper (vm : Addr) (op : GuestOp) (h : Host) : Decidable (op.Proper vm h) := by
  cases op <;> unfold GuestOp.Proper <;> infer_instance

/-- The call is no cold reset of a VM that has regions. -/
def GuestOp.KeepsTables (vm : Addr) : GuestOp → Host → Prop
  | .lifecycle (.reset true), h => ∀ v ∈ h.vms vm, v.memoryRegionCount = 0
  | _, _ => True

instance GuestOp.decidableKeepsTables (vm : Addr) (op : GuestOp) (h : Host) :
    Decidable (op.KeepsTables vm h) := by
  unfold GuestOp.KeepsTables
  split <;> infer_instance

/-- What every call keeps. -/
structure RegionInv (a : Addr) (h : Host) : Prop where
  hv : HvInv h
  mapped : ∃ lbl, Separated lbl h ∧ ∃ v root, h.vms a = some v ∧ v.eptRoot = some root ∧
    lbl root = some (root, []) ∧ ∀ r ∈ v.regions, r.Mapped h.mem root

theorem RegionInv.agree (hi : RegionInv a h) : RegionsAgree h a := by
  obtain ⟨lbl, hs, v, root, hv, hroot, hl, hmapped⟩ := hi.mapped
  intro w hw r hr off hoff
  rw [hv] at hw
  cases hw
  exact (hmapped r hr).translate hs.trees hs.slots hv hroot hl hoff

theorem PhysMem.resetRoot_warm (m : PhysMem) (root : Option Addr) : m.resetRoot root false = m := by
  cases root <;> rfl

theorem LifeStep.allocates {op : LifecycleOp} (hs : LifeStep a v h op h')
    (hstart : op = .start → Allocates h.mem h'.mem) (hwarm : op ≠ .reset true) :
    Allocates h.mem h'.mem := by
  cases hs with
  | start => exact hstart rfl
  | @stop h₁ _ hstop =>
    have hmem : (h₁.setVm a (some { v with state := .shutdown })).mem = h.mem := hstop.mem
    rw [hmem]
    exact Allocates.refl _
  | pause | resume => exact Allocates.refl _
  | @reset cold h₁ hstop =>
    cases cold with
    | true => exact absurd rfl hwarm
    | false =>
      change Allocates h.mem (h₁.mem.resetRoot v.eptRoot false)
      rw [PhysMem.resetRoot_warm, hstop.mem]
      exact Allocates.refl _

theorem VmStep.sameMemory {s : VmState} (hv : h.vms a = some v) (hs : VmStep a v s h h') :
    h'.vms a = some { v with state := s } ∧
      ∀ b w, h'.vms b = some w → ∃ x, h.vms b = some x ∧ SameMemory x w := by
  obtain ⟨h₁, m, ht, -, rfl⟩ := hs
  refine ⟨Function.update_self _ _ _, fun b w hw => ?_⟩
  rw [Host.setVm_vms, Host.setMem_vms, ht.vms] at hw
  by_cases hba : b = a
  · subst hba
    rw [Function.update_self] at hw
    cases hw
    exact ⟨v, hv, rfl, rfl, rfl⟩
  · rw [Function.update_of_ne hba] at hw
    exact ⟨w, hw, SameMemory.refl w⟩

/-- **Each call keeps the regions mapped.** -/
theorem GuestOp.spec (hi : RegionInv a h) {op : GuestOp} (hp : op.Proper a h) (hC : op.KeepsTables a h) :
    wlp (op.run a) (fun _ h' => RegionInv a h') h := by
  obtain ⟨lbl, hs, v, root, hv, hroot, hl, hmapped⟩ := hi.mapped
  cases op with
  | alloc guestPhys size regionType =>
    obtain ⟨hd, hd', hbelow, hapart, hserved⟩ := hp
    rw [MemoryOp.Served, MemoryOp.run, wlp_discard] at hserved
    rw [GuestOp.run, wlp_discard]
    intro r h' hrun
    have hrefused := hserved r h' hrun
    have hsize : size ≠ WRAPPING_SIZE := by
      rintro rfl
      exact absurd hbelow (by simp [WRAPPING_SIZE])
    rcases vmAllocMemory_spec hs hv hsize guestPhys regionType r h' hrun hrefused with
      rfl | ⟨_, lbl', hal⟩
    · exact hi
    rcases vmAllocMemory_maps hs hv hroot hl (by omega) regionType r h' hrun hrefused with rfl | ⟨x, hm⟩
    · exact hi
    have hself : h'.vms a = some (v.addRegion x) := by
      rw [hm.vms, Function.update_self]
    refine ⟨hal.hvInv hi.hv hv hroot, lbl', hal.separated hi.hv hs hv, v.addRegion x, root, hself, hroot,
      (hal.maps root hroot).grows.keep root _ hl, fun y hy => ?_⟩
    rw [Nexusvm.regions_addRegion hm.room (hs.own a v hv).room, List.mem_append, List.mem_singleton] at hy
    rcases hy with hy | rfl
    · exact hm.old hd hd' hbelow (hmapped y hy) (hapart v hv y hy)
    · exact hm.mapped hd hd' hbelow
  | lifecycle op =>
    intro r h' hrun
    obtain ⟨hi', rfl | hstep⟩ := hvOp_spec hi.hv (.lifecycle op a) r h' hrun
    · exact hi
    cases hstep with
    | lifecycle hv' hlife =>
      rw [hv] at hv'
      cases hv'
      obtain ⟨s, hvm⟩ := hlife.vmStep hv
      obtain ⟨hself, hold⟩ := hvm.sameMemory hv
      by_cases hcold : op = .reset true
      · -- a cold reset of a VM without regions
        subst hcold
        refine ⟨hi', lbl, hs.reset hv hlife, _, root, hself, hroot, hl, fun x hx => ?_⟩
        rw [Nexusvm.regions, hC v hv] at hx
        cases hx
      · have halloc : Allocates h.mem h'.mem := by
          refine hlife.allocates (fun hstart => ?_) hcold
          subst hstart
          have hgrown : Preserves (Grown h.mem) (discard (vmStart (some a))) := (vmStart_grown a).discard
          exact hgrown h (Allocates.refl _) r h' hrun
        refine ⟨hi', lbl, hs.sameMemory halloc hold, _, root, hself, hroot, hl, fun x hx => ?_⟩
        refine (hmapped x hx).congr halloc.abi fun gpa k _ _ => ?_
        exact hs.trees.look_allocates halloc _ hl (eptPath_length gpa)

/-- **Runs.** A VM without regions is given regions, started, stopped, paused, resumed and reset, in any
order. Every region is mapped, byte by byte, as long as no cold reset clears the tables of a VM that has
regions. -/
theorem regions_agree {h₀ : Host} (hi : MemoryInv h₀) (hv : h₀.vms a = some v)
    (hnone : v.memoryRegionCount = 0) {ops : List GuestOp}
    (hC : Along (GuestOp.run a) (fun op h => op.Proper a h ∧ op.KeepsTables a h) ops h₀)
    (hrun : (runOps (GuestOp.run a) ops).run h₀ = some ((), h)) : RegionsAgree h a := by
  obtain ⟨lbl, hs⟩ := hi.separated
  obtain ⟨root, hroot, hl, -⟩ := (hs.own a v hv).root
  have hstart : RegionInv a h₀ := by
    refine ⟨hi.hv, lbl, hs, v, root, hv, hroot, hl, fun r hr => ?_⟩
    rw [Nexusvm.regions, hnone] at hr
    cases hr
  have hend : RegionInv a h := wlp_runOps
    (fun op h hC hI => GuestOp.spec hI hC.1 hC.2) hC hstart () h hrun
  exact hend.agree

theorem created_memoryInv : ∃ h v, (MemoryOp.create { vcpuCount := 1, memoryRegionCount := 2 }).run.run
    (bootHost 1 .intel) = some ((), h) ∧ MemoryInv h ∧ h.vms 16384 = some v ∧ v.memoryRegionCount = 0 := by
  have hres : ((MemoryOp.create { vcpuCount := 1, memoryRegionCount := 2 }).run.run
      (bootHost 1 .intel)).any (fun p => ∃ v ∈ p.2.vms 16384, v.memoryRegionCount = 0) = true := by
    decide +kernel
  obtain ⟨⟨⟨⟩, h⟩, hrun, hres⟩ := (Option.any_eq_true _ _).mp hres
  obtain ⟨v, hv, hnone⟩ := of_decide_eq_true hres
  have hi := (boot_bootHost (n := 1) (by decide) .intel).memoryInv rfl (by decide)
  have hserved : (MemoryOp.create { vcpuCount := 1, memoryRegionCount := 2 }).Served
      (bootHost 1 .intel) := by
    decide +kernel
  have hwhole : (MemoryOp.create { vcpuCount := 1, memoryRegionCount := 2 }).Whole := trivial
  exact ⟨h, v, hrun, memoryOp_spec hi hwhole hserved () h hrun, hv, hnone⟩

theorem regions_agree_two_regions : ∃ h₀ h,
    (MemoryOp.create { vcpuCount := 1, memoryRegionCount := 2 }).run.run (bootHost 1 .intel) =
      some ((), h₀) ∧
    (runOps (GuestOp.run 16384) [.lifecycle (.reset true), .alloc 0 8192 .ram, .lifecycle .start,
      .lifecycle .pause, .lifecycle (.reset false), .alloc 0x100000 4096 .ram]).run h₀ = some ((), h) ∧
    RegionsAgree h 16384 := by
  obtain ⟨h₀, v, hcreate, hi, hv, hnone⟩ := created_memoryInv
  have hres : ((MemoryOp.create { vcpuCount := 1, memoryRegionCount := 2 }).run.run
      (bootHost 1 .intel)).all (fun p => Along (GuestOp.run 16384)
        (fun op h => op.Proper 16384 h ∧ op.KeepsTables 16384 h)
        [.lifecycle (.reset true), .alloc 0 8192 .ram, .lifecycle .start, .lifecycle .pause,
          .lifecycle (.reset false), .alloc 0x100000 4096 .ram] p.2 ∧
      ((runOps (GuestOp.run 16384) [.lifecycle (.reset true), .alloc 0 8192 .ram, .lifecycle .start,
        .lifecycle .pause, .lifecycle (.reset false), .alloc 0x100000 4096 .ram]).run p.2).isSome) =
      true := by
    decide +kernel
  rw [hcreate] at hres
  obtain ⟨hC, hsome⟩ := of_decide_eq_true hres
  obtain ⟨⟨⟨⟩, h⟩, hrun⟩ := Option.isSome_iff_exists.mp hsome
  exact ⟨h₀, h, hcreate, hrun, regions_agree hi hv hnone hC hrun⟩

/-- **A cold reset loses the mapping of a region that stays in the table.** -/
theorem cold_reset_unmaps : ∃ h₀ h,
    (MemoryOp.create { vcpuCount := 1, memoryRegionCount := 2 }).run.run (bootHost 1 .intel) =
      some ((), h₀) ∧
    Along (GuestOp.run 16384) (GuestOp.Proper 16384) [.alloc 0x1000 4096 .ram, .lifecycle (.reset true)]
      h₀ ∧
    (runOps (GuestOp.run 16384) [.alloc 0x1000 4096 .ram, .lifecycle (.reset true)]).run h₀ =
      some ((), h) ∧ ¬ RegionsAgree h 16384 := by
  obtain ⟨h₀, -, hcreate, -⟩ := created_memoryInv
  have hres : ((MemoryOp.create { vcpuCount := 1, memoryRegionCount := 2 }).run.run
      (bootHost 1 .intel)).all (fun p => Along (GuestOp.run 16384) (GuestOp.Proper 16384)
        [.alloc 0x1000 4096 .ram, .lifecycle (.reset true)] p.2 ∧
      ((runOps (GuestOp.run 16384) [.alloc 0x1000 4096 .ram, .lifecycle (.reset true)]).run p.2).any
        fun t => ((vmGpaToHpa (some 16384) 0x1000).run t.2).map Prod.fst = some INVALID_PHYS_ADDR ∧
          ∃ v ∈ t.2.vms 16384, ∃ r ∈ v.regions, r.guestPhys = 0x1000 ∧ r.size = 4096 ∧
            r.hostPhys ≠ INVALID_PHYS_ADDR) = true := by
    decide +kernel
  rw [hcreate] at hres
  obtain ⟨hproper, hres⟩ := of_decide_eq_true hres
  obtain ⟨⟨⟨⟩, h⟩, hrun, hres⟩ := (Option.any_eq_true _ _).mp hres
  obtain ⟨hlost, v, hv, r, hr, hguest, hsize, hhost⟩ := of_decide_eq_true hres
  refine ⟨h₀, h, hcreate, hproper, hrun, fun hagree => ?_⟩
  have htranslate := hagree v hv r hr 0 (by rw [hsize]; decide)
  rw [hguest, UInt64.add_zero, UInt64.add_zero] at htranslate
  rw [htranslate, Option.map_some, Option.some.injEq] at hlost
  exact hhost hlost

end NexusVM
