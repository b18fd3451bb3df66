import NexusVM.Effects
import NexusVM.Affinity

/-!
# The ids of the vCPUs

`vm_create` numbers the vCPUs of a VM, and a scheduling entity takes over the number of its vCPU. The
set-up of a vCPU on Intel stores the result of `vmx_on` in that place.

* `Host.CarriesId`: a vCPU and its entity carry a number;
* `VcpuCall`: the calls on the VMs, with those of the scheduler;
* `Host.setupsKeepIds`: whether the set-ups that a start makes leave the numbers as they are;
* `vmCreate_ids`, **`vcpu_ids_stable_iff`**: the numbers at the start of a run, and in its course.
-/

namespace NexusVM

open Prog

variable {P : Addr → Prop} {h h' h₀ h₁ h₂ : Host} {a b c d : Addr} {v : Nexusvm} {u : Nexusvcpu}
  {cs : List Addr} {r : Result} {i k : ℕ}

/-! ## Numbers -/

/-- A vCPU and the entity it may have carry the id `i`. -/
def Host.CarriesId (h : Host) (c : Addr) (i : ℕ) : Prop :=
  ∃ u, h.vcpus c = some u ∧ u.vcpuId.toNat = i ∧
    ∀ e, u.schedEntity = some e → ∃ s, h.entities e = some s ∧ s.vcpuId.toNat = i

/-- Every vCPU of the VM at `a` carries its index. -/
def IdsAgree (h : Host) (a : Addr) : Prop :=
  ∃ v, h.vms a = some v ∧ ∀ i < v.vcpuCount.toNat, ∃ c, v.vcpus[i]? = some c ∧ h.CarriesId c i

/-- The vCPUs of a list carry their indices. -/
def Host.Numbered (h : Host) (cs : List Addr) : Prop := ∀ i c, cs[i]? = some c → h.CarriesId c i

theorem idsAgree_iff (hv : h.vms a = some v) (hcount : v.vcpus.length = v.vcpuCount.toNat) :
    IdsAgree h a ↔ h.Numbered v.vcpus := by
  constructor
  · rintro ⟨w, hw, hids⟩ i c hc
    obtain rfl : v = w := Option.some.inj (hv.symm.trans hw)
    obtain ⟨hi, -⟩ := List.getElem?_eq_some_iff.mp hc
    obtain ⟨c', hc', hcarry⟩ := hids i (by omega)
    obtain rfl : c = c' := Option.some.inj (hc.symm.trans hc')
    exact hcarry
  · intro hids
    refine ⟨v, hv, fun i hi => ?_⟩
    have hget : v.vcpus[i]? = some v.vcpus[i] := List.getElem?_eq_getElem (by omega)
    exact ⟨_, hget, hids i _ hget⟩

/-- The number of a vCPU is that of its record, which is the same, and that of its entity, which stays. -/
theorem carriesId_congr (hl : Layout P h) (hc : h'.vcpus c = h.vcpus c)
    (hent : ∀ e s, h.entities e = some s → h'.entities e = some s) : h'.CarriesId c i ↔ h.CarriesId c i := by
  unfold Host.CarriesId
  rw [hc]
  refine exists_congr fun u => and_congr_right fun hu => and_congr_right fun _ => forall₂_congr fun e he => ?_
  obtain ⟨s, hs⟩ := hl.entity c u e hu he
  rw [hent e s hs, hs]

/-- The ids are left alone. -/
structure SameIds (h h' : Host) : Prop where
  vcpus : ∀ c u, h.vcpus c = some u → ∃ u', h'.vcpus c = some u' ∧ u'.vcpuId = u.vcpuId ∧
    ∀ e, u'.schedEntity = some e →
      u.schedEntity = some e ∨ ∃ s, h'.entities e = some s ∧ s.vcpuId = u.vcpuId
  entities : ∀ e s, h.entities e = some s → ∃ s', h'.entities e = some s' ∧ s'.vcpuId = s.vcpuId

theorem SameIds.carriesId (hs : SameIds h h') (hc : h.CarriesId c i) : h'.CarriesId c i := by
  obtain ⟨u, hu, hid, hent⟩ := hc
  obtain ⟨u', hu', hid', hent'⟩ := hs.vcpus c u hu
  refine ⟨u', hu', hid' ▸ hid, fun e he => ?_⟩
  rcases hent' e he with hold | ⟨s, hs', hsid⟩
  · obtain ⟨s, hs₁, hsid⟩ := hent e hold
    obtain ⟨s', hs', hsid'⟩ := hs.entities e s hs₁
    exact ⟨s', hs', hsid' ▸ hsid⟩
  · exact ⟨s, hs', hsid ▸ hid⟩

theorem SameIds.of_eq (hvcpus : h'.vcpus = h.vcpus) (hent : h'.entities = h.entities) : SameIds h h' :=
  ⟨fun c u hu => ⟨u, by rw [hvcpus, hu], rfl, fun _ => .inl⟩, fun e s hs => ⟨s, by rw [hent, hs], rfl⟩⟩

theorem SameIds.setVcpu {u' : Nexusvcpu} (hu : h.vcpus c = some u) (hid : u'.vcpuId = u.vcpuId)
    (hse : u'.schedEntity = u.schedEntity) : SameIds h (h.setVcpu c (some u')) := by
  refine ⟨fun d w hw => ?_, fun e s hs => ⟨s, hs, rfl⟩⟩
  by_cases hdc : d = c
  · subst hdc
    obtain rfl : u = w := Option.some.inj (hu.symm.trans hw)
    exact ⟨u', Host.setVcpu_self _ _ _, hid, fun e he => .inl (hse ▸ he)⟩
  · exact ⟨w, (Function.update_of_ne hdc _ _).trans hw, rfl, fun _ => .inl⟩

theorem SameIds.setEntity {e : Addr} {s s' : SchedEntity} (he : h.entities e = some s)
    (hid : s'.vcpuId = s.vcpuId) : SameIds h (h.setEntity e (some s')) := by
  refine ⟨fun c u hu => ⟨u, hu, rfl, fun _ => .inl⟩, fun f t ht => ?_⟩
  by_cases hfe : f = e
  · subst hfe
    obtain rfl : s = t := Option.some.inj (he.symm.trans ht)
    exact ⟨s', Function.update_self _ _ _, hid⟩
  · exact ⟨t, (Function.update_of_ne hfe _ _).trans ht, rfl⟩

theorem carriesId_mapVcpus {f : Nexusvcpu → Nexusvcpu} (hid : ∀ u, (f u).vcpuId = u.vcpuId)
    (hse : ∀ u, (f u).schedEntity = u.schedEntity) : (h.mapVcpus cs f).CarriesId c i ↔ h.CarriesId c i := by
  unfold Host.CarriesId
  by_cases hc : c ∈ cs
  · rw [Host.mapVcpus_vcpus_of_mem hc]
    cases h.vcpus c with
    | none => simp
    | some u =>
      simp only [Option.map_some, Option.some.injEq, exists_eq_left', hid, hse]
      rfl
  · rw [Host.mapVcpus_vcpus_of_notMem hc]
    rfl

theorem carriesId_stopVcpus : (h.stopVcpus cs).CarriesId c i ↔ h.CarriesId c i :=
  carriesId_mapVcpus (fun _ => rfl) fun _ => rfl

theorem Adds.sameIds (hl : Layout P h) (hu : h.vcpus c = some u) (ha : Adds c u h r h') : SameIds h h' := by
  refine ⟨fun d w hw => ?_, fun e s hs => ⟨s, ha.entities hl hs, rfl⟩⟩
  cases ha with
  | again | noMemory => exact ⟨w, hw, rfl, fun _ => .inl⟩
  | @fresh e vmId hnone hfit =>
    by_cases hdc : d = c
    · subst hdc
      obtain rfl : u = w := Option.some.inj (hu.symm.trans hw)
      refine ⟨_, Function.update_self _ _ _, rfl, fun e' he' => .inr ?_⟩
      obtain rfl : e = e' := Option.some.inj he'
      exact ⟨newEntity u vmId, Function.update_self _ _ _, rfl⟩
    · exact ⟨w, (Function.update_of_ne hdc _ _).trans hw, rfl, fun _ => .inl⟩

theorem SchedStep.sameIds (hl : Layout P h) {op : SchedOp} (hs : SchedStep h op h') : SameIds h h' := by
  cases hs with
  | add hu ha => exact ha.sameIds hl hu
  | remove | yield | wake | loadBalance => exact .of_eq rfl rfl
  | migrate hu => exact .setVcpu hu rfl rfl

/-! ## Set-ups -/

/-- The set-ups that a start of the vCPUs makes, with the numbers from `k` on, leave the ids as they are,
where the first of these vCPUs has the index `i`. Only the set-up of the vCPU with index 0 can, and it does
where `vmx_on` has no failure to report. -/
def Host.setupsKeepIds (h : Host) : ℕ → ℕ → List Addr → Bool
  | _, _, [] => true
  | k, i, c :: cs =>
    match h.vcpus c with
    | none => true
    | some u =>
      if u.running || u.initialized then h.setupsKeepIds k (i + 1) cs
      else if u.canSetUp .intel then
        i == 0 && !h.vendor.vmxOnFails k && (h.vendor.setup k ≠ .ok || h.setupsKeepIds (k + 1) (i + 1) cs)
      -- the start ends here
      else true

theorem setupsKeepIds_congr (hvcpus : ∀ c ∈ cs, h'.vcpus c = h.vcpus c) (hvendor : h'.vendor = h.vendor) :
    h'.setupsKeepIds k i cs = h.setupsKeepIds k i cs := by
  induction cs generalizing k i with
  | nil => rfl
  | cons c cs ih =>
    have hrest := fun k i => ih (k := k) (i := i) fun d hd => hvcpus d (List.mem_cons_of_mem _ hd)
    simp only [Host.setupsKeepIds, hvcpus c List.mem_cons_self, hvendor, hrest]

theorem VcpuStarts.vcpus_of_ne (hs : VcpuStarts c u h r h') (hu : h.vcpus c = some u) (hd : d ≠ c) :
    h'.vcpus d = h.vcpus d := by
  obtain ⟨u', hvcpus, -⟩ := hs.vcpus hu
  rw [hvcpus, Function.update_of_ne hd]

/-- The id of a vCPU after a start. -/
def Host.startId (h : Host) (u : Nexusvcpu) : UInt32 :=
  if u.running || u.initialized then u.vcpuId else (h.setupVcpu u).vcpuId

theorem startId_iff (hintel : h.hv.cpuVendor = .intel) (hu : h.vcpus c = some u) (hid : u.vcpuId.toNat = i)
    (hi : i < 2 ^ 32 - 1) : (h.startId u).toNat = i ↔ h.setupsKeepIds h.setups i [c] = true := by
  simp only [Host.setupsKeepIds, hu, Host.startId]
  split_ifs with hrun hcan
  · simpa using hid
  · rw [Host.setupVcpu, if_pos ⟨hintel, hcan⟩]
    cases h.vendor.vmxOnFails h.setups with
    | false =>
      rw [eq_comm]
      simp
    | true =>
      have hne : (0xFFFFFFFF : UInt32).toNat ≠ i := by
        rw [show (0xFFFFFFFF : UInt32).toNat = 2 ^ 32 - 1 from rfl]
        omega
      exact iff_of_false (fun hc => hne hc) (by simp)
  · rw [Host.setupVcpu, if_neg fun hc => hcan hc.2]
    simpa using hid

theorem VcpuStarts.record (hl : Layout P h) (hs : VcpuStarts c u h r h') (hu : h.vcpus c = some u) :
    ∃ u', h'.vcpus c = some u' ∧ u'.vcpuId = h.startId u ∧ ∀ e, u'.schedEntity = some e →
      u.schedEntity = some e ∨ ∃ s, h'.entities e = some s ∧ s.vcpuId = h.startId u := by
  cases hs with
  | running hrun => exact ⟨u, hu, by simp [Host.startId, hrun], fun _ => .inl⟩
  | failed hrun hinit =>
    obtain ⟨id, hid⟩ := setupVcpu_eq h u
    refine ⟨h.setupVcpu u, Host.setVcpu_self h _ _, by simp [Host.startId, hrun, hinit], fun e he => .inl ?_⟩
    rwa [hid] at he
  | added hrun _ ha =>
    have hbefore := hl.beforeAdd hu
    have hself : (h.startedVcpu u).vcpuId = h.startId u := by
      simp only [Host.startedVcpu, Host.startId, hrun, Bool.false_or]
      split_ifs <;> rfl
    obtain ⟨u', hu', hid, hent⟩ := (ha.sameIds hbefore beforeAdd_vcpus).vcpus c _ beforeAdd_vcpus
    refine ⟨u', hu', hid.trans hself, fun e he => ?_⟩
    rw [hself] at hent
    obtain ⟨id, hstarted⟩ := startedVcpu_eq h u
    rw [hstarted] at hent
    exact hent e he

theorem VcpuStarts.carriesId (hl : Layout P h) (hintel : h.hv.cpuVendor = .intel)
    (hs : VcpuStarts c u h r h') (hu : h.vcpus c = some u) (hc : h.CarriesId c i) (hi : i < 2 ^ 32 - 1) :
    h'.CarriesId c i ↔ h.setupsKeepIds h.setups i [c] = true := by
  obtain ⟨w, hw, hid, hent⟩ := hc
  obtain rfl : u = w := Option.some.inj (hu.symm.trans hw)
  obtain ⟨u', hu', hid', hent'⟩ := hs.record hl hu
  rw [← startId_iff hintel hu hid hi]
  constructor
  · rintro ⟨w, hw, hwid, -⟩
    obtain rfl : u' = w := Option.some.inj (hu'.symm.trans hw)
    rwa [hid'] at hwid
  · intro hstart
    refine ⟨u', hu', hid' ▸ hstart, fun e he => ?_⟩
    rcases hent' e he with hold | ⟨s, hs', hsid⟩
    · obtain ⟨s, hs', hsid⟩ := hent e hold
      exact ⟨s, hs.entities hl hu hs', hsid⟩
    · exact ⟨s, hs', hsid ▸ hstart⟩

theorem VcpuStarts.setupsKeepIds (hintel : h.hv.cpuVendor = .intel) (hs : VcpuStarts c u h .ok h')
    (hu : h.vcpus c = some u) (hc : c ∉ cs) : h.setupsKeepIds h.setups i (c :: cs) =
      (h.setupsKeepIds h.setups i [c] && h'.setupsKeepIds h'.setups (i + 1) cs) := by
  have hrest : ∀ k, h'.setupsKeepIds k (i + 1) cs = h.setupsKeepIds k (i + 1) cs := by
    intro k
    refine setupsKeepIds_congr (fun d hd => hs.vcpus_of_ne hu ?_) hs.same.statics.vendor
    rintro rfl
    exact hc hd
  rw [hrest]
  simp only [Host.setupsKeepIds, hu]
  generalize hr : Result.ok = r at hs
  cases hs with
  | running hrun => simp [hrun]
  | failed _ _ hne => exact absurd hr.symm hne
  | added hrun hok ha =>
    rw [ha.setups, Host.beforeAdd]
    by_cases hinit : u.initialized = true
    · simp [hinit, Host.setVcpu]
    · have hres : h.setupResult u = .ok := hok.resolve_left hinit
      rw [Host.setupResult, hintel] at hres
      have hcan : u.canSetUp .intel = true := by
        by_contra hcan
        rw [if_neg hcan, if_neg (by simp)] at hres
        cases hres
      rw [if_pos hcan] at hres
      simp [hrun, hinit, hcan, hres, Host.setVcpu, Host.afterSetup, hintel]

theorem StartsSeq.setupsKeepIds {ds : List Addr} (hintel : h₀.hv.cpuVendor = .intel)
    (hnd : (cs ++ ds).Nodup) (hs : StartsSeq h₀ cs h) : h₀.setupsKeepIds h₀.setups 0 (cs ++ ds) =
      (h₀.setupsKeepIds h₀.setups 0 cs && h.setupsKeepIds h.setups cs.length ds) := by
  induction hs generalizing ds with
  | nil => rfl
  | @snoc cs c u h₁ h₂ hs hu hstart ih =>
    have hcds : c ∉ ds ∧ (cs ++ [c]).Nodup := by
      rw [List.append_assoc, List.singleton_append] at hnd
      refine ⟨(List.nodup_cons.mp (List.nodup_append.mp hnd).2.1).1, ?_⟩
      rw [← List.singleton_append, ← List.append_assoc] at hnd
      exact (List.nodup_append.mp hnd).1
    have hintel' : h₁.hv.cpuVendor = .intel := by
      rw [hs.same.hv]
      exact hintel
    rw [List.append_assoc, List.singleton_append, ih (by simpa using hnd), ih hcds.2,
      hstart.setupsKeepIds hintel' hu hcds.1, Bool.and_assoc, List.length_append, List.length_singleton]

theorem VcpuStarts.numbered (hl : Layout P h) (hintel : h.hv.cpuVendor = .intel)
    (hs : VcpuStarts c u h r h') (hu : h.vcpus c = some u) (hnd : cs.Nodup) (hget : cs[i]? = some c)
    (hlen : cs.length < 2 ^ 32) (hc : h.CarriesId c i) :
    h'.Numbered cs ↔ h.Numbered cs ∧ h.setupsKeepIds h.setups i [c] = true := by
  obtain ⟨hi, -⟩ := List.getElem?_eq_some_iff.mp hget
  have hself := hs.carriesId hl hintel hu hc (by omega)
  have hother : ∀ j d, d ≠ c → (h'.CarriesId d j ↔ h.CarriesId d j) := fun j d hd =>
    carriesId_congr hl (hs.vcpus_of_ne hu hd) fun e s he => hs.entities hl hu he
  constructor
  · intro hids
    refine ⟨fun j d hd => ?_, hself.mp (hids i c hget)⟩
    by_cases hdc : d = c
    · subst hdc
      obtain rfl : i = j := (List.getElem?_inj hi hnd).mp (hget.trans hd.symm)
      exact hc
    · exact (hother j d hdc).mp (hids j d hd)
  · rintro ⟨hids, hkeep⟩ j d hd
    by_cases hdc : d = c
    · subst hdc
      obtain rfl : i = j := (List.getElem?_inj hi hnd).mp (hget.trans hd.symm)
      exact hself.mpr hkeep
    · exact (hother j d hdc).mpr (hids j d hd)

theorem StartsSeq.carriesId (hl : Layout P h₀) (hs : StartsSeq h₀ cs h) (hc : c ∉ cs) :
    h.CarriesId c i ↔ h₀.CarriesId c i :=
  carriesId_congr hl (hs.vcpus_of_notMem hc) fun _ _ he => hs.entities hl he

/-- **The loop of `vm_start`** keeps the numbers just if its set-ups do. -/
theorem StartsSeq.numbered {ds : List Addr} (hl : Layout P h₀) (hintel : h₀.hv.cpuVendor = .intel)
    (hnd : (cs ++ ds).Nodup) (hlen : (cs ++ ds).length < 2 ^ 32) (hids : h₀.Numbered (cs ++ ds))
    (hs : StartsSeq h₀ cs h) : h.Numbered (cs ++ ds) ↔ h₀.setupsKeepIds h₀.setups 0 cs = true := by
  induction hs generalizing ds with
  | nil => exact iff_of_true hids rfl
  | @snoc cs c u h₁ h₂ hs hu hstart ih =>
    rw [List.append_assoc, List.singleton_append] at hnd hids hlen ⊢
    have hget : (cs ++ c :: ds)[cs.length]? = some c := by simp
    have hc : c ∉ cs := fun hmem => (List.nodup_append.mp hnd).2.2 c hmem c List.mem_cons_self rfl
    have hintel' : h₁.hv.cpuVendor = .intel := by
      rw [hs.same.hv]
      exact hintel
    have hcarry : h₁.CarriesId c cs.length := (hs.carriesId hl hc).mpr (hids _ c hget)
    have hnd' : (cs ++ [c]).Nodup := by
      rw [← List.singleton_append, ← List.append_assoc] at hnd
      exact (List.nodup_append.mp hnd).1
    rw [hstart.numbered (hs.layout hl) hintel' hu hnd hget hlen hcarry, ih hnd hlen hids,
      hs.setupsKeepIds hintel hnd', Bool.and_eq_true]

theorem VcpuStarts.setupsKeepIds_failed (hintel : h.hv.cpuVendor = .intel) (hs : VcpuStarts c u h r h')
    (hr : r ≠ .ok) (hu : h.vcpus c = some u) :
    h.setupsKeepIds h.setups i (c :: cs) = h.setupsKeepIds h.setups i [c] := by
  cases hs with
  | running | added => exact absurd rfl hr
  | failed hrun hinit =>
    simp only [Host.setupsKeepIds, hu, hrun, hinit]
    by_cases hcan : u.canSetUp .intel = true
    · rw [Host.setupResult, hintel, if_pos hcan] at hr
      simp [hr]
    · simp [hcan]

theorem RollsBack.numbered (hl : Layout P h₀) (hintel : h₀.hv.cpuVendor = .intel) (hnd : cs.Nodup)
    (hlen : cs.length < 2 ^ 32) (hids : h₀.Numbered cs) (hb : RollsBack h₀ cs r h) :
    h.Numbered cs ↔ h₀.setupsKeepIds h₀.setups 0 cs = true := by
  obtain @⟨started, rest, c, u, h₁, h₂, r, rfl, hs, hu, hstart, hne⟩ := hb
  have hget : (started ++ c :: rest)[started.length]? = some c := by simp
  have hc : c ∉ started := fun hmem => (List.nodup_append.mp hnd).2.2 c hmem c List.mem_cons_self rfl
  have hintel' : h₁.hv.cpuVendor = .intel := by
    rw [hs.same.hv]
    exact hintel
  have hcarry : h₁.CarriesId c started.length := (hs.carriesId hl hc).mpr (hids _ c hget)
  have hstop : (h₂.stopVcpus started).Numbered (started ++ c :: rest) ↔ h₂.Numbered (started ++ c :: rest) :=
    forall₃_congr fun _ _ _ => carriesId_stopVcpus
  have hfailed : h₁.setupsKeepIds h₁.setups started.length (c :: rest) = _ :=
    hstart.setupsKeepIds_failed hintel' hne hu
  rw [hstop, hstart.numbered (hs.layout hl) hintel' hu hnd hget hlen hcarry,
    hs.numbered hl hintel hnd hlen hids, hs.setupsKeepIds hintel hnd, Bool.and_eq_true, hfailed]

/-! ## The calls on the VMs -/

theorem LifeEffect.carriesId {op : LifecycleOp} (he : LifeEffect a v h op r h') (hop : op ≠ .start) :
    h'.CarriesId c i ↔ h.CarriesId c i := by
  cases he with
  | idle => rfl
  | started | rolledBack => exact absurd rfl hop
  | stopped => exact carriesId_stopVcpus
  | paused => exact carriesId_mapVcpus (f := Nexusvcpu.pause) (fun _ => rfl) fun _ => rfl
  | resumed => exact carriesId_mapVcpus (f := Nexusvcpu.resume) (fun _ => rfl) fun _ => rfl
  | @reset cold h₁ hh₁ =>
    have hstop : h₁.CarriesId c i ↔ h.CarriesId c i := by
      rw [hh₁]
      split_ifs
      · exact carriesId_stopVcpus
      · rfl
    rw [← hstop]
    exact carriesId_mapVcpus (f := Nexusvcpu.reset) (fun _ => rfl) fun _ => rfl

theorem LifeEffect.carriesId_of_notMem (hl : Layout P h) {op : LifecycleOp} (he : LifeEffect a v h op r h')
    (hc : c ∉ v.vcpus) : h'.CarriesId c i ↔ h.CarriesId c i := by
  by_cases hop : op = .start
  · subst hop
    cases he with
    | idle => rfl
    | started _ hs =>
      have hloop := hs.carriesId (i := i) hl hc
      exact hloop
    | rolledBack _ hb =>
      obtain @⟨started, rest, d, u, h₁, h₂, r, hcs, hs, hu, hstart, -⟩ := hb
      rw [hcs, List.mem_append, List.mem_cons, not_or, not_or] at hc
      rw [carriesId_stopVcpus, ← hs.carriesId hl hc.1]
      exact carriesId_congr (hs.layout hl) (hstart.vcpus_of_ne hu hc.2.1) fun _ _ he =>
        hstart.entities (hs.layout hl) hu he
  · exact he.carriesId hop

/-- **A call on a VM** keeps the numbers of its vCPUs just if the set-ups of a start do. -/
theorem LifeEffect.numbered (hg : Good h) (hintel : h.hv.cpuVendor = .intel) (hv : h.vms a = some v)
    {op : LifecycleOp} (he : LifeEffect a v h op r h') (hids : h.Numbered v.vcpus) :
    h'.Numbered v.vcpus ↔
      (op = .start → op.Acts v → h.setupsKeepIds h.setups 0 v.vcpus = true) := by
  have hnd := hg.layout.nodup a v trivial hv
  have hlen : v.vcpus.length < 2 ^ 32 := by
    rw [hg.layout.count a v trivial hv]
    exact v.vcpuCount.toNat_lt
  by_cases hop : op = .start
  · subst hop
    have hloop : ∀ {p q : Prop}, q → (p ↔ ((LifecycleOp.start = .start → q → p))) := fun hq =>
      ⟨fun hp _ _ => hp, fun hp => hp rfl hq⟩
    cases he with
    | idle hne => exact iff_of_true hids fun _ ha => absurd ha hne
    | @started h₁ ha hs =>
      rw [← List.append_nil v.vcpus] at hnd hlen hids
      have hnum := hs.numbered hg.layout hintel hnd hlen hids
      rw [List.append_nil] at hnum
      exact hnum.trans (hloop ha)
    | rolledBack ha hb => exact (hb.numbered hg.layout hintel hnd hlen hids).trans (hloop ha)
  · refine iff_of_true (fun i c hc => (he.carriesId hop).mpr (hids i c hc)) fun hs => absurd hs hop

/-- A call on a VM or on the scheduler, or a migration of a vCPU. -/
inductive VcpuCall
  | lifecycle (op : LifecycleOp) (vm : Addr)
  | sched (op : SchedOp)
  | schedule
  | setPriority (c : Addr) (priority : VmPriority)
  | setPolicy (c : Addr) (policy : SchedPolicy)
  | getCpuLoad (cpu : UInt32)
  | getStats (cpuStats : Option Addr) (count : UInt32)

def VcpuCall.run : VcpuCall → HostM Unit
  | .lifecycle op vm => discard (op.run vm)
  | .sched op => op.run
  | .schedule => discard schedulerSchedule
  | .setPriority c priority => schedulerSetPriority (some c) priority
  | .setPolicy c policy => schedulerSetPolicy (some c) policy
  | .getCpuLoad cpu => discard (schedulerGetCpuLoad cpu)
  | .getStats cpuStats count => discard (schedulerGetStats cpuStats count)

/-- What a call of the scheduler leaves alone. -/
structure Schedules (h h' : Host) : Prop where
  good : Good h'
  ids : SameIds h h'
  vms : h'.vms = h.vms
  hv : h'.hv = h.hv

theorem Good.of_flags (hg : Good h) (hl : Layout (fun _ => True) h') (hvms : h'.vms = h.vms)
    (hflags : ∀ c u', h'.vcpus c = some u' → ∃ u, h.vcpus c = some u ∧ u'.running = u.running ∧
      u'.initialized = u.initialized) : Good h' := by
  refine ⟨hl, fun b w hw => ?_⟩
  rw [hvms] at hw
  have hc := hg.coherent b w hw
  refine ⟨fun hs c hmem u' hu' => ?_, fun hs c hmem u' hu' => ?_, fun hs c hmem u' hu' => ?_⟩
  · obtain ⟨u, hu, hrun, hinit⟩ := hflags c u' hu'
    rw [hrun, hinit]
    exact hc.running hs c hmem u hu
  · obtain ⟨u, hu, hrun, -⟩ := hflags c u' hu'
    rw [hrun]
    exact hc.stopped hs c hmem u hu
  · obtain ⟨u, hu, -, hinit⟩ := hflags c u' hu'
    rw [hinit]
    exact hc.paused hs c hmem u hu

theorem Schedules.refl (hg : Good h) : Schedules h h := ⟨hg, .of_eq rfl rfl, rfl, rfl⟩

theorem SchedStep.flags {op : SchedOp} (hs : SchedStep h op h') {u' : Nexusvcpu} (hu' : h'.vcpus c = some u') :
    ∃ u, h.vcpus c = some u ∧ u'.running = u.running ∧ u'.initialized = u.initialized := by
  have hupdate : ∀ {d : Addr} {u w : Nexusvcpu}, h'.vcpus = Function.update h.vcpus d (some w) →
      h.vcpus d = some u → w.running = u.running → w.initialized = u.initialized →
      ∃ u, h.vcpus c = some u ∧ u'.running = u.running ∧ u'.initialized = u.initialized := by
    intro d u w hvcpus hu hrun hinit
    rw [hvcpus] at hu'
    by_cases hcd : c = d
    · subst hcd
      rw [Function.update_self] at hu'
      cases hu'
      exact ⟨u, hu, hrun, hinit⟩
    · rw [Function.update_of_ne hcd] at hu'
      exact ⟨u', hu', rfl, rfl⟩
  cases hs with
  | add hu ha =>
    cases ha with
    | again | noMemory => exact ⟨u', hu', rfl, rfl⟩
    | fresh => exact hupdate rfl hu rfl rfl
  | remove | yield | wake | loadBalance => exact ⟨u', hu', rfl, rfl⟩
  | migrate hu => exact hupdate rfl hu rfl rfl

theorem SchedStep.schedules (hg : Good h) {op : SchedOp} (hs : SchedStep h op h') : Schedules h h' := by
  have hvms : h'.vms = h.vms ∧ h'.hv = h.hv := by
    cases hs with
    | add _ ha => cases ha <;> exact ⟨rfl, rfl⟩
    | remove | yield | wake | loadBalance | migrate => exact ⟨rfl, rfl⟩
  exact ⟨hg.of_flags (hs.layout hg.layout) hvms.1 fun _ _ => hs.flags, hs.sameIds hg.layout, hvms.1, hvms.2⟩

theorem Good.schedules_setEntity (hg : Good h) {e : Addr} {s s' : SchedEntity} (he : h.entities e = some s)
    (hid : s'.vcpuId = s.vcpuId) (l : DList.Links Node) :
    Schedules h ((h.setEntity e (some s')).setLinks l) := by
  have hl := (hg.layout.setEntity he s').setLinks l
  have hids : SameIds h (h.setEntity e (some s')) := .setEntity he hid
  exact ⟨hg.of_flags hl rfl fun c u hu => ⟨u, hu, rfl, rfl⟩, ⟨hids.vcpus, hids.entities⟩, rfl, rfl⟩

/-! ### Picking -/

section Picking

variable {I : Host → Prop}

theorem findInVm_preserves (e : Addr) (cs : List Addr) : Preserves I (findInVm e cs) := by
  induction cs with
  | nil => exact .pure _
  | cons c cs ih => exact (Preserves.fetch _).bind fun _ => .ite (.pure _) ih

theorem findVcpu_preserves (e : Addr) (fuel : ℕ) (p : Option Addr) : Preserves I (findVcpu e fuel p) := by
  induction fuel generalizing p with
  | zero =>
    cases p with
    | none => exact .pure _
    | some a => exact fun _ _ => wlp_failure
  | succ fuel ih =>
    cases p with
    | none => exact .pure _
    | some a =>
      refine (Preserves.fetch _).bind fun v => (findInVm_preserves e v.vcpus).bind fun o => ?_
      cases o with
      | none => exact ih v.next
      | some c => exact .pure _

theorem vcpuOfEntity_preserves (e : Addr) : Preserves I (vcpuOfEntity e) :=
  (Preserves.fetch _).bind fun _ => Preserves.get.bind fun _ => findVcpu_preserves e _ _

theorem listEntry_preserves (x : Node) : Preserves I (listEntry x) := by
  cases x with
  | entity a => exact .pure a
  | head cpu => exact fun _ _ => wlp_failure

theorem cfsScan_preserves (nodes : List Node) (best : Option Addr) (m : UInt64) :
    Preserves I (cfsScan nodes best m) := by
  induction nodes generalizing best m with
  | nil => exact .pure _
  | cons x nodes ih =>
    exact (listEntry_preserves x).bind fun _ => (Preserves.fetch _).bind fun _ => .ite (ih _ _) (ih _ _)

theorem fifoScan_preserves (nodes : List Node) (earliest : Option Addr) (m : UInt64) :
    Preserves I (fifoScan nodes earliest m) := by
  induction nodes generalizing earliest m with
  | nil => exact .pure _
  | cons x nodes ih =>
    exact (listEntry_preserves x).bind fun _ => (Preserves.fetch _).bind fun _ => .ite (ih _ _) (ih _ _)

theorem schedulerCfsPickNext_preserves (cpu : ℕ) : Preserves I (schedulerCfsPickNext cpu) := by
  refine (Preserves.fetch _).bind fun nodes => (cfsScan_preserves nodes _ _).bind fun o => ?_
  cases o with
  | none => exact .pure _
  | some e => exact vcpuOfEntity_preserves e

theorem schedulerFifoPickNext_preserves (cpu : ℕ) : Preserves I (schedulerFifoPickNext cpu) := by
  refine (Preserves.fetch _).bind fun nodes => (fifoScan_preserves nodes _ _).bind fun o => ?_
  cases o with
  | none => exact schedulerCfsPickNext_preserves cpu
  | some e => exact vcpuOfEntity_preserves e

theorem pickByPolicy_preserves (cpu : ℕ) : Preserves I (pickByPolicy cpu) := by
  refine Preserves.get.bind fun h => ?_
  cases h.links.next (.head cpu) with
  | entity e =>
    refine Preserves.bind (fun s hs => ?_) fun policy => ?_
    · rw [wlp_map]
      exact Preserves.fetch _ s hs
    · cases policy with
      | fifo | rr => exact schedulerFifoPickNext_preserves cpu
      | cfs | bvt | walt => exact schedulerCfsPickNext_preserves cpu
  | head k =>
    refine (Preserves.pure _).bind fun policy => ?_
    cases policy with
    | fifo | rr => exact schedulerFifoPickNext_preserves cpu
    | cfs | bvt | walt => exact schedulerCfsPickNext_preserves cpu

end Picking

theorem schedulerSchedule_schedules (hg : Good h) :
    wlp schedulerSchedule (fun _ h' => Schedules h h') h := by
  have hpick : ∀ {g : Host}, Schedules h g → wlp (pickByPolicy 0) (fun _ h' => Schedules h h') g := fun hs =>
    pickByPolicy_preserves 0 _ hs
  rw [schedulerSchedule, wlp_bind, wlp_get]
  refine wlp_ite (fun _ => (wlp_pure _).mpr (.refl hg)) fun _ => ?_
  cases h.current 0 with
  | none => exact hpick (.refl hg)
  | some c =>
    simp only [wlp_bind, wlp_getVcpu]
    intro u hu
    cases he : u.schedEntity with
    | none => exact hpick (.refl hg)
    | some e =>
      simp only [wlp_bind, wlp_getEntity, wlp_require, wlp_putEntity]
      intro s hs _
      have hrun := hg.schedules_setEntity hs s.tick_vcpuId
      refine wlp_ite (fun _ => ?_) fun _ => ?_
      · rw [wlp_pure]
        exact hrun h.links
      · simp only [wlp_bind, wlp_getLinks, wlp_putLinks]
        exact hpick (hrun _)

theorem setParameters_schedules (hg : Good h) (f : SchedEntity → SchedEntity)
    (hid : ∀ s, (f s).vcpuId = s.vcpuId) {e : Addr} : wlp (do putEntity e (f (← getEntity e)))
      (fun _ h' => Schedules h h') h := by
  simp only [wlp_bind, wlp_getEntity, wlp_putEntity]
  exact fun s hs => hg.schedules_setEntity hs (hid s) h.links

theorem schedulerSetPriority_schedules (hg : Good h) (c : Addr) (priority : VmPriority) :
    wlp (schedulerSetPriority (some c) priority) (fun _ h' => Schedules h h') h := by
  rw [schedulerSetPriority, wlp_bind, wlp_getVcpu]
  intro u hu
  cases he : u.schedEntity with
  | none => exact (wlp_pure _).mpr (.refl hg)
  | some e =>
    exact setParameters_schedules hg (fun s => { s with priority := priority, weight := priority.weight })
      fun _ => rfl

theorem schedulerSetPolicy_schedules (hg : Good h) (c : Addr) (policy : SchedPolicy) :
    wlp (schedulerSetPolicy (some c) policy) (fun _ h' => Schedules h h') h := by
  rw [schedulerSetPolicy, wlp_bind, wlp_getVcpu]
  intro u hu
  cases he : u.schedEntity with
  | none => exact (wlp_pure _).mpr (.refl hg)
  | some e => exact setParameters_schedules hg (fun s => { s with policy := policy }) fun _ => rfl

theorem schedulerGetCpuLoad_schedules (hg : Good h) (cpu : UInt32) :
    wlp (schedulerGetCpuLoad cpu) (fun _ h' => Schedules h h') h := by
  rw [schedulerGetCpuLoad, wlp_bind, wlp_get]
  refine wlp_ite (fun _ => (wlp_pure _).mpr (.refl hg)) fun _ => ?_
  rw [wlp_bind]
  refine wlp_mono (queueLoad_load _) ?_
  rintro _ _ ⟨rfl, -⟩
  rw [wlp_bind, wlp_require, wlp_pure]
  exact fun _ => .refl hg

theorem collectStats_same (is : List ℕ) : wlp (collectStats is) (fun _ h' => h' = h) h := by
  induction is with
  | nil => exact (wlp_pure _).mpr rfl
  | cons i is ih =>
    rw [collectStats, wlp_bind]
    refine wlp_mono (queueLoad_load i) ?_
    rintro _ _ ⟨rfl, -⟩
    rw [wlp_bind]
    refine wlp_mono ih fun rest h' heq => ?_
    rw [wlp_pure]
    exact heq

theorem schedulerGetStats_schedules (hg : Good h) (cpuStats : Option Addr) (count : UInt32) :
    wlp (schedulerGetStats cpuStats count) (fun _ h' => Schedules h h') h := by
  rw [schedulerGetStats]
  refine wlp_ite (fun _ => (wlp_pure _).mpr (.refl hg)) fun _ => ?_
  rw [wlp_bind, wlp_get]
  refine wlp_mono (collectStats_same _) ?_
  rintro _ _ rfl
  exact .refl hg

/-! ## Runs -/

instance (v : Nexusvm) (op : LifecycleOp) : Decidable (op.Acts v) := by
  unfold LifecycleOp.Acts
  split <;> infer_instance

/-- A start of the VM at `a` sets up no vCPU but the one with index 0, and `vmx_on` succeeds there. -/
def VcpuCall.KeepsIds (a : Addr) : VcpuCall → Host → Prop
  | .lifecycle op b, h => op = .start → b = a → ∀ v ∈ h.vms a, op.Acts v →
      h.setupsKeepIds h.setups 0 v.vcpus = true
  | _, _ => True

deriving instance DecidableEq for LifecycleOp

instance (a : Addr) (call : VcpuCall) (h : Host) : Decidable (call.KeepsIds a h) := by
  unfold VcpuCall.KeepsIds
  split <;> infer_instance

/-- What every call keeps. -/
structure IntelVm (a : Addr) (h : Host) : Prop where
  good : Good h
  intel : h.hv.cpuVendor = .intel
  vm : h.vms a ≠ none

theorem Schedules.idsAgree (hs : Schedules h h') (hids : IdsAgree h a) : IdsAgree h' a := by
  obtain ⟨v, hv, hnum⟩ := hids
  refine ⟨v, by rw [hs.vms, hv], fun i hi => ?_⟩
  obtain ⟨c, hc, hcarry⟩ := hnum i hi
  exact ⟨c, hc, hs.ids.carriesId hcarry⟩

/-- **Every call** keeps the ids just if it meets the condition. -/
theorem VcpuCall.idsAgree (hi : IntelVm a h) (hids : IdsAgree h a) (call : VcpuCall) :
    wlp call.run (fun _ h' => IntelVm a h' ∧ (IdsAgree h' a ↔ call.KeepsIds a h)) h := by
  have hsched : ∀ {g : Host}, Schedules h g → IntelVm a g ∧ (IdsAgree g a ↔ True) := fun hs =>
    ⟨⟨hs.good, hs.hv ▸ hi.intel, hs.vms ▸ hi.vm⟩, iff_true_intro (hs.idsAgree hids)⟩
  cases call with
  | schedule =>
    rw [VcpuCall.run, wlp_discard]
    exact wlp_mono (schedulerSchedule_schedules hi.good) fun _ _ => hsched
  | setPriority c priority =>
    exact wlp_mono (schedulerSetPriority_schedules hi.good c priority) fun _ _ => hsched
  | setPolicy c policy =>
    exact wlp_mono (schedulerSetPolicy_schedules hi.good c policy) fun _ _ => hsched
  | getCpuLoad cpu =>
    rw [VcpuCall.run, wlp_discard]
    exact wlp_mono (schedulerGetCpuLoad_schedules hi.good cpu) fun _ _ => hsched
  | getStats cpuStats count =>
    rw [VcpuCall.run, wlp_discard]
    exact wlp_mono (schedulerGetStats_schedules hi.good cpuStats count) fun _ _ => hsched
  | sched op =>
    refine wlp_mono (schedOp_step hi.good.layout.cpus_pos op) ?_
    rintro _ h' (⟨rfl, -⟩ | hs)
    · exact hsched (.refl hi.good)
    · exact hsched (hs.schedules hi.good)
  | lifecycle op b =>
    rw [VcpuCall.run, wlp_discard]
    suffices hstep : ∀ w, h.vms b = some w → wlp (op.run b) (fun _ h' => IntelVm a h' ∧
        (IdsAgree h' a ↔ (VcpuCall.lifecycle op b).KeepsIds a h)) h by
      cases op <;> exact wlp_getVm_bind hstep
    intro w hw
    refine wlp_mono (wlp_and (lifecycle_effect hi.good hw op) (lifecycle_spec hi.good hw op).wlp) ?_
    rintro r h' ⟨he, hg', -⟩
    obtain ⟨s, hvms⟩ := he.vms hw
    obtain ⟨v, hv⟩ := Option.ne_none_iff_exists'.mp hi.vm
    have hcount := hi.good.layout.count a v trivial hv
    have hnum := (idsAgree_iff hv hcount).mp hids
    have hintel : h'.hv.cpuVendor = .intel := by
      rw [he.hv]
      exact hi.intel
    by_cases hab : b = a
    · subst hab
      obtain rfl : v = w := Option.some.inj (hv.symm.trans hw)
      have hv' : h'.vms b = some { v with state := s } := by
        rw [hvms, Function.update_self]
      refine ⟨⟨hg', hintel, by simp [hv']⟩, ?_⟩
      rw [idsAgree_iff hv' hcount, he.numbered hi.good hi.intel hv hnum]
      refine ⟨fun hk hop _ x hx hacts => ?_, fun hk hop hacts => hk hop rfl v hv hacts⟩
      obtain rfl : v = x := Option.some.inj (hv.symm.trans hx)
      exact hk hop hacts
    · have hv' : h'.vms a = some v := by
        rw [hvms, Function.update_of_ne (Ne.symm hab), hv]
      refine ⟨⟨hg', hintel, by simp [hv']⟩, iff_of_true ?_ fun _ hba => absurd hba hab⟩
      refine (idsAgree_iff hv' hcount).mpr fun i c hc => ?_
      refine (he.carriesId_of_notMem hi.good.layout fun hmem => ?_).mpr (hnum i c hc)
      exact hi.good.layout.vcpus_disjoint hw hv (Ne.symm hab) c (List.mem_of_getElem? hc) hmem

/-! ## Creation -/

/-- Where the vCPU at `c` is there, its id is `i`. -/
def Host.IdIs (h : Host) (c : Addr) (i : UInt32) : Prop := ∀ u, h.vcpus c = some u → u.vcpuId = i

theorem idIs_setVcpu {x : UInt32} {u : Nexusvcpu} (hu : u.vcpuId = x) : (h.setVcpu c (some u)).IdIs c x := by
  intro w hw
  obtain rfl : u = w := Option.some.inj ((Host.setVcpu_self _ _ _).symm.trans hw)
  exact hu

theorem onMem_idIs {α : Type} {x : UInt32} (f : MemM α) : Preserves (Host.IdIs · c x) (onMem f) := by
  intro s hs
  rw [onMem, wlp_zoom]
  exact fun _ _ _ => hs

theorem updateVcpu_idIs {α : Type} {x : UInt32} {k : Unit → HostM α} (f : Nexusvcpu → Nexusvcpu)
    (hf : ∀ u, (f u).vcpuId = u.vcpuId) (hk : ∀ y, Preserves (Host.IdIs · c x) (k y)) :
    Preserves (Host.IdIs · c x) (getVcpu c >>= fun u => putVcpu c (f u) >>= k) := by
  intro s hs
  simp only [wlp_bind, wlp_getVcpu, wlp_putVcpu]
  exact fun u hu => hk () _ (idIs_setVcpu ((hf u).trans (hs u hu)))

theorem freeBuffer_idIs {x : UInt32} (kind : BlockKind) (p : Option Addr) :
    Preserves (Host.IdIs · c x) (freeBuffer kind p) := by
  cases p with
  | none => exact .pure _
  | some b => exact onMem_idIs _

theorem vcpuVendorInit_idIs {x : UInt32} : Preserves (Host.IdIs · c x) (vcpuVendorInit c) := by
  refine (Preserves.fetch _).bind fun hv => ?_
  cases hv.cpuVendor with
  | intel =>
    refine (Preserves.fetch _).bind fun hv => (onMem_idIs _).bind fun o => ?_
    cases o with
    | none => exact .pure _
    | some region =>
      refine updateVcpu_idIs (fun u => { u with vmxOnRegion := some region }) (fun _ => rfl) fun _ =>
        (onMem_idIs _).bind fun o => ?_
      cases o with
      | none => exact (freeBuffer_idIs _ _).bind fun _ => .pure _
      | some vmcs =>
        exact updateVcpu_idIs (fun u => { u with vmxVmcsRegion := some vmcs }) (fun _ => rfl) fun _ => .pure _
  | amd =>
    refine (onMem_idIs _).bind fun o => ?_
    cases o with
    | none => exact .pure _
    | some vmcb =>
      exact updateVcpu_idIs (fun u => { u with vmcb := some vmcb }) (fun _ => rfl) fun _ => .pure _
  | unknown => exact .pure _

theorem vcpuCreate_idIs (vm : Addr) (x : UInt32) :
    wlp (vcpuCreate vm x) (fun r h' => ∀ c, r = .ok c → h'.IdIs c x) h := by
  -- an error gives no vCPU
  have herror : ∀ {g : Host} {y : HostM Unit} {e : Result}, wlp (y >>= fun _ => pure (Except.error e))
      (fun r h' => ∀ c : Addr, r = .ok c → h'.IdIs c x) g := by
    intro g y e
    rw [wlp_bind]
    intro _ _ _
    rw [wlp_pure]
    intro c hc
    cases hc
  rw [vcpuCreate, wlp_bind]
  intro o h₁ _
  cases o with
  | none =>
    rw [wlp_pure]
    intro c hc
    cases hc
  | some c =>
  simp only [wlp_bind, wlp_getHv, wlp_require, wlp_putVcpu]
  intro _ _
  refine wlp_mono (onMem_idIs (c := c) (x := x) _ _ (idIs_setVcpu rfl)) fun o h₂ hid => ?_
  cases o with
  | none => exact herror
  | some msrBitmap =>
  rw [wlp_bind]
  refine wlp_mono (onMem_idIs _ _ hid) fun ioA h₃ hid => ?_
  rw [wlp_bind]
  refine wlp_mono (onMem_idIs _ _ hid) fun ioB h₄ hid => ?_
  simp only [wlp_bind, wlp_getVcpu, wlp_putVcpu]
  intro u hu
  have hid := idIs_setVcpu (h := h₄) (c := c)
    (u := { u with msrBitmap := some msrBitmap, ioBitmapA := ioA, ioBitmapB := ioB }) (hid u hu)
  refine wlp_ite (fun _ => herror) fun _ => ?_
  rw [wlp_bind]
  refine wlp_mono (vcpuVendorInit_idIs _ hid) fun r h₅ hid => ?_
  refine wlp_ite (fun _ => herror) fun _ => ?_
  rw [wlp_pure]
  intro d hd
  cases hd
  exact hid

/-- **The loop of `vm_create`** numbers the vCPUs. -/
theorem createVcpus_numbered {vm : Addr} {n : ℕ} {j : UInt32} (hinit : h₀.gInitialized = true)
    (hcpus : h₀.hv.onlineCpuCount ≠ 0) (hnone : ∀ c, Fresh h₀.mem c → h₀.vcpus c = none)
    (hb : Builds vm h₀ v v.vcpus h) (hj : j.toNat = v.vcpus.length) (hn : v.vcpus.length + n < 2 ^ 32)
    (hids : h.Numbered v.vcpus) : wlp (createVcpus vm n j)
      (fun r h' => r = .ok → ∀ w, h'.vms vm = some w → h'.Numbered w.vcpus) h := by
  induction n generalizing j v h with
  | zero =>
    rw [createVcpus, wlp_pure]
    rintro - w hw
    obtain rfl : v = w := Option.some.inj (hb.getVm.symm.trans hw)
    exact hids
  | succ n ih =>
    have hnone' : ∀ c, Fresh h.mem c → h.vcpus c = none := hb.vcpus_none hnone
    have hinit' : h.gInitialized = true := by
      rw [hb.shape]
      exact hinit
    have hcpus' : h.hv.onlineCpuCount ≠ 0 := by
      rw [hb.shape]
      exact hcpus
    rw [createVcpus, wlp_bind]
    refine wlp_mono (wlp_and (vcpuCreate_spec hinit' hcpus' hnone' vm j).wlp (vcpuCreate_idIs vm j)) ?_
    rintro r _ ⟨⟨m, ha, hr⟩, hid⟩
    cases r with
    | error e =>
      obtain ⟨he, rfl⟩ := hr
      simp only [wlp_bind, wlp_getVm]
      intro w hw _ _ _
      rw [wlp_pure]
      exact fun hok => absurd hok he
    | ok c =>
      obtain ⟨u, rfl, hnew, hheld⟩ := hr
      have hfresh : Fresh h.mem c := hnew.blocks (.vcpu, some c) (by simp [vcpuBlocks]) c rfl
      have hcnone := hnone' c hfresh
      have hb' := hb.addVcpu ha hnew hheld hcnone
      simp only [wlp_bind, wlp_getVm, wlp_putVm]
      intro w hw
      obtain rfl : v = w := Option.some.inj (hb.getVm.symm.trans hw)
      have huid : u.vcpuId = j := hid c rfl u (Host.setVcpu_self _ _ _)
      have hlen : (v.vcpus ++ [c]).length = v.vcpus.length + 1 := by simp
      refine ih hb' ?_ ?_ fun i d hd => ?_
      · rw [hlen, UInt32.toNat_add, hj, show (1 : UInt32).toNat = 1 from rfl]
        omega
      · rw [hlen]
        omega
      · rw [List.getElem?_append] at hd
        split_ifs at hd with hi
        · obtain ⟨x, hx, hcarry⟩ := hids i d hd
          have hdc : d ≠ c := by
            rintro rfl
            rw [hcnone] at hx
            cases hx
          exact ⟨x, (Function.update_of_ne hdc _ _).trans hx, hcarry⟩
        · obtain ⟨hi', rfl⟩ := List.getElem?_eq_some_iff.mp hd
          rw [List.length_singleton] at hi'
          have hindex : i = v.vcpus.length := by omega
          subst hindex
          refine ⟨u, ?_, by rw [huid, hj], fun e he => ?_⟩
          · rw [List.getElem_singleton]
            exact Host.setVcpu_self _ _ _
          · rw [hnew.schedEntity] at he
            cases he

/-- **`vm_create`** gives every vCPU its index as its id. -/
theorem vmCreate_ids (hl : Layout (fun _ => True) h) (hfirst : ∀ f, h.hv.vms = some f → h.vms f ≠ none)
    (config : VmConfig) : wlp (vmCreate (some config)) (fun r h' => ∀ a, r = .ok a →
      ∀ v, h'.vms a = some v → h'.Numbered v.vcpus) h := by
  have hinit := hl.initialized
  have hcpus : h.hv.onlineCpuCount ≠ 0 := by
    rw [hl.online]
    exact hl.cpus
  have hnone : ∀ c, Fresh h.mem c → h.vcpus c = none := hl.vcpus_none
  have hvmnone : ∀ a, Fresh h.mem a → h.vms a = none := hl.vms_none
  have hbad : ∀ {g : Host} {e : Result}, ∀ a : Addr, Except.error e = .ok a →
      ∀ v, g.vms a = some v → g.Numbered v.vcpus := by
    intro g e a ha
    cases ha
  rw [vmCreate, wlp_bind, wlp_get]
  simp only [hinit, Bool.not_true, Bool.false_eq_true, if_false]
  rw [wlp_bind]
  refine wlp_mono (calloc_spec _ _ _ h).wlp ?_
  rintro o _ ⟨m, rfl, ha, ho⟩
  cases o with
  | none => exact (wlp_pure _).mpr hbad
  | some vm =>
  obtain ⟨hfresh, hheld⟩ := ho vm rfl
  simp only [wlp_bind, wlp_getHv, wlp_putHv, wlp_fetch, wlp_putVm]
  rintro - name -
  have hb := builds_newVm ha hfresh hheld config h.hv.nextVmId name
  rw [vmBuild_eq, wlp_bind]
  refine wlp_mono (vmPrepare_spec rfl rfl hb).wlp ?_
  rintro r h₁ ⟨w, hid, hw, -, hb₁⟩
  -- a call that gives up returns no VM
  have habandon : ∀ {g : Host} {e : Result}, wlp (vmAbandon vm >>= fun _ => pure (Except.error e))
      (fun r h' => ∀ a : Addr, r = .ok a → ∀ v, h'.vms a = some v → h'.Numbered v.vcpus) g := by
    intro g e
    rw [wlp_bind]
    intro _ _ _
    exact (wlp_pure _).mpr hbad
  refine wlp_ite (fun hr => ?_) fun _ => ?_
  · rw [wlp_pure, if_pos hr]
    exact habandon
  have hlen : w.vcpus.length + config.vcpuCount.toNat < 2 ^ 32 := by
    rw [hw, List.length_nil, Nat.zero_add]
    exact config.vcpuCount.toNat_lt
  have hnum : h₁.Numbered w.vcpus := by
    rw [hw]
    intro i c hc
    simp at hc
  have hb₁' : Builds vm h w w.vcpus h₁ := by
    rw [hw]
    exact hb₁
  refine wlp_mono (wlp_and (createVcpus_spec hinit hcpus hnone hb₁' rfl).wlp
    (createVcpus_numbered hinit hcpus hnone hb₁' (by simp [hw]) hlen hnum)) ?_
  rintro r h₂ ⟨⟨x, hx, -, -, hres⟩, hids⟩
  refine wlp_ite (fun _ => habandon) fun hr => ?_
  rcases hres with ⟨-, -, hbx⟩ | ⟨hne, -⟩
  swap
  · exact absurd hne hr
  have hinit₂ : h₂.gInitialized = true := by
    rw [hbx.shape]
    exact hinit
  rw [wlp_bind]
  refine wlp_mono (vmLink_spec hinit₂ hbx.getVm (hbx.first hfirst hvmnone)).wlp ?_
  rintro _ _ rfl
  rw [wlp_pure]
  intro a ha v hv
  cases ha
  have hv' : v = { x with next := h₂.hv.vms, state := .initialized } := by
    simpa [Host.linkVm] using hv.symm
  rw [hv']
  exact hids (not_not.mp hr) x hbx.getVm

/-- **When the ids of the vCPUs are stable.** After every part of a run of calls on an Intel host, the vCPUs
of a VM that `vm_create` made and their entities carry their indices, just if no start of that VM in the
run sets up another vCPU than the one with index 0, and `vmx_on` succeeds there. -/
theorem vcpu_ids_stable_iff (hboot : Boot h₀) {pre : List HvOp}
    (hpre : (runOps HvOp.run pre).run h₀ = some ((), h)) {config : VmConfig}
    (hcreate : (vmCreate (some config)).run h = some (.ok a, h₁)) (hintel : h₁.hv.cpuVendor = .intel)
    {calls : List VcpuCall} (hrun : (runOps VcpuCall.run calls).run h₁ = some ((), h₂)) :
    (∀ past s, past <+: calls → (runOps VcpuCall.run past).run h₁ = some ((), s) → IdsAgree s a) ↔
      Along VcpuCall.run (VcpuCall.KeepsIds a) calls h₁ := by
  have hi := hvInv_run hboot hpre
  obtain ⟨xs, hlist⟩ := hi.listed
  have hi₁ : HvInv h₁ := by
    have hcall := hvOp_spec hi (.create config)
    rw [HvOp.run, wlp_discard] at hcall
    exact (hcall _ h₁ hcreate).1
  obtain ⟨v, hbuilt, name, -, -, -, -, -, hlink⟩ :=
    vmCreate_spec hi.good.layout hlist.first_ne config _ h₁ hcreate
  have hv : h₁.vms a = some { v with next := hbuilt.hv.vms, state := .initialized } := by
    rw [hlink]
    simp [Host.linkVm]
  have hids : IdsAgree h₁ a := (idsAgree_iff hv (hi₁.good.layout.count a _ trivial hv)).mpr
    (vmCreate_ids hi.good.layout hlist.first_ne config _ h₁ hcreate a rfl _ hv)
  have hvm : IntelVm a h₁ := ⟨hi₁.good, hintel, by simp [hv]⟩
  exact forall_state_iff_along (fun call s hk hp => VcpuCall.idsAgree hk hp call) hrun hvm hids

theorem vcpu_ids_stable_iff_one_vcpu : ∃ h₁ h₂,
    (vmCreate (some { vcpuCount := 1 })).run (bootHost 1 .intel) = some (.ok 16384, h₁) ∧
    (runOps VcpuCall.run [.lifecycle .start 16384, .schedule, .lifecycle .stop 16384,
      .lifecycle .start 16384]).run h₁ = some ((), h₂) ∧ IdsAgree h₂ 16384 := by
  have hdec : (((vmCreate (some { vcpuCount := 1 })).run (bootHost 1 .intel)).any fun p =>
      p.1.toOption == some 16384 && p.2.hv.cpuVendor == .intel &&
      decide (Along VcpuCall.run (VcpuCall.KeepsIds 16384) [.lifecycle .start 16384, .schedule,
        .lifecycle .stop 16384, .lifecycle .start 16384] p.2) &&
      ((runOps VcpuCall.run [.lifecycle .start 16384, .schedule, .lifecycle .stop 16384,
        .lifecycle .start 16384]).run p.2).isSome) = true := by decide +kernel
  obtain ⟨⟨r, h₁⟩, hcreate, hp⟩ := (Option.any_eq_true _ _).mp hdec
  simp only [Bool.and_eq_true, beq_iff_eq, decide_eq_true_eq] at hp
  obtain ⟨⟨⟨hr, hintel⟩, halong⟩, hsome⟩ := hp
  obtain rfl : r = .ok 16384 := by
    cases r with
    | error e => cases hr
    | ok vm => cases hr; rfl
  obtain ⟨⟨⟨⟩, h₂⟩, hrun⟩ := Option.isSome_iff_exists.mp hsome
  have hiff := vcpu_ids_stable_iff (boot_bootHost (by decide) .intel)
    (runOps_nil HvOp.run (bootHost 1 .intel)) hcreate hintel hrun
  exact ⟨h₁, h₂, hcreate, hrun, hiff.mpr halong _ h₂ (List.prefix_refl _) hrun⟩

/-- **A start renumbers the vCPUs**: afterwards the second one has the id 0. -/
theorem start_renumbers : ∃ h₁ h₂,
    (vmCreate (some { vcpuCount := 2 })).run (bootHost 1 .intel) = some (.ok 16384, h₁) ∧
    (runOps VcpuCall.run [.lifecycle .start 16384]).run h₁ = some ((), h₂) ∧ ¬ IdsAgree h₂ 16384 := by
  have hdec : (((vmCreate (some { vcpuCount := 2 })).run (bootHost 1 .intel)).any fun p =>
      p.1.toOption == some 16384 &&
      ((runOps VcpuCall.run [.lifecycle .start 16384]).run p.2).any fun q =>
        (q.2.vms 16384).any fun v => v.vcpuCount == 2 && (v.vcpus[1]?).any fun c =>
          (q.2.vcpus c).any fun u => u.vcpuId == 0) = true := by decide +kernel
  obtain ⟨⟨r, h₁⟩, hcreate, hp⟩ := (Option.any_eq_true _ _).mp hdec
  rw [Bool.and_eq_true, beq_iff_eq] at hp
  obtain ⟨hr, hp⟩ := hp
  obtain rfl : r = .ok 16384 := by
    cases r with
    | error e => cases hr
    | ok vm => cases hr; rfl
  obtain ⟨⟨⟨⟩, h₂⟩, hrun, hp⟩ := (Option.any_eq_true _ _).mp hp
  obtain ⟨v, hv, hp⟩ := (Option.any_eq_true _ _).mp hp
  rw [Bool.and_eq_true, beq_iff_eq] at hp
  obtain ⟨hcount, hp⟩ := hp
  obtain ⟨c, hc, hp⟩ := (Option.any_eq_true _ _).mp hp
  obtain ⟨u, hu, hid⟩ := (Option.any_eq_true _ _).mp hp
  refine ⟨h₁, h₂, hcreate, hrun, ?_⟩
  rintro ⟨w, hw, hids⟩
  obtain rfl : v = w := Option.some.inj (hv.symm.trans hw)
  obtain ⟨c', hc', u', hu', hid', -⟩ := hids 1 (by rw [hcount]; decide)
  obtain rfl : c = c' := Option.some.inj (hc.symm.trans hc')
  obtain rfl : u = u' := Option.some.inj (hu.symm.trans hu')
  rw [beq_iff_eq.mp hid] at hid'
  cases hid'

end NexusVM
