import NexusVM.Homes

/-!
# CPU affinity

`vcpu_set_affinity` stores a mask that no call of the scheduler looks at.

* `Affinity.allows`, `vcpuSetAffinity_spec`: the mask, and the call that stores it;
* `PlacedOn`, `SchedOp.Honours`: a call puts an entity on the queue of a CPU; it puts it on allowed ones only;
* **`affinity_honoured`**: so does every call of a run in which each choice of a CPU falls on an allowed
  one.
-/

namespace NexusVM

open Prog

variable {n : ℕ} {q : Fin n → List Node} {h h' : Host} {c e : Addr} {mask : Affinity} {P : Addr → Prop}

/-- The bit of a CPU in the mask. -/
def Affinity.allows (a : Affinity) (cpu : ℕ) : Bool :=
  (a.mask.toList.getD (cpu / 64) 0).toBitVec.getLsbD (cpu % 64)

theorem vcpuSetAffinity_spec (hent : h.entityOf c = some e) :
    wlp (vcpuSetAffinity (some c) mask) (fun _ h' => ∃ s, h.entities e = some s ∧
      h' = h.setEntity e (some { s with allowedCpus := mask })) h := by
  obtain ⟨u, hu, he⟩ := Option.bind_eq_some_iff.mp hent
  rw [vcpuSetAffinity, wlp_bind, wlp_getVcpu]
  intro u' hu'
  rw [hu] at hu'
  cases hu'
  rw [wlp_bind, wlp_fetch]
  intro e' he'
  rw [he] at he'
  cases he'
  rw [wlp_bind, getEntity, wlp_fetch]
  intro s hs
  rw [wlp_bind, wlp_putEntity, wlp_pure]
  exact ⟨s, hs, rfl⟩

/-! ## Placements -/

/-- The entity is on the queue of the CPU. -/
def Host.OnQueue (h : Host) (e : Addr) (cpu : ℕ) : Prop := ∃ nodes ∈ h.runqueue cpu, .entity e ∈ nodes

/-- A call has put the entity on the queue of the CPU: it was not there before, or the call takes it out
and puts it back. -/
def PlacedOn (h : Host) (op : SchedOp) (h' : Host) (e : Addr) (cpu : ℕ) : Prop :=
  h'.OnQueue e cpu ∧ (¬ h.OnQueue e cpu ∨ Requeues h op e)

/-- The call leaves the mask of the entity alone and puts the entity on queues of allowed CPUs only. -/
def SchedOp.Honours (e : Addr) (mask : Affinity) (op : SchedOp) (h : Host) : Prop :=
  ∀ h', op.run.run h = some ((), h') → (∃ s, h'.entities e = some s ∧ s.allowedCpus = mask) ∧
    ∀ cpu < h'.gCpuCount.toNat, PlacedOn h op h' e cpu → mask.allows cpu = true

/-- The CPU that the call chooses for the entity of `c` is an allowed one. -/
def SchedOp.ChoosesAllowed (c e : Addr) (mask : Affinity) : SchedOp → Host → Prop
  | .add d, h | .yield d, h | .wake d, h => d = c → ∀ u ∈ h.vcpus c,
      mask.allows (u.home h.gCpuCount).toNat = true
  | .loadBalance cpu, h => cpu < h.gCpuCount → h.links.next (.head cpu.toNat) = .entity e →
      ∀ tgt < h.gCpuCount.toNat, LeastLoaded h cpu.toNat tgt → h.load cpu.toNat > h.load tgt + 2 →
        mask.allows tgt = true
  | .remove _, _ | .migrate _ _, _ => True

instance (h : Host) (cpu tgt : ℕ) : Decidable (LeastLoaded h cpu tgt) :=
  decidable_of_iff (tgt < h.gCpuCount.toNat ∧ tgt ≠ cpu ∧
      (∀ i < h.gCpuCount.toNat, i ≠ cpu → h.load tgt ≤ h.load i) ∧
      ∀ i < tgt, i ≠ cpu → h.load tgt < h.load i)
    ⟨fun ⟨hlt, hne, hle, hfirst⟩ => ⟨hlt, hne, hle, hfirst⟩,
      fun hl => ⟨hl.lt, hl.ne, hl.le, hl.first⟩⟩

instance decidableChoosesAllowed : ∀ (op : SchedOp) (h : Host), Decidable (op.ChoosesAllowed c e mask h)
  | .add d, h | .yield d, h | .wake d, h => inferInstanceAs (Decidable (d = c → ∀ u ∈ h.vcpus c,
      mask.allows (u.home h.gCpuCount).toNat = true))
  | .loadBalance cpu, h => inferInstanceAs (Decidable (cpu < h.gCpuCount →
      h.links.next (.head cpu.toNat) = .entity e → ∀ tgt < h.gCpuCount.toNat,
        LeastLoaded h cpu.toNat tgt → h.load cpu.toNat > h.load tgt + 2 → mask.allows tgt = true))
  | .remove _, _ | .migrate _ _, _ => .isTrue trivial

/-- What the calls keep. -/
structure AffinityInv (P : Addr → Prop) (n : ℕ) (c e : Addr) (mask : Affinity) (h : Host) : Prop where
  layout : Layout P h
  queues : ∃ q : Fin n → List Node, Queues n h q
  entityOf : h.entityOf c = some e
  mask : ∃ s, h.entities e = some s ∧ s.allowedCpus = mask

theorem SchedStep.entities (hl : Layout P h) {op : SchedOp} (hs : SchedStep h op h') {s : SchedEntity}
    (he : h.entities e = some s) : h'.entities e = some s := by
  cases hs with
  | add hu ha => exact ha.entities hl he
  | remove | yield | wake | loadBalance | migrate => exact he

theorem SchedStep.entityOf {op : SchedOp} (hs : SchedStep h op h') (he : h.entityOf c = some e) :
    h'.entityOf c = some e := by
  obtain ⟨w, hw, hwe⟩ := Option.bind_eq_some_iff.mp he
  cases hs with
  | @add d u r _ hu ha =>
    cases ha with
    | again | noMemory => exact he
    | fresh hnone hfit =>
      have hcd : c ≠ d := by
        rintro rfl
        rw [hw] at hu
        cases hu
        rw [hnone] at hwe
        cases hwe
      rw [Host.entityOf, Host.enqueue_vcpus, Host.giveEntity_vcpus, Function.update_of_ne hcd]
      exact he
  | remove | yield | wake | loadBalance => exact he
  | @migrate d u t hu ht =>
    rw [Host.entityOf, Host.setVcpu_vcpus]
    by_cases hcd : c = d
    · subst hcd
      rw [hw] at hu
      cases hu
      rw [Function.update_self]
      exact hwe
    · rw [Function.update_of_ne hcd]
      exact he

theorem onQueue_iff (hl : Layout P h) (hq : Queues n h q) (i : Fin n) :
    h.OnQueue e i ↔ .entity e ∈ q i := by
  constructor
  · rintro ⟨nodes, hnodes, hmem⟩
    rw [hq.runqueue hl i] at hnodes
    cases hnodes
    exact hmem
  · intro hmem
    exact ⟨q i, hq.runqueue hl i, hmem⟩

/-- **A step** puts the entity on the queues of the CPUs that it chooses. -/
theorem SchedStep.honours (hi : AffinityInv P n c e mask h) {op : SchedOp} (hp : op.Proper h)
    (hC : op.ChoosesAllowed c e mask h) (hs : SchedStep h op h') :
    AffinityInv P n c e mask h' ∧ ∀ cpu < h'.gCpuCount.toNat, PlacedOn h op h' e cpu →
      mask.allows cpu = true := by
  obtain ⟨q, hq⟩ := hi.queues
  obtain ⟨q', hq', hback⟩ := hs.queues hi.layout hq hp
  have hl' := hs.layout hi.layout
  have hent' := hs.entityOf hi.entityOf
  refine ⟨⟨hl', ⟨q', hq'⟩, hent', ?_⟩, fun cpu hcpu hplaced => ?_⟩
  · obtain ⟨s, hs', hmask⟩ := hi.mask
    exact ⟨s, hs.entities hi.layout hs', hmask⟩
  obtain ⟨hon, hbefore⟩ := hplaced
  rw [hq'.cpus] at hcpu
  rcases hback ⟨cpu, hcpu⟩ e ((onQueue_iff hl' hq' ⟨cpu, hcpu⟩).mp hon) with ⟨hold, hreq⟩ | hput
  · rcases hbefore with hnot | hr
    · exact absurd ((onQueue_iff hi.layout hq ⟨cpu, hcpu⟩).mpr hold) hnot
    · exact absurd hr hreq
  · cases op with
    | add d | yield d | wake d =>
      obtain ⟨hd, u, hu, rfl⟩ := hput
      obtain rfl := hl'.entityOf_inj hd hent'
      exact hC rfl u hu
    | loadBalance src =>
      obtain ⟨hx, hleast, hload⟩ := hput
      have hsrc : src < h.gCpuCount := by cases hs; assumption
      exact hC hsrc hx cpu hleast.lt hleast hload
    | remove | migrate => exact hput.elim

theorem Layout.setEntity (hl : Layout P h) {s : SchedEntity} (hs : h.entities e = some s)
    (s' : SchedEntity) : Layout P (h.setEntity e (some s')) where
  __ := hl
  entityHeld x t ht := by
    by_cases hx : x = e
    · exact hx ▸ hl.entityHeld e s hs
    · exact hl.entityHeld x t ((Function.update_of_ne hx _ _).symm.trans ht)
  entity c u x hu hux := by
    by_cases hx : x = e
    · exact ⟨s', hx ▸ Function.update_self _ _ _⟩
    · obtain ⟨t, ht⟩ := hl.entity c u x hu hux
      exact ⟨t, (Function.update_of_ne hx _ _).trans ht⟩

theorem AffinityInv.of_setAffinity (hl : Layout P h) (hq : Queues n h q) (hent : h.entityOf c = some e)
    {s : SchedEntity} (hs : h.entities e = some s) :
    AffinityInv P n c e mask (h.setEntity e (some { s with allowedCpus := mask })) where
  layout := hl.setEntity hs _
  queues := by
    refine ⟨q, hq.congr rfl rfl fun x hx => ?_⟩
    by_cases hxe : x = e
    · subst hxe
      exact fun hnone => Option.some_ne_none _ ((Function.update_self x _ _).symm.trans hnone)
    · exact fun hnone => hx ((Function.update_of_ne hxe _ _).symm.trans hnone)
  entityOf := hent
  mask := ⟨_, Function.update_self _ _ _, rfl⟩

/-- **Runs.** After `vcpu_set_affinity` the entity is put on queues of allowed CPUs only, as long as the CPU
that each call works out or balances to is an allowed one. -/
theorem affinity_honoured {h₀ h₁ : Host} (hl : Layout P h₀) (hwf : WellFormedQueues h₀)
    (hent : h₀.entityOf c = some e) (hset : (vcpuSetAffinity (some c) mask).run h₀ = some (.ok, h₁))
    {ops : List SchedOp}
    (hC : Along SchedOp.run (fun op h => op.Proper h ∧ op.ChoosesAllowed c e mask h) ops h₁) :
    Along SchedOp.run (SchedOp.Honours e mask) ops h₁ := by
  obtain ⟨s, hs, rfl⟩ := vcpuSetAffinity_spec hent _ _ hset
  obtain ⟨q, hq⟩ := wellFormed_iff.mp hwf
  have key : ∀ op g, op.Proper g ∧ op.ChoosesAllowed c e mask g → AffinityInv P h₀.gCpuCount.toNat c e mask g →
      wlp (SchedOp.run op) (fun _ g' => AffinityInv P h₀.gCpuCount.toNat c e mask g' ∧
        ∀ cpu < g'.gCpuCount.toNat, PlacedOn g op g' e cpu → mask.allows cpu = true) g := by
    rintro op g ⟨hp, hallowed⟩ hi
    refine wlp_mono (schedOp_step hi.layout.cpus_pos op) ?_
    rintro _ g' (⟨rfl, hno⟩ | hstep)
    · exact ⟨hi, fun cpu _ ⟨hon, hnew⟩ => hnew.elim (absurd hon) fun hr => absurd hr (hno e)⟩
    · exact hstep.honours hi hp hallowed
  refine Along.imp (fun op g hg hi => wlp_mono (key op g hg hi) fun _ _ => And.left) ?_ hC
    (AffinityInv.of_setAffinity hl hq hent hs)
  intro op g hg hi g' hrun
  obtain ⟨hi', hplaced⟩ := key op g hg hi () g' hrun
  exact ⟨hi'.mask, hplaced⟩

/-- The mask of a single CPU. -/
def onlyCpu (cpu : ℕ) : Affinity where
  mask := Vector.ofFn fun w => if w.val = cpu / 64 then UInt64.ofNat (2 ^ (cpu % 64)) else 0

theorem added_twoCpus : ∃ h, (SchedOp.add 8192).run.run twoCpus = some ((), h) ∧
    Layout (fun _ => True) h ∧ WellFormedQueues h ∧ h.entityOf 8192 = some 65536 := by
  have hres : ((SchedOp.add 8192).run.run twoCpus).any (fun p => p.2.entityOf 8192 = some 65536) = true := by
    decide +kernel
  obtain ⟨⟨⟨⟩, h⟩, hrun, hres⟩ := (Option.any_eq_true _ _).mp hres
  have hent := of_decide_eq_true hres
  have hp : (SchedOp.add 8192).Proper twoCpus := by decide +kernel
  refine ⟨h, hrun, ?_, ?_, hent⟩
  · rcases schedOp_step layout_twoCpus.cpus_pos _ _ _ hrun with ⟨rfl, -⟩ | hs
    · exact layout_twoCpus
    · exact hs.layout layout_twoCpus
  · rcases schedOp_step layout_twoCpus.cpus_pos _ _ _ hrun with ⟨rfl, -⟩ | hs
    · exact queues_twoCpus.wellFormed
    · obtain ⟨q, hq, -⟩ := hs.queues layout_twoCpus queues_twoCpus hp
      exact hq.wellFormed

theorem affinity_honoured_cpu0 : ∃ h₀ h₁, (SchedOp.add 8192).run.run twoCpus = some ((), h₀) ∧
    (vcpuSetAffinity (some 8192) (onlyCpu 0)).run h₀ = some (.ok, h₁) ∧
    Along SchedOp.run (SchedOp.Honours 65536 (onlyCpu 0))
      [.yield 8192, .loadBalance 0, .remove 8192, .add 12288, .add 8192] h₁ := by
  obtain ⟨h₀, hadd, hl, hwf, hent⟩ := added_twoCpus
  have hres : ((SchedOp.add 8192).run.run twoCpus).all (fun p =>
      ((vcpuSetAffinity (some 8192) (onlyCpu 0)).run p.2).any fun r => r.1 = .ok ∧
        Along SchedOp.run (fun op h => op.Proper h ∧ op.ChoosesAllowed 8192 65536 (onlyCpu 0) h)
          [.yield 8192, .loadBalance 0, .remove 8192, .add 12288, .add 8192] r.2) = true := by
    decide +kernel
  rw [hadd] at hres
  obtain ⟨⟨r, h₁⟩, hset, hres⟩ := (Option.any_eq_true _ _).mp hres
  obtain ⟨rfl, hC⟩ := of_decide_eq_true hres
  exact ⟨h₀, h₁, hadd, hset, affinity_honoured hl hwf hent hset hC⟩

/-- A vCPU that is allowed on CPU 1 only is removed and added again, to CPU 0. -/
theorem affinity_ignored : ∃ h₀ h₁, (SchedOp.add 8192).run.run twoCpus = some ((), h₀) ∧
    h₀.entityOf 8192 = some 65536 ∧
    (vcpuSetAffinity (some 8192) (onlyCpu 1)).run h₀ = some (.ok, h₁) ∧
    (onlyCpu 1).allows 1 = true ∧ 1 < h₁.hv.onlineCpuCount ∧
    Along SchedOp.run SchedOp.Proper [.remove 8192, .add 8192] h₁ ∧
    ¬ Along SchedOp.run (SchedOp.Honours 65536 (onlyCpu 1)) [.remove 8192, .add 8192] h₁ := by
  obtain ⟨h₀, hadd, hl, hwf, hent⟩ := added_twoCpus
  have hres : ((SchedOp.add 8192).run.run twoCpus).all (fun p =>
      ((vcpuSetAffinity (some 8192) (onlyCpu 1)).run p.2).any fun r => r.1 = .ok ∧
        1 < r.2.hv.onlineCpuCount ∧ Along SchedOp.run SchedOp.Proper [.remove 8192, .add 8192] r.2 ∧
        ((SchedOp.remove 8192).run.run r.2).any (fun t => t.2.runqueue 0 = some [] ∧
          ((SchedOp.add 8192).run.run t.2).any fun w => w.2.gCpuCount = 2 ∧
            w.2.runqueue 0 = some [.entity 65536])) = true := by
    decide +kernel
  rw [hadd] at hres
  obtain ⟨⟨r, h₁⟩, hset, hres⟩ := (Option.any_eq_true _ _).mp hres
  obtain ⟨rfl, honline, hproper, hres⟩ := of_decide_eq_true hres
  obtain ⟨⟨⟨⟩, h₂⟩, hremove, hres⟩ := (Option.any_eq_true _ _).mp hres
  obtain ⟨hempty, hres⟩ := of_decide_eq_true hres
  obtain ⟨⟨⟨⟩, h₃⟩, hagain, hres⟩ := (Option.any_eq_true _ _).mp hres
  obtain ⟨hcpus, hqueue⟩ := of_decide_eq_true hres
  refine ⟨h₀, h₁, hadd, hent, hset, by decide, honline, hproper, fun ⟨_, hafter⟩ => ?_⟩
  obtain ⟨-, hplaced⟩ := (hafter () h₂ hremove).1 h₃ hagain
  have hnot : ¬ h₂.OnQueue 65536 0 := by
    rintro ⟨nodes, hnodes, hmem⟩
    have hnil : some ([] : List Node) = some nodes := hempty.symm.trans hnodes
    cases hnil
    cases hmem
  have hallowed := hplaced 0 (hcpus ▸ by decide) ⟨⟨_, hqueue, List.mem_singleton_self _⟩, .inl hnot⟩
  exact absurd hallowed (by decide)

end NexusVM
