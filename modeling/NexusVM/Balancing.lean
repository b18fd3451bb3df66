import NexusVM.Homes
import NexusVM.Lib.Balance

/-!
# Load balancing

* `Assignment`: runqueues with fewer than 2 ^ 31 entities each;
* `Assignment.scan`: the search for the least loaded other CPU;
* **`Assignment.balance`**: `scheduler_load_balance` moves an entity just if the queue is longer than a shortest
  other one by more than two;
* **`load_balancing_converges`**: so any sequence of calls moves finitely many, and what no call changes is
  balanced.
-/

namespace NexusVM

open Prog Balance

variable {n : ℕ} {h : Host} {q q' : Fin n → List Addr}

/-- The runqueues of the `n` CPUs consist of the entities `q`, and are not too long to be counted. -/
structure Assignment (n : ℕ) (h : Host) (q : Fin n → List Addr) : Prop where
  cpus : h.gCpuCount.toNat = n
  rings : DList.Rings h.links (fun i : Fin n => .head i) fun i => (q i).map Node.entity
  held : ∀ i, ∀ e ∈ q i, h.mem.heap.Holds .entity e
  short : ∀ i, (q i).length < 2 ^ 31

theorem Assignment.unique (ha : Assignment n h q) (ha' : Assignment n h q') : q = q' := by
  funext i
  exact List.map_injective_iff.mpr Node.entity_injective ((ha.rings.ring i).unique (ha'.rings.ring i))

theorem Assignment.runqueue (ha : Assignment n h q) (i : Fin n) :
    h.runqueue i = some ((q i).map Node.entity) :=
  runqueue_of_held (ha.rings.ring i) (ha.held i)

theorem Assignment.load (ha : Assignment n h q) (i : Fin n) : (h.load i).toNat = (q i).length := by
  have hlt := ha.short i
  rw [Host.load, ha.runqueue i, Option.getD_some, List.length_map, UInt32.toNat_ofNat',
    Nat.mod_eq_of_lt (by omega)]

theorem Assignment.queueLoad (ha : Assignment n h q) (i : Fin n) :
    wp (queueLoad i) (fun r h' => h' = h ∧ r = h.load i) h := by
  simp only [NexusVM.queueLoad, NexusVM.runqueue, wp_bind, wp_fetch, wp_pure]
  exact ⟨_, ha.runqueue i, trivial, by rw [Host.load, ha.runqueue i]; rfl⟩

theorem Assignment.leastLoaded_returns (ha : Assignment n h q) {cpu tgt : ℕ} {minLoad : UInt32} (is : List ℕ)
    (his : ∀ i ∈ is, i < n) : wp (leastLoaded cpu is minLoad tgt) (fun _ _ => True) h := by
  induction is generalizing minLoad tgt with
  | nil =>
    rw [leastLoaded, wp_pure]
    trivial
  | cons i is ih =>
    have hrest (m : UInt32) (t : ℕ) : wp (leastLoaded cpu is m t) (fun _ _ => True) h :=
      ih fun j hj => his j (List.mem_cons_of_mem _ hj)
    refine wp_ite (fun _ => hrest _ _) fun _ => ?_
    rw [wp_bind]
    refine wp_mono (ha.queueLoad ⟨i, his i List.mem_cons_self⟩) ?_
    rintro _ _ ⟨rfl, rfl⟩
    exact wp_ite (fun _ => hrest _ _) fun _ => hrest _ _

/-- **The search for the least loaded CPU** other than `cpu` finds it if there is one. -/
theorem Assignment.scan (ha : Assignment n h q) {cpu i : ℕ} (hi : i < n) (hne : i ≠ cpu) :
    wp (leastLoaded cpu (List.range n) 0xFFFFFFFF 0) (fun r h' => h' = h ∧ r.1 = h.load r.2 ∧ r.2 < n ∧
      r.2 ≠ cpu ∧ ∀ k < n, k ≠ cpu → h.load r.2 ≤ h.load k) h := by
  have hscan : Scanned h cpu 0 0xFFFFFFFF 0 := ⟨fun i hi => absurd hi i.not_lt_zero, .inl ⟨rfl, rfl⟩⟩
  have hspec := leastLoaded_scanned (m := n) hscan
  rw [← List.range_eq_range', Nat.zero_add] at hspec
  refine wp_mono (wp_and_wlp (ha.leastLoaded_returns _ fun i hi => List.mem_range.mp hi) hspec) ?_
  rintro ⟨minLoad, tgt⟩ _ ⟨-, rfl, hs⟩
  rcases hs.found with ⟨hmax, -⟩ | ⟨hlt, htgt, hmin, -⟩
  · -- the load of the other CPU is below the sentinel
    have hle := UInt32.le_iff_toNat_le.mp (hs.le i hi hne)
    have hload := ha.load ⟨i, hi⟩
    have hshort := ha.short ⟨i, hi⟩
    have hsentinel := congrArg UInt32.toNat hmax
    change _ = 2 ^ 32 - 1 at hsentinel
    change (Host.load _ i).toNat = _ at hload
    omega
  · exact ⟨rfl, hmin, hlt, htgt, fun k hk hkc => hmin ▸ hs.le k hk hkc⟩

theorem Assignment.move (ha : Assignment n h q) {i j : Fin n} (hij : j ≠ i) {e : Addr} {es : List Addr}
    (hq : q i = e :: es) (hshort : (q j).length + 1 < 2 ^ 31) :
    Assignment n (h.setLinks (listAddTail (listDel h.links (.entity e)) (.entity e) (.head j)))
      (Function.update (Function.update q i es) j (q j ++ [e])) := by
  have hmem : Node.entity e ∈ (q i).map Node.entity := by simp [hq]
  have hnd := (List.nodup_cons.mp (ha.rings.ring i).nodup).2
  rw [hq, List.map_cons, List.nodup_cons] at hnd
  -- between the two stores the entity is on no queue
  have hgone : DList.Rings (listDel h.links (.entity e)) (fun i : Fin n => .head i)
      (List.map Node.entity ∘ Function.update q i es) := by
    have hrem := ha.rings.remove hmem
    rw [hq, List.map_cons, List.erase_cons_head] at hrem
    rw [Function.comp_update]
    exact hrem
  have hfree : ∀ k : Fin n, Node.entity e ∉ .head k :: (List.map Node.entity ∘ Function.update q i es) k := by
    intro k
    rw [List.mem_cons, Function.comp_apply, not_or]
    refine ⟨by simp, fun hk => ?_⟩
    by_cases hki : k = i
    · rw [hki, Function.update_self] at hk
      exact hnd.1 hk
    · rw [Function.update_of_ne hki] at hk
      exact hki (ha.rings.eq_of_mem hk hmem)
  have hback := hgone.insertBefore j hfree
  rw [Function.comp_apply, Function.update_of_ne hij, ← List.map_singleton, ← List.map_append,
    ← Function.comp_update] at hback
  refine ⟨ha.cpus, hback, fun k d hd => ?_, fun k => ?_⟩
  · by_cases hkj : k = j
    · rw [hkj, Function.update_self, List.mem_append, List.mem_singleton] at hd
      rcases hd with hd | rfl
      · exact ha.held j d hd
      · exact ha.held i d (by simp [hq])
    · rw [Function.update_of_ne hkj] at hd
      by_cases hki : k = i
      · rw [hki, Function.update_self] at hd
        exact ha.held i d (by simp [hq, hd])
      · rw [Function.update_of_ne hki] at hd
        exact ha.held k d hd
  · by_cases hkj : k = j
    · rwa [hkj, Function.update_self, List.length_append, List.length_singleton]
    · rw [Function.update_of_ne hkj]
      by_cases hki : k = i
      · have hlen := ha.short i
        rw [hq, List.length_cons] at hlen
        rw [hki, Function.update_self]
        omega
      · rw [Function.update_of_ne hki]
        exact ha.short k

/-- **What a call does**: nothing just if the queue is not longer than a shortest other one by more than two. -/
theorem Assignment.balance (ha : Assignment n h q) (hn : 2 ≤ n) (cpu : UInt32) :
    wp (schedulerLoadBalance cpu) (fun _ h' =>
      (h' = h ∧ ∀ i : Fin n, i.val = cpu.toNat → ∀ q', ¬ Moves q i q') ∨
      ∃ (i : Fin n) (q' : Fin n → List Addr) (l : DList.Links Node), i.val = cpu.toNat ∧ Moves q i q' ∧
        h' = h.setLinks l ∧ Assignment n h' q') h := by
  rw [schedulerLoadBalance, wp_bind, wp_get]
  refine wp_ite (fun hge => ?_) fun hlt => ?_
  · rw [wp_pure]
    refine .inl ⟨rfl, fun i hi => absurd (UInt32.le_iff_toNat_le.mp hge) ?_⟩
    have hin := i.isLt
    rw [ha.cpus]
    omega
  have hcpu : cpu.toNat < n := by
    rw [← ha.cpus]
    exact UInt32.lt_iff_toNat_lt.mp (UInt32.not_le.mp hlt)
  obtain ⟨other, hother, hne⟩ : ∃ other < n, other ≠ cpu.toNat := by
    by_cases hzero : cpu.toNat = 0
    · exact ⟨1, by omega, by omega⟩
    · exact ⟨0, by omega, by omega⟩
  rw [wp_bind, ha.cpus]
  refine wp_mono (ha.scan hother hne) ?_
  rintro ⟨minLoad, tgt⟩ _ ⟨rfl, hmin, htgt, htne, hleast⟩
  dsimp only at hmin htgt htne hleast
  rw [wp_bind]
  refine wp_mono (ha.queueLoad ⟨cpu.toNat, hcpu⟩) ?_
  rintro _ h ⟨rfl, rfl⟩
  have hsrc := ha.load ⟨cpu.toNat, hcpu⟩
  have hdst := ha.load ⟨tgt, htgt⟩
  have hshort := ha.short ⟨tgt, htgt⟩
  have hle : ∀ k : Fin n, k.val ≠ cpu.toNat → (q ⟨tgt, htgt⟩).length ≤ (q k).length := fun k hk => by
    rw [← hdst, ← ha.load k]
    exact UInt32.le_iff_toNat_le.mp (hleast k k.isLt hk)
  have hsum : (h.load tgt + 2).toNat = (q ⟨tgt, htgt⟩).length + 2 := by
    rw [UInt32.toNat_add, hdst]
    exact Nat.mod_eq_of_lt (by change _ + 2 < _; omega)
  rw [hmin]
  refine wp_ite (fun hgt => ?_) fun hgt => ?_
  · have hlong := UInt32.lt_iff_toNat_lt.mp hgt
    rw [hsum, hsrc] at hlong
    have hne' : (⟨tgt, htgt⟩ : Fin n) ≠ ⟨cpu.toNat, hcpu⟩ := fun heq => htne (congrArg Fin.val heq)
    cases hq : q ⟨cpu.toNat, hcpu⟩ with
    | nil => simp [hq] at hlong
    | cons e es =>
      have hnext : h.links.next (.head cpu.toNat) = .entity e := by
        have hfirst := (ha.rings.ring ⟨cpu.toNat, hcpu⟩).next_head
        rw [hq] at hfirst
        exact hfirst
      have hhead : listEmpty h.links (.head cpu.toNat) = false := by simp [listEmpty, hnext]
      rw [hhead, Bool.not_false, if_pos rfl, wp_putLinks, hnext]
      have hfit : (q ⟨cpu.toNat, hcpu⟩).length < 2 ^ 31 := ha.short _
      exact .inr ⟨⟨cpu.toNat, hcpu⟩, _, _, rfl, ⟨⟨tgt, htgt⟩, e, es, hne', hq, fun k hk =>
        hle k fun heq => hk (Fin.ext heq), hlong, rfl⟩, rfl, ha.move hne' hq (by omega)⟩
  · -- the queue is not longer than the least loaded other one by more than two
    rw [wp_pure]
    refine .inl ⟨rfl, ?_⟩
    rintro i hi q' ⟨j, -, -, hji, -, -, hlt, -⟩
    refine hgt (UInt32.lt_iff_toNat_lt.mpr ?_)
    obtain rfl : i = ⟨cpu.toNat, hcpu⟩ := Fin.ext hi
    have hj := hle j fun heq => hji (Fin.ext heq)
    rw [hsum, hsrc]
    omega

theorem Assignment.call (ha : Assignment n h q) (hn : 2 ≤ n) (cpu : UInt32) : ∃ l q',
    (schedulerLoadBalance cpu).run h = some ((), h.setLinks l) ∧ Assignment n (h.setLinks l) q' ∧
    (h.setLinks l = h ∧ q' = q ∨ ∃ i : Fin n, i.val = cpu.toNat ∧ Moves q i q') := by
  obtain ⟨_, _, hrun, ⟨rfl, -⟩ | ⟨i, q', l, hi, hm, rfl, ha'⟩⟩ := ha.balance hn cpu
  · exact ⟨_, q, hrun, ha, .inl ⟨rfl, rfl⟩⟩
  · exact ⟨l, q', hrun, ha', .inr ⟨i, hi, hm⟩⟩

/-- **Any sequence of calls** changes the host finitely often. -/
theorem Assignment.calls (ha : Assignment n h q) (hn : 2 ≤ n) (calls : ℕ → UInt32) :
    ∃ (hs : ℕ → Host) (qs : ℕ → Fin n → List Addr), hs 0 = h ∧ qs 0 = q ∧
      (∀ k, (schedulerLoadBalance (calls k)).run (hs k) = some ((), hs (k + 1)) ∧ Assignment n (hs k) (qs k)) ∧
      {k | hs (k + 1) ≠ hs k}.Finite := by
  let State := { p : Host × (Fin n → List Addr) // Assignment n p.1 p.2 }
  have hstep : ∀ (cpu : UInt32) (s : State), ∃ s' : State,
      (schedulerLoadBalance cpu).run s.1.1 = some ((), s'.1.1) ∧
      (s'.1.1 = s.1.1 ∧ s'.1.2 = s.1.2 ∨ ∃ i, Moves s.1.2 i s'.1.2) := fun cpu s => by
    obtain ⟨l, q', hrun, ha', hcase⟩ := s.2.call hn cpu
    exact ⟨⟨(s.1.1.setLinks l, q'), ha'⟩, hrun, hcase.imp id fun ⟨i, _, hm⟩ => ⟨i, hm⟩⟩
  choose next hrun hcase using hstep
  let states : ℕ → State := Nat.rec ⟨(h, q), ha⟩ fun k s => next (calls k) s
  have hmoves := fun k => hcase (calls k) (states k)
  refine ⟨fun k => (states k).1.1, fun k => (states k).1.2, rfl, rfl,
    fun k => ⟨hrun (calls k) (states k), (states k).2⟩, ?_⟩
  have hfin := finite_moves (fun k => (states k).1.2) fun k => (hmoves k).imp And.right id
  refine hfin.subset fun k hk => ?_
  rcases hmoves k with ⟨hsame, -⟩ | ⟨i, hm⟩
  · exact absurd hsame hk
  · exact hm.ne

/-- **What no call changes is balanced.** -/
theorem Assignment.balanced (ha : Assignment n h q) (hn : 2 ≤ n)
    (hsame : ∀ cpu < h.gCpuCount, (schedulerLoadBalance cpu).run h = some ((), h)) (i j : Fin n) :
    (q i).length ≤ (q j).length + 2 := by
  refine balanced_of_forall (fun i q' hm => ?_) i j
  have hlt := i.isLt
  have hcount := h.gCpuCount.toNat_lt
  have hcpus := ha.cpus
  have hcpu : (UInt32.ofNat i).toNat = i := by
    rw [UInt32.toNat_ofNat', Nat.mod_eq_of_lt (by omega)]
  have hrun := hsame (UInt32.ofNat i) (UInt32.lt_iff_toNat_lt.mpr (by omega))
  rcases wp_run (ha.balance hn _) hrun with ⟨-, hno⟩ | ⟨k, q₁, l, -, hm', hl, ha'⟩
  · exact hno i hcpu.symm q' hm
  · exact hm'.ne (ha'.unique ha)

/-- **Load balancing converges.** With two CPUs or more, `scheduler_load_balance` of any CPU returns. It changes
nothing, or moves the first entity of the queue of that CPU to the end of a shortest other one, which was shorter
by more than two; the queued entities stay the same, and a move makes the sum of the squared lengths smaller. In
any sequence of calls finitely many change something, and once no call for a CPU does, no two lengths differ by
more than two. -/
theorem load_balancing_converges (ha : Assignment n h q) (hn : 2 ≤ n) :
    (∀ cpu, ∃ l q', (schedulerLoadBalance cpu).run h = some ((), h.setLinks l) ∧
      Assignment n (h.setLinks l) q' ∧ ∑ i, (q' i : Multiset Addr) = ∑ i, (q i : Multiset Addr) ∧
      (h.setLinks l = h ∧ q' = q ∨ (∃ i : Fin n, i.val = cpu.toNat ∧ Moves q i q') ∧
        ∑ i, (q' i).length ^ 2 < ∑ i, (q i).length ^ 2)) ∧
    (∀ calls : ℕ → UInt32, ∃ (hs : ℕ → Host) (qs : ℕ → Fin n → List Addr), hs 0 = h ∧ qs 0 = q ∧
      (∀ k, (schedulerLoadBalance (calls k)).run (hs k) = some ((), hs (k + 1)) ∧ Assignment n (hs k) (qs k)) ∧
      {k | hs (k + 1) ≠ hs k}.Finite) ∧
    ((∀ cpu < h.gCpuCount, (schedulerLoadBalance cpu).run h = some ((), h)) →
      ∀ i j, (q i).length ≤ (q j).length + 2) := by
  refine ⟨fun cpu => ?_, ha.calls hn, ha.balanced hn⟩
  obtain ⟨l, q', hrun, ha', ⟨hsame, rfl⟩ | ⟨i, hi, hm⟩⟩ := ha.call hn cpu
  · exact ⟨l, q', hrun, ha', rfl, .inl ⟨hsame, rfl⟩⟩
  · exact ⟨l, q', hrun, ha', hm.elements, .inr ⟨⟨i, hi, hm⟩, hm.squares⟩⟩

/-- Two CPUs, with three entities on the queue of the first. -/
def threeQueued : Host where
  __ := twoCpus
  links := listAddTail (listAddTail (listAddTail twoCpus.links (.entity 16384) (.head 0)) (.entity 20480)
    (.head 0)) (.entity 24576) (.head 0)
  mem := { bumpMem with heap := { bumpHeap with
    live := [16384, 20480, 24576].map fun a => ⟨.entity, a, sizeofSchedEntity⟩
    asked := 3 } }

theorem assignment_threeQueued :
    Assignment 2 threeQueued fun i => if i = 0 then [16384, 20480, 24576] else [] where
  cpus := rfl
  rings := by
    have hrings := ((queues_twoCpus.rings.insertBefore (e := .entity 16384) 0 (by simp)).insertBefore
      (e := .entity 20480) 0 (by decide)).insertBefore (e := .entity 24576) 0 (by decide)
    have hqueues : (fun i : Fin 2 => (if i = 0 then [16384, 20480, 24576] else []).map Node.entity) =
        Function.update (Function.update (Function.update (fun _ => []) 0 [.entity 16384]) 0
          [.entity 16384, .entity 20480]) 0 [.entity 16384, .entity 20480, .entity 24576] :=
      funext (Fin.forall_fin_two.mpr ⟨rfl, rfl⟩)
    rw [hqueues]
    exact hrings
  held := by
    have hheld : ∀ e ∈ [16384, 20480, 24576], threeQueued.mem.heap.Holds .entity e := by
      simp [Heap.Holds, threeQueued]
    intro i e he
    split_ifs at he
    · exact hheld e he
    · cases he
  short := by decide

theorem load_balancing_converges_three : ∃ l q', (schedulerLoadBalance 0).run threeQueued =
    some ((), threeQueued.setLinks l) ∧ Assignment 2 (threeQueued.setLinks l) q' ∧ (q' 0).length = 2 ∧
    (q' 1).length = 1 := by
  obtain ⟨l, q', hrun, ha, -⟩ := (load_balancing_converges assignment_threeQueued le_rfl).1 0
  have hlengths : ((schedulerLoadBalance 0).run threeQueued).map (fun p =>
      ((p.2.runqueue 0).map List.length, (p.2.runqueue 1).map List.length)) = some (some 2, some 1) := by
    decide +kernel
  have hzero := ha.runqueue 0
  have hone := ha.runqueue 1
  change (threeQueued.setLinks l).runqueue 0 = _ at hzero
  change (threeQueued.setLinks l).runqueue 1 = _ at hone
  rw [hrun, Option.map_some, hzero, hone, Option.map_some, Option.map_some, List.length_map, List.length_map] at hlengths
  simp only [Option.some.injEq, Prod.mk.injEq] at hlengths
  exact ⟨l, q', hrun, ha, hlengths⟩

end NexusVM
