import NexusVM.Placement
import NexusVM.Unwinding

/-!
# Which creations succeed

* `vcpuRequests`, `vmRequests`: everything `vm_create` asks the allocator for;
* `vcpuCreate_requests`, `createVcpus_requests`: the part for the vCPUs;
* **`vmCreate_outcome`**: a creation succeeds just if all requests are served.
-/

namespace NexusVM

open Prog

variable {h h' h₀ : Host} {vm c : Addr} {v : Nexusvm} {config : VmConfig}

/-! ## Requests -/

/-- What the vendor module asks for when a vCPU is created. -/
def vendorRequests (hv : Hypervisor) : List (BlockKind × ℕ × ℕ) :=
  match hv.cpuVendor with
  | .intel => [(.vmxonRegion, 4096, vmxRegionSize hv), (.vmcsRegion, 4096, vmxRegionSize hv)]
  | .amd => [(.vmcb, 4096, 4096)]
  | .unknown => []

/-- What `vcpu_create` asks for. -/
def vcpuRequests (hv : Hypervisor) : List (BlockKind × ℕ × ℕ) :=
  vcpuRequest :: (.msrBitmap, 16, 1 * (4096 * 2)) :: (.ioBitmap, 16, 1 * 4096) ::
    (.ioBitmap, 16, 1 * 4096) :: vendorRequests hv

/-- What `vm_create` asks for. -/
def vmRequests (hv : Hypervisor) (config : VmConfig) : List (BlockKind × ℕ × ℕ) :=
  (.vm, 16, 1 * sizeofNexusvm) :: (prepareRequests config ++
    (List.replicate config.vcpuCount.toNat (vcpuRequests hv)).flatten)

theorem wlp_requests_bind {α β : Type} {x : HostM α} {f : α → HostM β} (rs : List _) {rs' : List _}
    (ok : α → Prop) {ok' : β → Prop} (hx : wlp x (fun a h₁ => Requests rs h (ok a) h₁ ∧
      (ok a → wlp (f a) (fun b h₂ => Requests rs' h₁ (ok' b) h₂) h₁) ∧
      (¬ ok a → wlp (f a) (fun b _ => ¬ ok' b) h₁)) h) :
    wlp (x >>= f) (fun b h₂ => Requests (rs ++ rs') h (ok' b) h₂) h := by
  rw [wlp_bind]
  refine wlp_mono hx ?_
  rintro a h₁ ⟨hreq, hgo, hstop⟩
  by_cases ha : ok a
  · refine wlp_mono (hgo ha) fun b h₂ hreq' rest => ?_
    rw [List.append_assoc, hreq, hreq' rest]
    exact and_iff_right ha
  · refine wlp_mono (hstop ha) fun b h₂ hb rest => ?_
    rw [List.append_assoc, hreq]
    simp [ha, hb]

theorem alignedAlloc_requests (kind : BlockKind) (align size : ℕ) :
    wlp (onMem (alignedAlloc kind align size)) (fun o h' => h'.hv = h.hv ∧
      Requests [(kind, align, size)] h (o ≠ none) h') h := by
  refine (wp_alignedAlloc_first (fun a hf hs => ?_) fun hn => ?_).wlp
  · exact ⟨rfl, fun rest => by simpa using hs rest⟩
  · exact ⟨rfl, fun rest => by simpa using hn rest⟩

/-! ## vCPUs -/

theorem wlp_error {α : Type} {x : HostM α} {e : Result} :
    wlp (x >>= fun _ => (pure (.error e) : HostM (Except Result Addr)))
      (fun r _ => ¬ ∃ a, r = .ok a) h := by
  rw [wlp_bind]
  intro _ _ _
  rw [wlp_pure]
  rintro ⟨a, ha⟩
  cases ha

theorem vcpuVendorInit_requests (c : Addr) :
    wlp (vcpuVendorInit c) (fun r h' => Requests (vendorRequests h.hv) h (r = .ok) h') h := by
  rw [vcpuVendorInit, wlp_bind, wlp_getHv]
  intro _
  unfold vendorRequests
  cases h.hv.cpuVendor with
  | intel =>
    dsimp only
    rw [vmxVcpuInit, wlp_bind, wlp_getHv]
    intro _
    refine wlp_requests_bind [_] (fun o => o ≠ none) (wlp_mono (alignedAlloc_requests _ _ _) ?_)
    rintro region h₁ ⟨-, hreq⟩
    refine ⟨hreq, fun hsome => ?_, fun hnone => ?_⟩
    swap
    · obtain rfl := not_not.mp hnone
      simp
    obtain ⟨region, rfl⟩ := Option.ne_none_iff_exists'.mp hsome
    simp only [wlp_bind (getVcpu c), wlp_getVcpu, wlp_bind (putVcpu c _), wlp_putVcpu]
    intro u _
    rw [← List.append_nil [_]]
    refine wlp_requests_bind _ (fun o => o ≠ none) (wlp_mono (alignedAlloc_requests _ _ _) ?_)
    rintro vmcs h₂ ⟨-, hreq⟩
    refine ⟨hreq, fun hsome => ?_, fun hnone => ?_⟩
    · obtain ⟨vmcs, rfl⟩ := Option.ne_none_iff_exists'.mp hsome
      simp only [wlp_bind, wlp_getVcpu, wlp_putVcpu, wlp_pure]
      exact fun _ _ rest => by simp
    · obtain rfl := not_not.mp hnone
      rw [wlp_bind]
      intro _ _ _
      rw [wlp_pure]
      exact Result.noConfusion
  | amd =>
    dsimp only
    rw [svmVcpuInit, ← List.append_nil [_]]
    refine wlp_requests_bind _ (fun o => o ≠ none) (wlp_mono (alignedAlloc_requests _ _ _) ?_)
    rintro vmcb h₁ ⟨-, hreq⟩
    refine ⟨hreq, fun hsome => ?_, fun hnone => ?_⟩
    · obtain ⟨vmcb, rfl⟩ := Option.ne_none_iff_exists'.mp hsome
      simp only [wlp_bind, wlp_getVcpu, wlp_putVcpu, wlp_pure]
      exact fun _ _ rest => by simp
    · obtain rfl := not_not.mp hnone
      simp
  | unknown =>
    dsimp only
    rw [wlp_pure]
    exact fun rest => by simp

/-- **A vCPU is created** just if all its requests are served. -/
theorem vcpuCreate_requests (vm : Addr) (i : UInt32) :
    wlp (vcpuCreate vm i) (fun r h' => Requests (vcpuRequests h.hv) h (∃ c, r = .ok c) h') h := by
  rw [vcpuCreate, vcpuRequests]
  generalize hrs : vendorRequests h.hv = rs
  refine wlp_requests_bind [_] (fun o => o ≠ none) (wlp_mono (alignedAlloc_requests _ _ _) ?_)
  rintro c h₁ ⟨hhv, hreq⟩
  refine ⟨hreq, fun hsome => ?_, fun hnone => ?_⟩
  swap
  · obtain rfl := not_not.mp hnone
    simp
  obtain ⟨c, rfl⟩ := Option.ne_none_iff_exists'.mp hsome
  simp only [wlp_bind getHv, wlp_getHv, wlp_bind (require _), wlp_require, wlp_bind (putVcpu c _),
    wlp_putVcpu]
  intro _ _
  refine wlp_requests_bind [_] (fun o => o ≠ none) (wlp_mono (alignedAlloc_requests _ _ _) ?_)
  rintro msrBitmap h₂ ⟨hhv₂, hreq⟩
  refine ⟨hreq, fun hsome => ?_, fun hnone => ?_⟩
  swap
  · obtain rfl := not_not.mp hnone
    exact wlp_error
  obtain ⟨msrBitmap, rfl⟩ := Option.ne_none_iff_exists'.mp hsome
  refine wlp_requests_bind [_] (fun o => o ≠ none) (wlp_mono (alignedAlloc_requests _ _ _) ?_)
  rintro ioBitmapA h₃ ⟨hhv₃, hreq⟩
  refine ⟨hreq, fun hsome => ?_, fun hnone => ?_⟩
  swap
  · -- the other bitmap is asked for all the same
    obtain rfl := not_not.mp hnone
    rw [wlp_bind]
    intro ioBitmapB h₄ _
    simp only [wlp_bind (getVcpu c), wlp_getVcpu, wlp_bind (putVcpu c _), wlp_putVcpu]
    intro u _
    rw [if_pos (by simp)]
    exact wlp_error
  obtain ⟨ioBitmapA, rfl⟩ := Option.ne_none_iff_exists'.mp hsome
  refine wlp_requests_bind [_] (fun o => o ≠ none) (wlp_mono (alignedAlloc_requests _ _ _) ?_)
  rintro ioBitmapB h₄ ⟨hhv₄, hreq⟩
  refine ⟨hreq, fun hsome => ?_, fun hnone => ?_⟩ <;>
    simp only [wlp_bind (getVcpu c), wlp_getVcpu, wlp_bind (putVcpu c _), wlp_putVcpu] <;> intro u _
  swap
  · obtain rfl := not_not.mp hnone
    rw [if_pos (by simp)]
    exact wlp_error
  obtain ⟨ioBitmapB, rfl⟩ := Option.ne_none_iff_exists'.mp hsome
  rw [if_neg (by simp), ← List.append_nil rs]
  refine wlp_requests_bind _ (fun r => r = .ok) (wlp_mono (vcpuVendorInit_requests c) ?_)
  intro r h₅ hreq
  have hhv' : h₄.hv = h.hv := hhv₄.trans (hhv₃.trans (hhv₂.trans hhv))
  rw [Host.setVcpu_hv, hhv', hrs] at hreq
  refine ⟨hreq, fun hr => ?_, fun hr => ?_⟩
  · rw [if_neg (not_not.mpr hr), wlp_pure]
    exact fun rest => by simp
  · rw [if_pos hr]
    exact wlp_error

/-- **All vCPUs are created** just if all their requests are served. -/
theorem createVcpus_requests (hinit : h₀.gInitialized = true) (hcpus : h₀.hv.onlineCpuCount ≠ 0)
    (hnone : ∀ c, Fresh h₀.mem c → h₀.vcpus c = none) {cs : List Addr} (hb : Builds vm h₀ v cs h)
    (hcs : v.vcpus = cs) (n : ℕ) (i : UInt32) : wlp (createVcpus vm n i) (fun r h' =>
      Requests (List.replicate n (vcpuRequests h₀.hv)).flatten h (r = .ok) h') h := by
  subst hcs
  induction n generalizing i v h with
  | zero =>
    rw [createVcpus, wlp_pure]
    exact fun rest => by simp
  | succ n ih =>
    have hhv : vcpuRequests h.hv = vcpuRequests h₀.hv := by
      rw [hb.shape]
      rfl
    have hcpus' : h.hv.onlineCpuCount ≠ 0 := by
      rw [hb.shape]
      exact hcpus
    have hinit' : h.gInitialized = true := by
      rw [hb.shape]
      exact hinit
    have hnone' : ∀ c, Fresh h.mem c → h.vcpus c = none := hb.vcpus_none hnone
    rw [createVcpus, List.replicate_succ, List.flatten_cons]
    refine wlp_requests_bind _ (fun r => ∃ c, r = .ok c) ?_
    refine wlp_mono (wlp_and (vcpuCreate_spec hinit' hcpus' hnone' vm i).wlp (vcpuCreate_requests vm i)) ?_
    rintro r h₁ ⟨⟨m, ha, hr⟩, hreq⟩
    rw [hhv] at hreq
    refine ⟨hreq, ?_, fun herr => ?_⟩
    · rintro ⟨c, rfl⟩
      obtain ⟨u, rfl, hnew, hheld⟩ := hr
      have hfresh : Fresh h.mem c := hnew.blocks (.vcpu, some c) (by simp [vcpuBlocks]) c rfl
      have hb' := hb.addVcpu ha hnew hheld (hnone' c hfresh)
      simp only [wlp_bind, wlp_getVm, wlp_putVm]
      intro w hw
      obtain rfl := Option.some.inj (hb.getVm.symm.trans hw)
      exact ih (i + 1) hb'
    · cases r with
      | ok c => exact absurd ⟨c, rfl⟩ herr
      | error e =>
        obtain ⟨he, rfl⟩ := hr
        dsimp only
        rw [wlp_bind]
        intro w _ _
        rw [wlp_bind]
        intro _ _ _
        rw [wlp_pure]
        exact he

/-! ## Virtual machines -/

/-- **Which creations succeed.** -/
theorem vmCreate_outcome (hinit : h.gInitialized = true) (honline : h.hv.onlineCpuCount ≠ 0)
    (hnone : ∀ c, Fresh h.mem c → h.vcpus c = none) (config : VmConfig) :
    wlp (vmCreate (some config))
      (fun r _ => (∃ a, r = .ok a) ↔ h.mem.heap.ServesAll (vmRequests h.hv config)) h := by
  rw [vmCreate, wlp_bind, wlp_get]
  simp only [hinit, Bool.not_true, Bool.false_eq_true, if_false]
  rw [wlp_bind, calloc]
  refine (wp_alignedAlloc_first (fun vm hf hs => ?_) fun hno => ?_).wlp
  swap
  · rw [wlp_pure]
    refine iff_of_false ?_ (hno _)
    rintro ⟨a, ha⟩
    cases ha
  simp only [wlp_bind getHv, wlp_bind (putHv _), wlp_bind (fetch _), wlp_bind (putVm _ _), wlp_getHv,
    wlp_putHv, wlp_fetch, wlp_putVm]
  rintro - name -
  have hb := builds_beginVm hf config name
  have hvm : (h.beginVm vm config name).vms vm ≠ none := by
    rw [hb.getVm]
    exact Option.some_ne_none _
  rw [vmRequests, hs]
  change wlp _ (fun r _ => _ ↔ (h.beginVm vm config name).mem.heap.ServesAll _) (h.beginVm vm config name)
  -- the record is there; what is left is what `vmBuild` asks for
  have hbuild : wlp (vmBuild vm config) (fun r _ => r = .ok ↔ (h.beginVm vm config name).mem.heap.ServesAll
      (prepareRequests config ++ (List.replicate config.vcpuCount.toNat (vcpuRequests h.hv)).flatten))
      (h.beginVm vm config name) := by
    have hreqs : wlp (vmBuild vm config) (fun r h' => Requests (prepareRequests config ++
        (List.replicate config.vcpuCount.toNat (vcpuRequests h.hv)).flatten) (h.beginVm vm config name)
        (r = .ok) h') (h.beginVm vm config name) := by
      rw [vmBuild_eq]
      refine wlp_requests_bind _ (fun r => r = .ok) ?_
      refine wlp_mono (wp_and (vmPrepare_requests hvm) (vmPrepare_spec rfl rfl hb)).wlp ?_
      rintro r h₁ ⟨hreq, w, -, hw, -, hb₁⟩
      refine ⟨hreq, fun hr => ?_, fun hr => ?_⟩
      · rw [if_neg (not_not.mpr hr)]
        exact createVcpus_requests hinit honline hnone hb₁ hw _ 0
      · rw [if_pos hr, wlp_pure]
        exact hr
    refine wlp_mono hreqs fun r h' hreq => ?_
    have hall := hreq []
    rw [List.append_nil] at hall
    rw [hall]
    exact (and_iff_left trivial).symm
  rw [wlp_bind]
  refine wlp_mono hbuild fun r h₁ hok => ?_
  refine wlp_ite (fun hr => ?_) fun hr => ?_ <;> rw [wlp_bind] <;> intro _ _ _ <;> rw [wlp_pure, ← hok]
  · refine iff_of_false ?_ hr
    rintro ⟨a, ha⟩
    cases ha
  · exact iff_of_true ⟨vm, rfl⟩ (not_not.mp hr)

end NexusVM
