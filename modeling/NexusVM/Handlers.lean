import NexusVM.Lib.Chain
import NexusVM.IoEmul

/-!
# The registries of handlers

The two linked lists of `io_emul.c`, with their pointers. The handlers are arbitrary programs.

* `HandlerState`: the heap, the lists `g_io_handlers` and `g_mmio_handlers`, and everything else;
* `ioPortRead`, `ioRegisterHandler`, `ioUnregisterHandler`, `mmioRead`, `mmioRegisterHandler`;
* `HandlerLists`: the priority lists that the registries stand for, the newest handler first;
* `Registered`, `Represents`, `HandlerOp.run_spec`: the nodes are live blocks and hold a list;
* **`handlers_refine`**: after every sequence of calls the registries act as the lists;
* `Emulates`, `Emulates.handlerOf`, `Emulates.ioRegister`, `Emulates.ioUnregister`: the port emulation on
  lists is an abstraction of the one on nodes.
-/

namespace NexusVM.Handlers

open Prog SList

variable {φ ψ ω : Type}

/-! ## The nodes -/

/-- `io_handler_t`, less its `next`. -/
structure IoHandlerEntry (φ : Type) where
  port : UInt16
  count : UInt16
  handler : φ
  context : Option Addr

/-- `mmio_handler_t`, less its `next`. -/
structure MmioHandlerEntry (ψ : Type) where
  start : UInt64
  end_ : UInt64
  handler : ψ
  context : Option Addr

/-- The sum is one of `int`s: it does not wrap. -/
def IoHandlerEntry.covers (port : UInt16) (e : IoHandlerEntry φ) : Bool :=
  port ≥ e.port ∧ port.toNat < e.port.toNat + e.count.toNat

def MmioHandlerEntry.covers (addr : UInt64) (e : MmioHandlerEntry ψ) : Bool :=
  addr ≥ e.start ∧ addr < e.end_

/-- The heap, the lists `g_io_handlers` and `g_mmio_handlers`, and what the handlers work on. -/
structure HandlerState (φ ψ ω : Type) where
  heap : Heap BlockKind
  io : Store Addr (IoHandlerEntry φ)
  mmio : Store Addr (MmioHandlerEntry ψ)
  world : ω

abbrev HandlerM (φ ψ ω : Type) : Type → Type := Prog (HandlerState φ ψ ω)

/-- No list has as many nodes. -/
def HandlerState.fuel (s : HandlerState φ ψ ω) : ℕ := s.heap.live.length + 1

def onHeap {α : Type} (x : Prog (Heap BlockKind) α) : HandlerM φ ψ ω α :=
  Prog.zoom HandlerState.heap (fun s h => { s with heap := h }) x

/-! ## Ports -/

/-- `io_register_handler` -/
def ioRegisterHandler (port count : UInt16) (handler : φ) (context : Option Addr) :
    HandlerM φ ψ ω Result := do
  match ← onHeap (Heap.alloc .ioHandler 16 sizeofIoHandler) with
  | none => return .errNoMemory
  | some entry =>
    modify fun s => { s with io := s.io.push entry ⟨port, count, handler, context⟩ }
    return .ok

/-- `io_unregister_handler` -/
def ioUnregisterHandler (port : UInt16) : HandlerM φ ψ ω Result := do
  match ← Prog.fetch fun s => s.io.seek (fun e => e.port = port) s.fuel .head s.io.head with
  | none => return .errNotFound
  | some (prev, entry, next) =>
    modify fun s => { s with io := s.io.unlink prev entry next }
    onHeap (modify fun h => h.release .ioHandler entry)
    return .ok

section Access

-- what the handlers do: the result, and what the variable holds then
variable (ioCall : φ → Addr → UInt16 → UInt32 → UInt64 → HandlerM φ ψ ω (Result × UInt64))
  (mmioCall : ψ → Addr → UInt64 → UInt32 → UInt64 → HandlerM φ ψ ω (Result × UInt64))

/-- `io_port_read`; the result comes with what `value` points at. -/
def ioPortRead (vcpu : Option Addr) (port : UInt16) (size : UInt32) (value : Option UInt64) :
    HandlerM φ ψ ω (Result × Option UInt64) :=
  match vcpu, value with
  | some vcpu, some _ => do
    match ← Prog.fetch fun s => s.io.find (IoHandlerEntry.covers port) s.fuel s.io.head with
    | some e => do
      let (result, value) ← ioCall e.handler vcpu port size 0
      return (result, some value)
    | none => return (.ok, some (noHandler size))
  | _, value => return (.errInvalidParam, value)

/-! ## Memory -/

/-- `mmio_read` -/
def mmioRead (vcpu : Option Addr) (addr : UInt64) (size : UInt32) (value : Option UInt64) :
    HandlerM φ ψ ω (Result × Option UInt64) :=
  match vcpu, value with
  | some vcpu, some _ => do
    match ← Prog.fetch fun s => s.mmio.find (MmioHandlerEntry.covers addr) s.fuel s.mmio.head with
    | some e => do
      let (result, value) ← mmioCall e.handler vcpu addr size 0
      return (result, some value)
    | none => return (.ok, some 0)
  | _, value => return (.errInvalidParam, value)

end Access

/-- `mmio_register_handler` -/
def mmioRegisterHandler (start end_ : UInt64) (handler : ψ) (context : Option Addr) :
    HandlerM φ ψ ω Result := do
  match ← onHeap (Heap.alloc .mmioHandler 16 sizeofMmioHandler) with
  | none => return .errNoMemory
  | some entry =>
    modify fun s => { s with mmio := s.mmio.push entry ⟨start, end_, handler, context⟩ }
    return .ok

/-! ## Priority lists -/

/-- The handlers in force, the newest one first. -/
structure HandlerLists (φ ψ : Type) where
  io : List (IoHandlerEntry φ) := []
  mmio : List (MmioHandlerEntry ψ) := []

section Access

variable (ioCall : φ → Addr → UInt16 → UInt32 → UInt64 → HandlerM φ ψ ω (Result × UInt64))
  (mmioCall : ψ → Addr → UInt64 → UInt32 → UInt64 → HandlerM φ ψ ω (Result × UInt64))

/-- A read of a port: the newest handler that covers it runs, else all bits are ones. -/
def HandlerLists.ioRead (l : HandlerLists φ ψ) (vcpu : Addr) (port : UInt16) (size : UInt32) :
    HandlerM φ ψ ω (Result × Option UInt64) :=
  match l.io.find? (IoHandlerEntry.covers port) with
  | some e => do
    let (result, value) ← ioCall e.handler vcpu port size 0
    return (result, some value)
  | none => return (.ok, some (noHandler size))

/-- A read of memory: the newest handler that covers the address runs, else it reads as zero. -/
def HandlerLists.mmioRead (l : HandlerLists φ ψ) (vcpu : Addr) (addr : UInt64) (size : UInt32) :
    HandlerM φ ψ ω (Result × Option UInt64) :=
  match l.mmio.find? (MmioHandlerEntry.covers addr) with
  | some e => do
    let (result, value) ← mmioCall e.handler vcpu addr size 0
    return (result, some value)
  | none => return (.ok, some 0)

end Access

/-- A call that changes a registry. -/
inductive HandlerOp (φ ψ : Type)
  | ioRegister (port count : UInt16) (handler : φ) (context : Option Addr)
  | ioUnregister (port : UInt16)
  | mmioRegister (start end_ : UInt64) (handler : ψ) (context : Option Addr)

def HandlerOp.run : HandlerOp φ ψ → HandlerM φ ψ ω Result
  | .ioRegister port count handler context => ioRegisterHandler port count handler context
  | .ioUnregister port => ioUnregisterHandler port
  | .mmioRegister start end_ handler context => mmioRegisterHandler start end_ handler context

/-- The allocation of the call is served. -/
def HandlerOp.Granted (op : HandlerOp φ ψ) (s : HandlerState φ ψ ω) : Prop :=
  match op with
  | .ioRegister _ _ _ _ => s.heap.Serves .ioHandler 16 sizeofIoHandler 1
  | .ioUnregister _ => True
  | .mmioRegister _ _ _ _ => s.heap.Serves .mmioHandler 16 sizeofMmioHandler 1

instance (op : HandlerOp φ ψ) (s : HandlerState φ ψ ω) : Decidable (op.Granted s) :=
  match op with
  | .ioRegister _ _ _ _ => inferInstanceAs (Decidable (s.heap.Serves .ioHandler 16 sizeofIoHandler 1))
  | .ioUnregister _ => .isTrue trivial
  | .mmioRegister _ _ _ _ =>
    inferInstanceAs (Decidable (s.heap.Serves .mmioHandler 16 sizeofMmioHandler 1))

/-- A new handler comes first; the first one that starts at the port goes. -/
def HandlerLists.after (l : HandlerLists φ ψ) : HandlerOp φ ψ → HandlerLists φ ψ
  | .ioRegister port count handler context =>
    { l with io := ⟨port, count, handler, context⟩ :: l.io }
  | .ioUnregister port => { l with io := l.io.eraseP fun e => e.port = port }
  | .mmioRegister start end_ handler context =>
    { l with mmio := ⟨start, end_, handler, context⟩ :: l.mmio }

/-! ## Nodes in the heap -/

/-- The list consists of live blocks and holds the data `ds`. -/
def Registered {β : Type} (h : Heap BlockKind) (kind : BlockKind) (s : Store Addr β) (ds : List β) :
    Prop :=
  ∃ xs, IsList s xs ∧ xs.map Prod.snd = ds ∧ ∀ a ∈ xs.map Prod.fst, h.Holds kind a

section Registered

variable {β : Type} {h : Heap BlockKind} {kind : BlockKind} {s : Store Addr β} {ds : List β}

theorem registered_nil (h : Heap BlockKind) (kind : BlockKind) (hs : s.head = none) :
    Registered h kind s [] :=
  ⟨[], ⟨hs, List.nodup_nil⟩, rfl, by simp⟩

theorem length_lt_of_holds {as : List Addr} (hnd : as.Nodup) (hh : ∀ a ∈ as, h.Holds kind a) :
    as.length < h.live.length + 1 := by
  have hsub : as ⊆ h.live.map Block.base := by
    intro a ha
    obtain ⟨b, hb, -, rfl⟩ := hh a ha
    exact List.mem_map_of_mem hb
  have hle := (hnd.subperm hsub).length_le
  rw [List.length_map] at hle
  exact Nat.lt_succ_of_le hle

theorem Registered.walk (hr : Registered h kind s ds) :
    s.walk (h.live.length + 1) s.head = some ds := by
  obtain ⟨xs, hxs, rfl, hh⟩ := hr
  have hlen := length_lt_of_holds hxs.nodup hh
  rw [List.length_map] at hlen
  exact hxs.visits.walk hlen

theorem Registered.find (hr : Registered h kind s ds) (f : β → Bool) :
    s.find f (h.live.length + 1) s.head = some (ds.find? f) := by
  obtain ⟨xs, hxs, rfl, hh⟩ := hr
  have hlen := length_lt_of_holds hxs.nodup hh
  rw [List.length_map] at hlen
  exact hxs.visits.find f hlen

theorem Registered.grant (hr : Registered h kind s ds) (b : Block BlockKind) :
    Registered (h.grant b) kind s ds := by
  obtain ⟨xs, hxs, hds, hh⟩ := hr
  exact ⟨xs, hxs, hds, fun a ha => (hh a ha).grant b⟩

theorem Registered.release (hr : Registered h kind s ds) {kind' : BlockKind} (hne : kind ≠ kind')
    (a : Addr) : Registered (h.release kind' a) kind s ds := by
  obtain ⟨xs, hxs, hds, hh⟩ := hr
  exact ⟨xs, hxs, hds, fun b hb => (hh b hb).release fun hc => hne hc.1⟩

/-- **A new block in front.** -/
theorem Registered.push (hr : Registered h kind s ds) {align size : ℕ} {a : Addr}
    (hf : h.Fits align ⟨kind, a, size⟩) (d : β) :
    Registered (h.grant ⟨kind, a, size⟩) kind (s.push a d) (d :: ds) := by
  obtain ⟨xs, hxs, rfl, hh⟩ := hr
  have ha : a ∉ xs.map Prod.fst := fun ha => hf.base_ne (hh a ha) rfl
  refine ⟨(a, d) :: xs, hxs.push ha d, rfl, ?_⟩
  rw [List.map_cons, List.forall_mem_cons]
  exact ⟨Heap.holds_grant_self h _, fun b hb => (hh b hb).grant _⟩

theorem holds_of_unlink {ys zs : List (Addr × β)} {a : Addr} {d : β}
    (hnd : ((ys ++ (a, d) :: zs).map Prod.fst).Nodup)
    (hh : ∀ b ∈ (ys ++ (a, d) :: zs).map Prod.fst, h.Holds kind b) :
    ∀ b ∈ (ys ++ zs).map Prod.fst, (h.release kind a).Holds kind b := by
  intro b hb
  rw [List.map_append, List.map_cons] at hnd hh
  rw [List.map_append] at hb
  have ha := (List.nodup_cons.mp (List.nodup_middle.mp hnd)).1
  refine (hh b ?_).release ?_
  · rw [List.mem_append, List.mem_cons]
    exact (List.mem_append.mp hb).imp_right .inr
  · rintro ⟨-, rfl⟩
    exact ha hb

/-- **The first block that satisfies a condition is taken out**, or there is none. -/
theorem Registered.unlink (hr : Registered h kind s ds) (f : β → Bool) :
    (s.seek f (h.live.length + 1) .head s.head = some none ∧ ∀ d ∈ ds, f d = false) ∨
    ∃ prev a q as d bs, s.seek f (h.live.length + 1) .head s.head = some (some (prev, a, q)) ∧
      ds = as ++ d :: bs ∧ (∀ d ∈ as, f d = false) ∧ f d = true ∧
      Registered (h.release kind a) kind (s.unlink prev a q) (as ++ bs) := by
  obtain ⟨xs, hxs, rfl, hh⟩ := hr
  have hlen := length_lt_of_holds hxs.nodup hh
  rw [List.length_map] at hlen
  rcases hxs.visits.seek f hlen .head with ⟨hnone, hall⟩ | ⟨ys, a, d, zs, q, rfl, hys, hd, hq, hsome⟩
  · exact .inl ⟨hnone, List.forall_mem_map.mpr hall⟩
  · refine .inr ⟨_, a, q, ys.map Prod.snd, d, zs.map Prod.snd, hsome, ?_, List.forall_mem_map.mpr hys,
      hd, ys ++ zs, hxs.unlink hq, List.map_append, holds_of_unlink hxs.nodup hh⟩
    rw [List.map_append, List.map_cons]

end Registered

/-! ## The registries stand for priority lists -/

structure Represents (s : HandlerState φ ψ ω) (l : HandlerLists φ ψ) : Prop where
  io : Registered s.heap .ioHandler s.io l.io
  mmio : Registered s.heap .mmioHandler s.mmio l.mmio

variable {s : HandlerState φ ψ ω} {l : HandlerLists φ ψ}

/-- The entries of `g_io_handlers`. -/
def HandlerState.ioEntries (s : HandlerState φ ψ ω) : Option (List (IoHandlerEntry φ)) :=
  s.io.walk s.fuel s.io.head

/-- The entries of `g_mmio_handlers`. -/
def HandlerState.mmioEntries (s : HandlerState φ ψ ω) : Option (List (MmioHandlerEntry ψ)) :=
  s.mmio.walk s.fuel s.mmio.head

theorem wp_onHeap_alloc {kind : BlockKind} {align size : ℕ}
    {Q : Option ℕ → HandlerState φ ψ ω → Prop} (hs : s.heap.Serves kind align size 1)
    (hsome : ∀ a, s.heap.Fits align ⟨kind, a, size⟩ →
      Q (some a) { s with heap := s.heap.grant ⟨kind, a, size⟩ }) :
    wp (onHeap (Heap.alloc kind align size)) Q s := by
  rw [onHeap, wp_zoom]
  exact Heap.wp_alloc (fun a _ hf => hsome a hf) fun hn => absurd hs hn

theorem ioRegisterHandler_spec (hr : Represents s l) {port count : UInt16} {handler : φ}
    {context : Option Addr} (hs : s.heap.Serves .ioHandler 16 sizeofIoHandler 1) :
    wp (ioRegisterHandler port count handler context) (fun result s' => result = .ok ∧
      Represents s' (l.after (.ioRegister port count handler context))) s := by
  rw [ioRegisterHandler, wp_bind]
  refine wp_onHeap_alloc hs fun a hf => ?_
  dsimp only
  rw [wp_bind, wp_modify, wp_pure]
  exact ⟨rfl, hr.io.push hf _, hr.mmio.grant _⟩

theorem mmioRegisterHandler_spec (hr : Represents s l) {start end_ : UInt64} {handler : ψ}
    {context : Option Addr} (hs : s.heap.Serves .mmioHandler 16 sizeofMmioHandler 1) :
    wp (mmioRegisterHandler start end_ handler context) (fun result s' => result = .ok ∧
      Represents s' (l.after (.mmioRegister start end_ handler context))) s := by
  rw [mmioRegisterHandler, wp_bind]
  refine wp_onHeap_alloc hs fun a hf => ?_
  dsimp only
  rw [wp_bind, wp_modify, wp_pure]
  exact ⟨rfl, hr.io.grant _, hr.mmio.push hf _⟩

/-- **`io_unregister_handler`** takes out the newest handler that starts at the port. -/
theorem ioUnregisterHandler_spec (hr : Represents s l) (port : UInt16) :
    wp (ioUnregisterHandler port) (fun result s' =>
      (result = .errNotFound ∧ s' = s ∧ ∀ e ∈ l.io, e.port ≠ port) ∨
      ∃ as e bs, result = .ok ∧ l.io = as ++ e :: bs ∧ (∀ e ∈ as, e.port ≠ port) ∧ e.port = port ∧
        Represents s' { l with io := as ++ bs }) s := by
  rw [ioUnregisterHandler, wp_bind, wp_fetch]
  rcases hr.io.unlink fun e => e.port = port with
    ⟨hnone, hall⟩ | ⟨prev, a, q, as, e, bs, hsome, hio, has, he, hrest⟩
  · refine ⟨none, hnone, ?_⟩
    dsimp only
    rw [wp_pure]
    exact .inl ⟨rfl, rfl, fun e he => of_decide_eq_false (hall e he)⟩
  · refine ⟨some (prev, a, q), hsome, ?_⟩
    dsimp only
    rw [wp_bind, wp_modify, wp_bind, onHeap, wp_zoom, wp_modify, wp_pure]
    refine .inr ⟨as, e, bs, rfl, hio, fun e he => of_decide_eq_false (has e he),
      of_decide_eq_true he, hrest, hr.mmio.release (by decide) a⟩

theorem eraseP_port {port : UInt16} {as bs : List (IoHandlerEntry φ)} {e : IoHandlerEntry φ}
    (has : ∀ e ∈ as, e.port ≠ port) (he : e.port = port) :
    (as ++ e :: bs).eraseP (fun e => e.port = port) = as ++ bs := by
  rw [List.eraseP_append_right _ (by simpa using has), List.eraseP_cons_of_pos (by simpa using he)]

/-- **Each call does to the nodes what it does to the list.** -/
theorem HandlerOp.run_spec (op : HandlerOp φ ψ) (hr : Represents s l) (hgrant : op.Granted s) :
    wp op.run (fun _ s' => Represents s' (l.after op)) s := by
  cases op with
  | ioRegister port count handler context =>
    exact wp_mono (ioRegisterHandler_spec hr hgrant) fun _ _ h => h.2
  | mmioRegister start end_ handler context =>
    exact wp_mono (mmioRegisterHandler_spec hr hgrant) fun _ _ h => h.2
  | ioUnregister port =>
    refine wp_mono (ioUnregisterHandler_spec hr port) ?_
    rintro _ _ (⟨-, rfl, hall⟩ | ⟨as, e, bs, -, hio, has, he, hrest⟩)
    · rw [HandlerLists.after, List.eraseP_of_forall_not (by simpa using hall)]
      exact hr
    · rw [HandlerLists.after, hio, eraseP_port has he]
      exact hrest

/-! ## Reads -/

section Reads

variable {ioCall : φ → Addr → UInt16 → UInt32 → UInt64 → HandlerM φ ψ ω (Result × UInt64)}
  {mmioCall : ψ → Addr → UInt64 → UInt32 → UInt64 → HandlerM φ ψ ω (Result × UInt64)}

/-- **A read of a port** finds the newest handler that covers it. -/
theorem Represents.ioPortRead (hr : Represents s l) (vcpu : Addr) (port : UInt16) (size : UInt32)
    (value : UInt64) : (ioPortRead ioCall (some vcpu) port size (some value)).run s =
      (l.ioRead ioCall vcpu port size).run s := by
  have hfind := hr.io.find (IoHandlerEntry.covers port)
  rw [Handlers.ioPortRead, HandlerLists.ioRead, StateT.run_bind, run_fetch, HandlerState.fuel, hfind]
  cases l.io.find? (IoHandlerEntry.covers port) <;> rfl

/-- **A read of memory** finds the newest handler that covers the address. -/
theorem Represents.mmioRead (hr : Represents s l) (vcpu : Addr) (addr : UInt64) (size : UInt32)
    (value : UInt64) : (mmioRead mmioCall (some vcpu) addr size (some value)).run s =
      (l.mmioRead mmioCall vcpu addr size).run s := by
  have hfind := hr.mmio.find (MmioHandlerEntry.covers addr)
  rw [Handlers.mmioRead, HandlerLists.mmioRead, StateT.run_bind, run_fetch, HandlerState.fuel, hfind]
  cases l.mmio.find? (MmioHandlerEntry.covers addr) <;> rfl

/-- A port without a handler reads as ones. -/
theorem noHandler_ones {size : UInt32} (hsize : size = 1 ∨ size = 2 ∨ size = 4) :
    (noHandler size).toNat = 2 ^ (8 * size.toNat) - 1 := by
  rcases hsize with rfl | rfl | rfl <;> decide

end Reads

/-! ## Histories -/

theorem handlerOps_spec (hio : s.io.head = none) (hmmio : s.mmio.head = none)
    {ops : List (HandlerOp φ ψ)} (hgrant : Along HandlerOp.run HandlerOp.Granted ops s) :
    wp (runOps HandlerOp.run ops) (fun _ s' =>
      Represents s' (ops.foldl HandlerLists.after {})) s := by
  refine wp_runOps (I := fun pre s' => Represents s' (pre.foldl HandlerLists.after {})) ?_ hgrant
    ⟨registered_nil _ _ hio, registered_nil _ _ hmmio⟩
  intro pre op s' _ hop hr
  rw [List.foldl_append]
  exact op.run_spec hr hop

theorem Represents.ioEntries (hr : Represents s l) : s.ioEntries = some l.io := hr.io.walk

theorem IoHandlerEntry.covers_iff (e : IoHandlerEntry φ) (port : UInt16) : e.covers port = true ↔
    e.port.toNat ≤ port.toNat ∧ port.toNat < e.port.toNat + e.count.toNat := by
  rw [covers, decide_eq_true_iff]
  exact Iff.rfl

theorem MmioHandlerEntry.covers_iff (e : MmioHandlerEntry ψ) (addr : UInt64) : e.covers addr = true ↔
    e.start ≤ addr ∧ addr < e.end_ := by
  rw [covers, decide_eq_true_iff]

theorem Represents.mmioEntries (hr : Represents s l) : s.mmioEntries = some l.mmio := hr.mmio.walk

/-- **The registries refine priority lists.** After every sequence of registrations and removals from
empty registries, allocations succeeding, the nodes hold the handlers in force, the newest one first;
a read runs the first one that covers the port or the address, its range not including its end; a removal
takes out the first one that starts at the port, and fails just if there is none. -/
theorem handlers_refine
    (ioCall : φ → Addr → UInt16 → UInt32 → UInt64 → HandlerM φ ψ ω (Result × UInt64))
    (mmioCall : ψ → Addr → UInt64 → UInt32 → UInt64 → HandlerM φ ψ ω (Result × UInt64))
    (hio : s.io.head = none) (hmmio : s.mmio.head = none) {ops : List (HandlerOp φ ψ)}
    (hgrant : Along HandlerOp.run HandlerOp.Granted ops s) :
    ∃ s' l, (runOps HandlerOp.run ops).run s = some ((), s') ∧ l = ops.foldl HandlerLists.after {} ∧
      s'.ioEntries = some l.io ∧ s'.mmioEntries = some l.mmio ∧
      (∀ vcpu port size value, (ioPortRead ioCall (some vcpu) port size (some value)).run s' =
        (l.ioRead ioCall vcpu port size).run s') ∧
      (∀ size : UInt32, size = 1 ∨ size = 2 ∨ size = 4 →
        (noHandler size).toNat = 2 ^ (8 * size.toNat) - 1) ∧
      (∀ vcpu addr size value, (mmioRead mmioCall (some vcpu) addr size (some value)).run s' =
        (l.mmioRead mmioCall vcpu addr size).run s') ∧
      (∀ (e : IoHandlerEntry φ) (port : UInt16), e.covers port = true ↔
        e.port.toNat ≤ port.toNat ∧ port.toNat < e.port.toNat + e.count.toNat) ∧
      (∀ (e : MmioHandlerEntry ψ) (addr : UInt64), e.covers addr = true ↔ e.start ≤ addr ∧ addr < e.end_) ∧
      ∀ port, ∃ result s'', (ioUnregisterHandler port).run s' = some (result, s'') ∧
        s''.mmioEntries = some l.mmio ∧
        ((result = .errNotFound ∧ s''.ioEntries = some l.io ∧ ∀ e ∈ l.io, e.port ≠ port) ∨
          ∃ as e bs, result = .ok ∧ l.io = as ++ e :: bs ∧ (∀ e ∈ as, e.port ≠ port) ∧
            e.port = port ∧ s''.ioEntries = some (as ++ bs)) := by
  obtain ⟨⟨⟩, s', hrun, hr⟩ := handlerOps_spec hio hmmio hgrant
  refine ⟨s', _, hrun, rfl, hr.ioEntries, hr.mmioEntries, hr.ioPortRead, fun _ => noHandler_ones,
    hr.mmioRead, IoHandlerEntry.covers_iff, MmioHandlerEntry.covers_iff, fun port => ?_⟩
  obtain ⟨result, s'', hcall, hpost⟩ := ioUnregisterHandler_spec hr port
  refine ⟨result, s'', hcall, ?_⟩
  rcases hpost with ⟨rfl, rfl, hall⟩ | ⟨as, e, bs, rfl, hio, has, he, hrest⟩
  · exact ⟨hr.mmioEntries, .inl ⟨rfl, hr.ioEntries, hall⟩⟩
  · exact ⟨hrest.mmioEntries, .inr ⟨as, e, bs, rfl, hio, has, he, hrest.ioEntries⟩⟩

/-- No handlers yet. -/
def emptyHandlers : HandlerState Bool Bool Unit where
  heap := bumpHeap
  io := ⟨none, fun _ => none⟩
  mmio := ⟨none, fun _ => none⟩
  world := ()

/-- The later of two handlers of a port stays, and one for a page of memory answers up to the end of it. -/
theorem handlers_refine_shadowed : ∃ s' : HandlerState Bool Bool Unit, (runOps HandlerOp.run
      [.ioRegister 0x60 2 false none, .ioRegister 0x61 1 true none, .mmioRegister 0x1000 0x2000 true none,
        .ioUnregister 0x60]).run emptyHandlers = some ((), s') ∧
      s'.ioEntries = some [⟨0x61, 1, true, none⟩] ∧ s'.mmioEntries = some [⟨0x1000, 0x2000, true, none⟩] ∧
      ∀ vcpu value, (ioPortRead (fun b _ _ _ _ => pure (.ok, b.toUInt64)) (some vcpu) 0x61 1
          (some value)).run s' = some ((.ok, some 1), s') ∧
        (mmioRead (fun b _ _ _ _ => pure (.ok, b.toUInt64)) (some vcpu) 0x1FFF 1
          (some value)).run s' = some ((.ok, some 1), s') ∧
        (mmioRead (fun b _ _ _ _ => pure (.ok, b.toUInt64)) (some vcpu) 0x2000 1
          (some value)).run s' = some ((.ok, some 0), s') := by
  have hgrant : Along HandlerOp.run HandlerOp.Granted [.ioRegister 0x60 2 false none,
      .ioRegister 0x61 1 true none, .mmioRegister 0x1000 0x2000 true none, .ioUnregister 0x60]
      emptyHandlers := by decide +kernel
  obtain ⟨s', l, hrun, rfl, hio, hmmio, hread, -, hmem, -⟩ := handlers_refine
    (fun b _ _ _ _ => pure (.ok, b.toUInt64)) (fun b _ _ _ _ => pure (.ok, b.toUInt64)) rfl rfl hgrant
  exact ⟨s', hrun, hio, hmmio, fun vcpu value => ⟨hread vcpu 0x61 1 value, hmem vcpu 0x1FFF 1 value,
    hmem vcpu 0x2000 1 value⟩⟩

/-! ## The port emulation -/

/-- The list of the port emulation, entry by entry, without the contexts that nothing reads. -/
structure Emulates (s : HandlerState Device ψ ω) (h : Host) : Prop where
  heap : h.mem.heap = s.heap
  handlers : ∃ xs, IsList s.io xs ∧ (∀ a ∈ xs.map Prod.fst, s.heap.Holds .ioHandler a) ∧
    h.io.gIoHandlers.map (fun e => (e.entry, e.port, e.count, e.handler)) =
      xs.map fun x => (x.1, x.2.port, x.2.count, x.2.handler)

section Emulates

variable {s : HandlerState Device ψ ω} {h : Host}

/-- **A port has the same handler** in both. -/
theorem Emulates.handlerOf (he : Emulates s h) (port : UInt16) : ∃ found,
    s.io.find (IoHandlerEntry.covers port) s.fuel s.io.head = some found ∧
      found.map IoHandlerEntry.handler = (h.handlerOf port).map IoHandler.handler := by
  obtain ⟨-, xs, hxs, hh, hmap⟩ := he
  refine ⟨_, Registered.find ⟨xs, hxs, rfl, hh⟩ _, ?_⟩
  rw [Host.handlerOf]
  generalize h.io.gIoHandlers = es at hmap
  clear hxs hh
  induction es generalizing xs with
  | nil =>
    rw [List.map_eq_nil_iff.mp (hmap.symm.trans List.map_nil)]
    rfl
  | cons e es ih =>
    cases xs with
    | nil => cases hmap
    | cons x xs =>
      obtain ⟨a, d⟩ := x
      rw [List.map_cons, List.map_cons, List.cons.injEq, Prod.mk.injEq, Prod.mk.injEq,
        Prod.mk.injEq] at hmap
      obtain ⟨⟨-, hport, hcount, hhandler⟩, hrest⟩ := hmap
      have hcovers : IoHandlerEntry.covers port d = decide (e.Covers port) := by
        refine decide_eq_decide.mpr ?_
        rw [← hport, ← hcount]
        rfl
      rw [List.map_cons, List.find?_cons, List.find?_cons, hcovers]
      cases decide (e.Covers port) with
      | true => exact congrArg some hhandler.symm
      | false => exact ih xs hrest

/-- **A registration** does the same in both. -/
theorem Emulates.ioRegister (he : Emulates s h) (port count : UInt16) (handler : Device)
    (context : Option Addr) (context' : Option Device) :
    wp (ioRegisterHandler port count handler context) (fun result s' =>
      wp (NexusVM.ioRegisterHandler port count handler context') (fun result' h' =>
        result' = result ∧ Emulates s' h') h) s := by
  obtain ⟨hheap, xs, hxs, hh, hmap⟩ := he
  have halloc : wp (Heap.alloc .ioHandler 16 sizeofIoHandler) (fun r t =>
      (r = none ∧ t = s.heap.refuse) ∨ ∃ a, r = some a ∧ t = s.heap.grant ⟨.ioHandler, a, sizeofIoHandler⟩ ∧
        s.heap.Fits 16 ⟨.ioHandler, a, sizeofIoHandler⟩) s.heap :=
    Heap.wp_alloc (fun a _ hf => .inr ⟨a, rfl, rfl, hf⟩) fun _ => .inl ⟨rfl, rfl⟩
  obtain ⟨r, t, hrun, ⟨rfl, rfl⟩ | ⟨a, rfl, rfl, hf⟩⟩ := halloc
  · rw [ioRegisterHandler, wp_bind, onHeap, wp_zoom]
    refine wp_of_run hrun ?_
    dsimp only
    rw [wp_pure, NexusVM.ioRegisterHandler, wp_bind, wp_onMem, alignedAlloc, NexusVM.onHeap, wp_zoom, hheap]
    refine wp_of_run hrun ?_
    dsimp only
    rw [wp_pure]
    exact ⟨rfl, rfl, xs, hxs, hh, hmap⟩
  · rw [ioRegisterHandler, wp_bind, onHeap, wp_zoom]
    refine wp_of_run hrun ?_
    dsimp only
    rw [wp_bind, wp_modify, wp_pure, NexusVM.ioRegisterHandler, wp_bind, wp_onMem, alignedAlloc,
      NexusVM.onHeap, wp_zoom, hheap]
    refine wp_of_run hrun ?_
    dsimp only
    rw [wp_bind, wp_modify, wp_pure]
    have ha : a ∉ xs.map Prod.fst := fun ha => hf.base_ne (hh a ha) rfl
    refine ⟨rfl, rfl, _, hxs.push ha _, ?_, congrArg (List.cons _) hmap⟩
    rw [List.map_cons, List.forall_mem_cons]
    exact ⟨Heap.holds_grant_self s.heap _, fun b hb => (hh b hb).grant _⟩

/-- **A removal** does the same in both. -/
theorem Emulates.ioUnregister (he : Emulates s h) (port : UInt16) :
    wp (ioUnregisterHandler port) (fun result s' =>
      wp (NexusVM.ioUnregisterHandler port) (fun result' h' => result' = result ∧ Emulates s' h') h) s := by
  obtain ⟨hheap, xs, hxs, hh, hmap⟩ := he
  have hports : h.io.gIoHandlers.map IoHandler.port = xs.map fun x => x.2.port := by
    have := congrArg (List.map fun x => x.2.1) hmap
    rwa [List.map_map, List.map_map] at this
  have hlen := length_lt_of_holds hxs.nodup hh
  rw [List.length_map] at hlen
  rw [ioUnregisterHandler, wp_bind, wp_fetch, NexusVM.ioUnregisterHandler]
  rcases hxs.visits.seek (fun e => e.port = port) hlen .head with
    ⟨hnone, hall⟩ | ⟨ys, a, d, zs, q, rfl, hys, hd, hq, hsome⟩
  · have hfind : h.io.gIoHandlers.find? (fun e => e.port = port) = none := by
      rw [List.find?_eq_none]
      intro e he hport
      have hmem : e.port ∈ xs.map fun x => x.2.port := hports ▸ List.mem_map_of_mem he
      obtain ⟨x, hx, hxe⟩ := List.mem_map.mp hmem
      exact of_decide_eq_false (hall x hx) (hxe.trans (of_decide_eq_true hport))
    refine ⟨none, hnone, ?_⟩
    dsimp only
    rw [wp_pure, wp_bind, wp_get, hfind]
    dsimp only
    rw [wp_pure]
    exact ⟨rfl, hheap, xs, hxs, hh, hmap⟩
  · rw [List.map_append, List.map_cons] at hmap
    obtain ⟨as, cs, hio, has, hcs⟩ := List.map_eq_append_iff.mp hmap
    obtain ⟨e, bs, rfl, he, hbs⟩ := List.map_eq_cons_iff.mp hcs
    rw [Prod.mk.injEq, Prod.mk.injEq] at he
    obtain ⟨rfl, hport, -⟩ := he
    have hprev : ∀ e' ∈ as, ¬ e'.port = port := by
      intro e' he' hc
      obtain ⟨y, hy, hye⟩ := List.mem_map.mp (has ▸ List.mem_map_of_mem he')
      rw [Prod.mk.injEq, Prod.mk.injEq] at hye
      exact of_decide_eq_false (hys y hy) (hye.2.1.trans hc)
    have heport : e.port = port := hport.trans (of_decide_eq_true hd)
    have hfind : h.io.gIoHandlers.find? (fun e => e.port = port) = some e := by
      rw [hio, List.find?_append, List.find?_eq_none.mpr (by simpa using hprev), Option.none_or,
        List.find?_cons_of_pos (by simpa using heport)]
    refine ⟨some (_, e.entry, q), hsome, ?_⟩
    dsimp only
    rw [wp_bind, wp_modify, wp_bind, onHeap, wp_zoom, wp_modify, wp_pure, wp_bind, wp_get, hfind]
    dsimp only
    rw [wp_bind, wp_set, wp_bind, freeBuffer, wp_onMem, freeBlock, wp_modify, wp_pure]
    have herase : (as ++ e :: bs).erase e = as ++ bs := by
      have hnot : e ∉ as := fun hc => hprev e hc heport
      rw [List.erase_append_right _ hnot, List.erase_cons_head]
    refine ⟨rfl, ?_, ys ++ zs, hxs.unlink hq, ?_, ?_⟩
    · exact congrArg (Heap.release · .ioHandler e.entry) hheap
    · exact holds_of_unlink hxs.nodup hh
    · change ((h.io.gIoHandlers.erase e).map _) = _
      rw [hio, herase, List.map_append, List.map_append, has, hbs]

end Emulates

end NexusVM.Handlers
