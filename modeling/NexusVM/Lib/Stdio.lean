import NexusVM.Lib.Prog
import Mathlib.Data.Int.Notation
import Mathlib.Data.List.TakeDrop
import Mathlib.Logic.Function.Basic

/-!
# Buffered streams over a disk

Bytes written to a stream are pending until they reach its file, at the stream's own position or,
for a stream opened for appending, at the end of the file. How much each call accepts, which calls
to open a file succeed, and how many pending bytes have reached their files after each call are
decided by arbitrary answers.

* `Stream`, `Disk`: open streams, files and the answers;
* `fopen`, `fwrite`, `fread`, `fseek`, `fclose`: the calls;
* `Disk.InOrder`, `Disk.AcceptsAll`: every call leaves nothing pending, no write is short;
* `Disk.Quiet`: both, and nothing is pending now;
* `Disk.AtEnd`, `fwrite_atEnd`: what is written to a stream at the end of a file is appended to it;
* `Disk.After`, `Disk.AcceptsFrom`: no call changes the answers to come, and these decide whether a
  write is whole;
* `fopen_after`, `fwrite_after`, `fread_after`, `fseek_after`, `fclose_after`: one call;
* `Disk.Idle`, `Disk.At`, `fread_at`, `fseek_at`: a stream that reads a file, and its position;
* `Disk.Holds`, `fread_holds`: reading leaves the files as they are;
* `Disk.Reads`, `fread_reads`: the same on a quiet disk.
-/

namespace Stdio

/-- An open stream. -/
structure Stream where
  path : String
  append : Bool
  pos : ℕ
  pending : List UInt8

/-- How a file is opened. -/
inductive Mode
  | read
  | write
  | append
deriving DecidableEq

/-- The origin of a seek. -/
inductive Whence
  | set
  | cur
deriving DecidableEq

/-- Files, open streams, and what the system answers. -/
structure Disk where
  files : String → Option (List UInt8)
  streams : ℕ → Option Stream
  opened : ℕ
  calls : ℕ
  /-- Whether a call to open a file succeeds where it can. -/
  opens : ℕ → Bool
  /-- How many of some bytes a write accepts. -/
  accepts : ℕ → ℕ → ℕ
  /-- How many of the pending bytes of a stream have reached its file after a call. -/
  spills : ℕ → ℕ → ℕ → ℕ

/-- Put `data` into a file at a position; a hole is filled with zeros. -/
def overwrite (file : List UInt8) (pos : ℕ) (data : List UInt8) : List UInt8 :=
  file.takeD pos 0 ++ data ++ file.drop (pos + data.length)

namespace Disk

/-- Let `n` pending bytes of the stream `s` reach its file; nothing happens where there are none. -/
def push (d : Disk) (s n : ℕ) : Disk :=
  match d.streams s with
  | none => d
  | some st =>
    let file := (d.files st.path).getD []
    let pos := if st.append then file.length else st.pos
    let data := st.pending.take n
    if data = [] then d
    else { d with
      files := Function.update d.files st.path (some (overwrite file pos data))
      streams := Function.update d.streams s
        (some { st with pos := pos + data.length, pending := st.pending.drop n }) }

/-- What happens to the pending bytes until the next call. -/
def settle (d : Disk) : Disk :=
  (List.range d.opened).foldl
    (fun d' s => d'.push s (d.spills d.calls s (((d'.streams s).map Stream.pending).getD []).length))
    { d with calls := d.calls + 1 }

/-- Nothing stays pending. -/
def InOrder (d : Disk) : Prop := ∀ k s n, d.spills k s n = n

/-- No write is short. -/
def AcceptsAll (d : Disk) : Prop := ∀ k n, d.accepts k n = n

end Disk

/-! ## Calls -/

/-- `fopen`; `none` is the null pointer. -/
def fopen (path : String) (mode : Mode) : Prog Disk (Option ℕ) := do
  let d ← get
  let file := d.files path
  if d.opens d.calls && (mode != .read || file.isSome) then
    let content := match mode with
      | .write => []
      | _ => file.getD []
    set { d with
      files := Function.update d.files path (some content)
      streams := Function.update d.streams d.opened (some ⟨path, decide (mode = Mode.append), 0, []⟩)
      opened := d.opened + 1 }
    modify Disk.settle
    return some d.opened
  else
    modify Disk.settle
    return none

/-- `fwrite` of single bytes: how many were accepted. -/
def fwrite (s : ℕ) (data : List UInt8) : Prog Disk ℕ := do
  let d ← get
  let st ← Prog.fetch fun d : Disk => d.streams s
  let n := min (d.accepts d.calls data.length) data.length
  set { d with
    streams := Function.update d.streams s
      (some { st with pending := st.pending ++ data.take n }) }
  modify Disk.settle
  return n

/-- `fread` of single bytes: those that were there. -/
def fread (s n : ℕ) : Prog Disk (List UInt8) := do
  let d ← get
  let st ← Prog.fetch fun d : Disk => d.streams s
  let data := (((d.files st.path).getD []).drop st.pos).take n
  set { d with
    streams := Function.update d.streams s (some { st with pos := st.pos + data.length }) }
  modify Disk.settle
  return data

/-- `fseek`; a position before the start of the file is refused. -/
def fseek (s : ℕ) (offset : ℤ) (whence : Whence) : Prog Disk Unit := do
  let d ← get
  let st ← Prog.fetch fun d : Disk => d.streams s
  let origin : ℕ := match whence with
    | .set => 0
    | .cur => st.pos
  let pos : ℤ := offset + origin
  if 0 ≤ pos then
    set { d with streams := Function.update d.streams s (some { st with pos := pos.toNat }) }
  modify Disk.settle

/-- `fclose` -/
def fclose (s : ℕ) : Prog Disk Unit := do
  let st ← Prog.fetch fun d : Disk => d.streams s
  modify fun d => d.push s st.pending.length
  modify fun d => { d with streams := Function.update d.streams s none }
  modify Disk.settle

/-! ## In order -/

namespace Disk

variable {d : Disk} {s : ℕ} {st : Stream}

/-- The disk at the next call. -/
def tick (d : Disk) : Disk := { d with calls := d.calls + 1 }

/-- A disk with another stream. -/
def setStream (d : Disk) (s : ℕ) (o : Option Stream) : Disk :=
  { d with streams := Function.update d.streams s o }

@[simp] theorem setStream_streams_self (d : Disk) (s : ℕ) (o : Option Stream) :
    (d.setStream s o).streams s = o := Function.update_self _ _ _

theorem setStream_streams_of_ne {s' : ℕ} (hne : s' ≠ s) (o : Option Stream) :
    (d.setStream s o).streams s' = d.streams s' := Function.update_of_ne hne _ _

/-- Nothing is pending, and nothing ever will be after a call. -/
structure Quiet (d : Disk) : Prop where
  inOrder : d.InOrder
  acceptsAll : d.AcceptsAll
  pending : ∀ s st, d.streams s = some st → st.pending = []

theorem Quiet.of_eq {d' : Disk} (hq : d.Quiet) (ha : d'.accepts = d.accepts)
    (hs : d'.spills = d.spills) (hp : ∀ s st, d'.streams s = some st → st.pending = []) : d'.Quiet := by
  refine ⟨fun k s n => ?_, fun k n => ?_, hp⟩
  · rw [hs]
    exact hq.inOrder k s n
  · rw [ha]
    exact hq.acceptsAll k n

theorem Quiet.tick (hq : d.Quiet) : d.tick.Quiet := hq.of_eq rfl rfl hq.pending

theorem Quiet.update (hq : d.Quiet) (s : ℕ) {o : Option Stream}
    (ho : ∀ st, o = some st → st.pending = []) :
    ∀ s' st, Function.update d.streams s o s' = some st → st.pending = [] := by
  intro s' st hst
  by_cases hs : s' = s
  · subst hs
    rw [Function.update_self] at hst
    exact ho st hst
  · rw [Function.update_of_ne hs] at hst
    exact hq.pending s' st hst

theorem Quiet.open (hq : d.Quiet) (st : Stream) (hst : st.pending = []) (files : String → Option (List UInt8)) :
    Quiet { d with
      files := files
      streams := Function.update d.streams d.opened (some st)
      opened := d.opened + 1 } :=
  hq.of_eq rfl rfl (hq.update d.opened fun _ h => Option.some.inj h ▸ hst)

theorem push_of_pending_nil (h : ∀ st, d.streams s = some st → st.pending = []) (n : ℕ) :
    d.push s n = d := by
  unfold push
  split
  · rfl
  · next st hst => rw [h st hst, List.take_nil, if_pos rfl]

theorem push_streams_of_ne {s' : ℕ} (hne : s' ≠ s) (n : ℕ) :
    (d.push s n).streams s' = d.streams s' := by
  unfold push
  split
  · rfl
  · next st _ =>
    dsimp only
    by_cases hdata : st.pending.take n = []
    · rw [if_pos hdata]
    · rw [if_neg hdata]
      exact Function.update_of_ne hne _ _

/-- All that is pending in a stream reaches its file. -/
def flush (d : Disk) (s : ℕ) : Disk :=
  d.push s (((d.streams s).map Stream.pending).getD []).length

theorem InOrder.settle (h : d.InOrder) : d.settle = (List.range d.opened).foldl flush d.tick := by
  unfold Disk.settle
  congr 1
  funext d' s
  rw [h, flush]

theorem foldl_flush_of_pending_nil (l : List ℕ)
    (h : ∀ s ∈ l, ∀ st, d.streams s = some st → st.pending = []) : l.foldl flush d = d := by
  induction l with
  | nil => rfl
  | cons s l ih =>
    rw [List.foldl_cons, flush, push_of_pending_nil (h s List.mem_cons_self)]
    exact ih fun s' hs' => h s' (List.mem_cons_of_mem _ hs')

theorem settle_eq_flush (hin : d.InOrder) (hs : s < d.opened)
    (hothers : ∀ s' st, s' ≠ s → d.streams s' = some st → st.pending = []) :
    d.settle = d.tick.flush s := by
  obtain ⟨l₁, l₂, hl⟩ := List.append_of_mem (List.mem_range.mpr hs)
  have hnodup : (l₁ ++ s :: l₂).Nodup := hl ▸ List.nodup_range
  obtain ⟨-, hcons, hdisj⟩ := List.nodup_append.mp hnodup
  have h₁ : l₁.foldl flush d.tick = d.tick := by
    refine foldl_flush_of_pending_nil l₁ fun s' hs' st hst => ?_
    exact hothers s' st (hdisj s' hs' s List.mem_cons_self) hst
  have h₂ : l₂.foldl flush (d.tick.flush s) = d.tick.flush s := by
    refine foldl_flush_of_pending_nil l₂ fun s' hs' st hst => ?_
    have hne : s' ≠ s := by
      rintro rfl
      exact (List.nodup_cons.mp hcons).1 hs'
    rw [flush, push_streams_of_ne hne] at hst
    exact hothers s' st hne hst
  rw [hin.settle, hl, List.foldl_append, List.foldl_cons, h₁, h₂]

theorem Quiet.settle (h : d.Quiet) : d.settle = d.tick := by
  rw [h.inOrder.settle]
  exact foldl_flush_of_pending_nil _ fun s _ st hst => h.pending s st hst

/-! ### Writing -/

/-- What is written to the stream is added at the end of `file`. -/
structure AtEnd (d : Disk) (s : ℕ) (path : String) (file : List UInt8) : Prop where
  quiet : d.Quiet
  lt : s < d.opened
  files : d.files path = some file
  stream : ∃ st, d.streams s = some st ∧ st.path = path ∧ (st.append ∨ st.pos = file.length)

/-- The other streams are as before. -/
structure SameBut (s : ℕ) (d d' : Disk) : Prop where
  opened : d'.opened = d.opened
  streams : ∀ s', s' ≠ s → d'.streams s' = d.streams s'

theorem overwrite_end (file data : List UInt8) : overwrite file file.length data = file ++ data := by
  rw [overwrite, List.takeD_eq_take 0 (Nat.le_refl _), List.take_length,
    List.drop_eq_nil_of_le (Nat.le_add_right _ _), List.append_nil]

theorem push_rest (d : Disk) (s n : ℕ) : (d.push s n).opened = d.opened ∧
    (d.push s n).accepts = d.accepts ∧ (d.push s n).spills = d.spills := by
  unfold push
  split
  · exact ⟨rfl, rfl, rfl⟩
  · dsimp only
    split_ifs <;> exact ⟨rfl, rfl, rfl⟩

theorem flush_atEnd {file : List UInt8} (hst : d.streams s = some st)
    (hfile : d.files st.path = some file) (hpos : st.append ∨ st.pos = file.length) :
    (d.flush s).files st.path = some (file ++ st.pending) ∧
      ∃ st', (d.flush s).streams s = some st' ∧ st'.path = st.path ∧ st'.pending = [] ∧
        (st'.append ∨ st'.pos = (file ++ st.pending).length) := by
  have hend : (if st.append = true then file.length else st.pos) = file.length := by
    rcases hpos with happend | hpos
    · rw [if_pos happend]
    · rw [hpos, ite_self]
  simp only [flush, push, hst, hfile, Option.map_some, Option.getD_some, List.take_length,
    List.drop_length, hend, overwrite_end]
  by_cases hdata : st.pending = []
  · rw [if_pos hdata, hdata, List.append_nil]
    exact ⟨hfile, st, hst, rfl, hdata, hpos⟩
  · rw [if_neg hdata]
    refine ⟨Function.update_self _ _ _, _, Function.update_self _ _ _, rfl, rfl, .inr ?_⟩
    exact List.length_append.symm

/-- What is pending in the only stream that has anything pending is added to its file. -/
theorem settle_atEnd {file : List UInt8} (hin : d.InOrder) (hall : d.AcceptsAll) (hs : s < d.opened)
    (hst : d.streams s = some st) (hfile : d.files st.path = some file)
    (hpos : st.append ∨ st.pos = file.length)
    (hothers : ∀ s' st', s' ≠ s → d.streams s' = some st' → st'.pending = []) :
    d.settle.AtEnd s st.path (file ++ st.pending) ∧ SameBut s d d.settle := by
  rw [settle_eq_flush hin hs hothers]
  obtain ⟨hfile', st', hst', hpath, hnil, hpos'⟩ := flush_atEnd (d := d.tick) hst hfile hpos
  obtain ⟨hopened, haccepts, hspills⟩ := push_rest d.tick s
    (((d.tick.streams s).map Stream.pending).getD []).length
  have hsame : SameBut s d (d.tick.flush s) := ⟨hopened, fun s' hne => push_streams_of_ne hne _⟩
  refine ⟨⟨⟨fun k s' n => ?_, fun k n => ?_, fun s' st'' hst'' => ?_⟩, ?_, hfile', st', hst', hpath,
    hpos'⟩, hsame⟩
  · rw [flush, hspills]
    exact hin k s' n
  · rw [flush, haccepts]
    exact hall k n
  · by_cases hne : s' = s
    · subst hne
      rw [hst'] at hst''
      cases hst''
      exact hnil
    · rw [hsame.streams s' hne] at hst''
      exact hothers s' st'' hne hst''
  · rw [hsame.opened]
    exact hs

end Disk

open Prog

variable {d : Disk} {s : ℕ} {path : String} {file : List UInt8}

/-- **What is written to a stream at the end of a file is added to the file.** -/
theorem fwrite_atEnd (h : d.AtEnd s path file) (data : List UInt8) :
    wp (fwrite s data) (fun n d' => n = data.length ∧ d'.AtEnd s path (file ++ data) ∧
      Disk.SameBut s d d') d := by
  obtain ⟨st, hst, rfl, hpos⟩ := h.stream
  have hpending := h.quiet.pending s st hst
  have hacc := h.quiet.acceptsAll d.calls data.length
  simp only [fwrite, wp_bind, wp_get, wp_fetch, hst, Option.some.injEq, exists_eq_left', wp_set,
    wp_modify, wp_pure, hacc, Nat.min_self, List.take_length, hpending, List.nil_append, true_and]
  obtain ⟨hend, hsame⟩ := Disk.settle_atEnd (d := d.setStream s (some { st with pending := data }))
    h.quiet.inOrder h.quiet.acceptsAll h.lt (Disk.setStream_streams_self _ _ _) h.files hpos
    fun s' st' hne hst' => by
      rw [Disk.setStream_streams_of_ne hne] at hst'
      exact h.quiet.pending s' st' hst'
  refine ⟨hend, hsame.opened, fun s' hne => ?_⟩
  rw [← Disk.setStream_streams_of_ne (d := d) hne (some { st with pending := data })]
  exact hsame.streams s' hne

theorem fopen_write (hq : d.Quiet) (path : String) :
    wp (fopen path .write) (fun o d' => ∀ s, o = some s → d'.AtEnd s path []) d := by
  rw [fopen, wp_bind, wp_get]
  refine wp_ite (fun _ => ?_) fun _ => ?_
  · simp only [wp_bind, wp_set, wp_modify, wp_pure]
    rintro s ⟨⟩
    rw [(hq.open ⟨path, _, 0, []⟩ rfl _).settle]
    exact ⟨(hq.open _ rfl _).tick, Nat.lt_succ_self _, Function.update_self _ _ _, _,
      Function.update_self _ _ _, rfl, .inr rfl⟩
  · simp only [wp_bind, wp_modify, wp_pure]
    rintro s ⟨⟩

/-- A file opened for appending is as it was; the streams open before stay as they were. -/
theorem fopen_append (hq : d.Quiet) (hfile : d.files path = some file) :
    wp (fopen path .append) (fun o d' => ∀ s', o = some s' → d'.AtEnd s' path file ∧
      s' = d.opened ∧ ∀ s, s ≠ s' → d'.streams s = d.streams s) d := by
  rw [fopen, wp_bind, wp_get]
  refine wp_ite (fun _ => ?_) fun _ => ?_
  · simp only [wp_bind, wp_set, wp_modify, wp_pure, hfile, Option.getD_some]
    rintro s ⟨⟩
    rw [(hq.open ⟨path, _, 0, []⟩ rfl _).settle]
    refine ⟨⟨(hq.open _ rfl _).tick, Nat.lt_succ_self _, Function.update_self _ _ _, _,
      Function.update_self _ _ _, rfl, .inl rfl⟩, rfl, fun s hs => Function.update_of_ne hs _ _⟩
  · simp only [wp_bind, wp_modify, wp_pure]
    rintro s ⟨⟩

/-! ### Answers to come -/

/-- The same answers are to come, after `n` more calls. -/
structure Disk.After (n : ℕ) (d d' : Disk) : Prop where
  opens : d'.opens = d.opens
  accepts : d'.accepts = d.accepts
  spills : d'.spills = d.spills
  calls : d'.calls = d.calls + n

/-- From call `k` on, writes of these lengths are whole. -/
def Disk.AcceptsFrom (d : Disk) : ℕ → List ℕ → Prop
  | _, [] => True
  | k, n :: ns => n ≤ d.accepts k n ∧ d.AcceptsFrom (k + 1) ns

namespace Disk

instance decidableAcceptsFrom (d : Disk) : ∀ k ns, Decidable (d.AcceptsFrom k ns)
  | _, [] => .isTrue trivial
  | k, n :: ns =>
    have := d.decidableAcceptsFrom (k + 1) ns
    inferInstanceAs (Decidable (n ≤ d.accepts k n ∧ d.AcceptsFrom (k + 1) ns))

theorem After.acceptsFrom {d' : Disk} {n k : ℕ} {ns : List ℕ} (h : d.After n d') :
    d'.AcceptsFrom k ns ↔ d.AcceptsFrom k ns := by
  induction ns generalizing k with
  | nil => rfl
  | cons m ns ih => rw [AcceptsFrom, AcceptsFrom, h.accepts, ih]

theorem After.refl (d : Disk) : d.After 0 d := ⟨rfl, rfl, rfl, rfl⟩

theorem After.trans {d' d'' : Disk} {m n : ℕ} (h : d.After m d') (h' : d'.After n d'') :
    d.After (m + n) d'' :=
  ⟨h'.opens.trans h.opens, h'.accepts.trans h.accepts, h'.spills.trans h.spills, by rw [h'.calls, h.calls, Nat.add_assoc]⟩

theorem push_after (d : Disk) (s n : ℕ) : d.After 0 (d.push s n) := by
  unfold push
  split
  · exact ⟨rfl, rfl, rfl, rfl⟩
  · dsimp only
    split_ifs <;> exact ⟨rfl, rfl, rfl, rfl⟩

theorem settle_after (d : Disk) : d.After 1 d.settle := by
  suffices key : ∀ (l : List ℕ) (d' : Disk), d'.After 0 (l.foldl (fun d' s => d'.push s
      (d.spills d.calls s (((d'.streams s).map Stream.pending).getD []).length)) d') from
    (After.mk rfl rfl rfl rfl : d.After 1 d.tick).trans (key (List.range d.opened) d.tick)
  intro l
  induction l with
  | nil => exact fun _ => ⟨rfl, rfl, rfl, rfl⟩
  | cons s l ih => exact fun d' => (push_after d' s _).trans (ih _)

theorem After.settle {d' : Disk} {n : ℕ} (h : d.After n d') : d.After (n + 1) d'.settle :=
  h.trans d'.settle_after

end Disk

/-- **Whether a file can be opened for writing** is up to the answer. -/
theorem fopen_after (path : String) (mode : Mode) :
    wlp (fopen path mode) (fun o d' => (mode ≠ .read → (o.isSome ↔ d.opens d.calls)) ∧
      d.After 1 d') d := by
  rw [fopen, wlp_bind, wlp_get]
  refine wlp_ite (fun hopens => ?_) fun hopens => ?_ <;>
    simp only [wlp_bind, wlp_set, wlp_modify, wlp_pure]
  · rw [Bool.and_eq_true] at hopens
    exact ⟨fun _ => iff_of_true rfl hopens.1, Disk.After.settle (n := 0) ⟨rfl, rfl, rfl, rfl⟩⟩
  · rw [Bool.and_eq_true, not_and'] at hopens
    refine ⟨fun hmode => iff_of_false (by simp) (hopens ?_), d.settle_after⟩
    rw [Bool.or_eq_true]
    exact .inl (bne_iff_ne.mpr hmode)

/-- **A write is whole** just if all of it is accepted. -/
theorem fwrite_after (s : ℕ) (data : List UInt8) :
    wlp (fwrite s data) (fun n d' => (n = data.length ↔ data.length ≤ d.accepts d.calls data.length) ∧
      d.After 1 d') d := by
  simp only [fwrite, wlp_bind, wlp_get, wlp_fetch, wlp_set, wlp_modify, wlp_pure]
  exact fun st _ => ⟨by omega, Disk.After.settle (n := 0) ⟨rfl, rfl, rfl, rfl⟩⟩

theorem fread_after (s n : ℕ) : wlp (fread s n) (fun _ d' => d.After 1 d') d := by
  simp only [fread, wlp_bind, wlp_get, wlp_fetch, wlp_set, wlp_modify, wlp_pure]
  exact fun st _ => Disk.After.settle (n := 0) ⟨rfl, rfl, rfl, rfl⟩

theorem fseek_after (s : ℕ) (offset : ℤ) (whence : Whence) :
    wlp (fseek s offset whence) (fun _ d' => d.After 1 d') d := by
  rw [fseek, wlp_bind, wlp_get, wlp_bind, wlp_fetch]
  intro st _
  refine wlp_ite (fun _ => ?_) fun _ => ?_ <;> simp only [wlp_bind, wlp_set, wlp_modify]
  · exact Disk.After.settle (n := 0) ⟨rfl, rfl, rfl, rfl⟩
  · exact d.settle_after

theorem fclose_after (s : ℕ) : wlp (fclose s) (fun _ d' => d.After 1 d') d := by
  simp only [fclose, wlp_bind, wlp_fetch, wlp_modify]
  intro st _
  have hpush := Disk.push_after d s st.pending.length
  exact Disk.After.settle (n := 0) ⟨hpush.opens, hpush.accepts, hpush.spills, hpush.calls⟩

/-! ### Reading -/

namespace Disk

/-- Nothing is pending. -/
def Idle (d : Disk) : Prop := ∀ s st, d.streams s = some st → st.pending = []

theorem Idle.settle (h : d.Idle) : d.settle = d.tick := by
  suffices key : ∀ l : List ℕ, l.foldl (fun d' s => d'.push s
      (d.spills d.calls s (((d'.streams s).map Stream.pending).getD []).length)) d.tick = d.tick from key _
  intro l
  induction l with
  | nil => rfl
  | cons s l ih => rw [List.foldl_cons, push_of_pending_nil (d := d.tick) fun st => h s st, ih]

theorem Idle.setStream (h : d.Idle) (s : ℕ) {o : Option Stream} (ho : ∀ st, o = some st → st.pending = []) :
    (d.setStream s o).Idle := by
  intro s' st hst
  by_cases hs : s' = s
  · subst hs
    rw [setStream_streams_self] at hst
    exact ho st hst
  · rw [setStream_streams_of_ne hs] at hst
    exact h s' st hst

/-- The stream is at position `pos` of `file`, and nothing is pending in any. -/
structure At (d : Disk) (s : ℕ) (path : String) (file : List UInt8) (pos : ℕ) : Prop where
  idle : d.Idle
  files : d.files path = some file
  stream : ∃ st, d.streams s = some st ∧ st.path = path ∧ st.pos = pos

/-- The position after a seek; one to before the start of the file is refused. -/
def seekPos (pos : ℕ) (offset : ℤ) : Whence → ℕ
  | .set => if 0 ≤ offset then offset.toNat else pos
  | .cur => if 0 ≤ offset + pos then (offset + pos).toNat else pos

theorem At.setPos {pos : ℕ} (h : d.At s path file pos) {st : Stream} (hst : d.streams s = some st)
    (p : ℕ) : (d.setStream s (some { st with pos := p })).settle.At s path file p := by
  obtain ⟨st', hst', hpath, -⟩ := h.stream
  obtain rfl : st = st' := Option.some.inj (hst.symm.trans hst')
  have hidle : (d.setStream s (some { st with pos := p })).Idle :=
    h.idle.setStream s fun st' h' => Option.some.inj h' ▸ h.idle s st hst
  rw [hidle.settle]
  exact ⟨hidle, h.files, _, setStream_streams_self _ _ _, hpath, rfl⟩

end Disk

variable {pos : ℕ}

theorem fopen_at (hi : d.Idle) (hfile : d.files path = some file) :
    wp (fopen path .read) (fun o d' => (o.isSome ↔ d.opens d.calls) ∧ d'.Idle ∧ d'.files = d.files ∧
      ∀ s, o = some s → d'.At s path file 0) d := by
  have hsame : Function.update d.files path (some file) = d.files := by
    rw [← hfile, Function.update_eq_self]
  rw [fopen, wp_bind, wp_get]
  refine wp_ite (fun hopens => ?_) fun hopens => ?_
  · simp only [wp_bind, wp_set, wp_modify, wp_pure, hfile, Option.getD_some]
    rw [Bool.and_eq_true] at hopens
    have hidle : Disk.Idle { d with
        files := Function.update d.files path (some file)
        streams := Function.update d.streams d.opened (some ⟨path, decide (Mode.read = Mode.append), 0, []⟩)
        opened := d.opened + 1 } :=
      hi.setStream d.opened fun st h => Option.some.inj h ▸ rfl
    refine ⟨iff_of_true rfl hopens.1, ?_, ?_, ?_⟩
    · rw [hidle.settle]
      exact hidle
    · rw [hidle.settle]
      exact hsame
    · rintro s ⟨⟩
      rw [hidle.settle]
      exact ⟨hidle, Function.update_self _ _ _, _, Function.update_self _ _ _, rfl, rfl⟩
  · simp only [wp_bind, wp_modify, wp_pure]
    rw [hi.settle]
    refine ⟨iff_of_false (by simp) fun ho => hopens ?_, hi, rfl, by simp⟩
    rw [ho, hfile]
    rfl

/-- **A read returns what is there and moves past it.** -/
theorem fread_at (h : d.At s path file pos) (n : ℕ) :
    wp (fread s n) (fun data d' => data = (file.drop pos).take n ∧
      d'.At s path file (pos + data.length)) d := by
  obtain ⟨st, hst, hpath, hpos⟩ := h.stream
  simp only [fread, wp_bind, wp_get, wp_fetch, hst, Option.some.injEq, exists_eq_left', wp_set,
    wp_modify, wp_pure, hpath, hpos, h.files, Option.getD_some, true_and]
  have := h.setPos hst (pos + ((file.drop pos).take n).length)
  rwa [hpath] at this

theorem fseek_at (h : d.At s path file pos) (offset : ℤ) (whence : Whence) :
    wp (fseek s offset whence) (fun _ d' => d'.At s path file (Disk.seekPos pos offset whence)) d := by
  obtain ⟨st, hst, hpath, hpos⟩ := h.stream
  have hgo : ∀ p : ℤ, (if 0 ≤ p then p.toNat else pos) = Disk.seekPos pos offset whence →
      wp (if 0 ≤ p then (do
          set { d with streams := Function.update d.streams s (some { st with pos := p.toNat }) }
          modify Disk.settle : Prog Disk Unit)
        else modify Disk.settle) (fun _ d' => d'.At s path file (Disk.seekPos pos offset whence)) d := by
    intro p hp
    refine wp_ite (fun hle => ?_) fun hlt => ?_
    · rw [if_pos hle] at hp
      rw [wp_bind, wp_set, wp_modify, ← hp]
      exact h.setPos hst _
    · rw [if_neg hlt] at hp
      rw [wp_modify, ← hp, h.idle.settle]
      exact ⟨h.idle, h.files, st, hst, hpath, hpos⟩
  simp only [fseek, wp_bind, wp_get, wp_fetch, hst, Option.some.injEq, exists_eq_left', hpos]
  cases whence with
  | set =>
    have := hgo (offset + ((0 : ℕ) : ℤ)) (by rw [Int.natCast_zero, Int.add_zero]; rfl)
    simpa only [wp_bind] using this
  | cur =>
    have := hgo (offset + (pos : ℤ)) rfl
    simpa only [wp_bind] using this

theorem fclose_idle {st : Stream} (hi : d.Idle) (hst : d.streams s = some st) :
    wp (fclose s) (fun _ d' => d'.Idle ∧ d'.files = d.files ∧ Disk.SameBut s d d') d := by
  simp only [fclose, wp_bind, wp_fetch, hst, Option.some.injEq, exists_eq_left', wp_modify]
  rw [Disk.push_of_pending_nil fun st' => hi s st']
  have hidle : (d.setStream s none).Idle := hi.setStream s (by simp)
  change (d.setStream s none).settle.Idle ∧ (d.setStream s none).settle.files = d.files ∧
    Disk.SameBut s d (d.setStream s none).settle
  rw [hidle.settle]
  exact ⟨hidle, rfl, rfl, fun s' hne => Disk.setStream_streams_of_ne hne none⟩

theorem fclose_at (h : d.At s path file pos) :
    wp (fclose s) (fun _ d' => d'.Idle ∧ d'.files = d.files) d := by
  obtain ⟨st, hst, -⟩ := h.stream
  exact wp_mono (fclose_idle h.idle hst) fun _ _ hd => ⟨hd.1, hd.2.1⟩

/-- Nothing is pending, and the files hold `files`. -/
def Disk.Holds (files : String → Option (List UInt8)) (d : Disk) : Prop := d.Idle ∧ d.files = files

section Holds

open Prog

variable {files : String → Option (List UInt8)}

theorem Disk.Holds.setStream (h : d.Holds files) {o : Option Stream} (ho : ∀ st, o = some st → st.pending = []) :
    (d.setStream s o).settle.Holds files := by
  have hidle := h.1.setStream s ho
  rw [hidle.settle]
  exact ⟨hidle, h.2⟩

theorem Disk.Holds.settle (h : d.Holds files) : d.settle.Holds files := by
  rw [h.1.settle]
  exact h

theorem fopen_none {path : String} (hfile : d.files path = none) :
    wlp (fopen path .read) (fun o d' => o = none ∧ d' = d.settle) d := by
  rw [fopen, wlp_bind, wlp_get]
  refine wlp_ite (fun hopens => ?_) fun _ => ?_
  · rw [hfile, Bool.and_eq_true] at hopens
    exact absurd hopens.2 (by decide)
  · simp only [wlp_bind, wlp_modify, wlp_pure]
    trivial

/-- **Reading leaves the files as they are.** -/
theorem fopen_holds (path : String) : Preserves (Disk.Holds files) (fopen path .read) := by
  intro d hd
  cases hfile : d.files path with
  | some file =>
    refine wlp_mono (fopen_at hd.1 hfile).wlp ?_
    rintro _ d' ⟨-, hidle, hfiles, -⟩
    exact ⟨hidle, hfiles.trans hd.2⟩
  | none =>
    refine wlp_mono (fopen_none hfile) ?_
    rintro _ _ ⟨-, rfl⟩
    exact hd.settle

theorem fread_holds (n : ℕ) : Preserves (Disk.Holds files) (fread s n) := by
  intro d hd
  simp only [fread, wlp_bind, wlp_get, wlp_fetch, wlp_set, wlp_modify, wlp_pure]
  exact fun st hst => hd.setStream fun _ h' => Option.some.inj h' ▸ hd.1 s st hst

theorem fseek_holds (offset : ℤ) (whence : Whence) : Preserves (Disk.Holds files) (fseek s offset whence) := by
  intro d hd
  rw [fseek, wlp_bind, wlp_get, wlp_bind, wlp_fetch]
  intro st hst
  refine wlp_ite (fun _ => ?_) fun _ => ?_ <;> simp only [wlp_bind, wlp_set, wlp_modify]
  · exact hd.setStream fun _ h' => Option.some.inj h' ▸ hd.1 s st hst
  · exact hd.settle

theorem fclose_holds : Preserves (Disk.Holds files) (fclose s) := by
  intro d hd
  simp only [fclose, wlp_bind, wlp_fetch, wlp_modify]
  intro st hst
  rw [Disk.push_of_pending_nil fun st' => hd.1 s st']
  exact hd.setStream (o := none) (by simp)

end Holds

/-! ### Reading in order -/

theorem Disk.Quiet.after {d' : Disk} {n : ℕ} (hq : d.Quiet) (ha : d.After n d') (hi : d'.Idle) :
    d'.Quiet := hq.of_eq ha.accepts ha.spills hi

theorem fclose_quiet {st : Stream} (hq : d.Quiet) (hst : d.streams s = some st) :
    wp (fclose s) (fun _ d' => d'.Quiet ∧ d'.files = d.files ∧ Disk.SameBut s d d') d := by
  refine wp_mono (wp_and_wlp (fclose_idle hq.pending hst) (fclose_after s)) ?_
  rintro _ d' ⟨⟨hi, hfiles, hsame⟩, ha⟩
  exact ⟨hq.after ha hi, hfiles, hsame⟩

/-- The stream reads `file` from position `pos` on. -/
structure Disk.Reads (d : Disk) (s : ℕ) (path : String) (file : List UInt8) (pos : ℕ) : Prop where
  quiet : d.Quiet
  files : d.files path = some file
  stream : ∃ st, d.streams s = some st ∧ st.path = path ∧ st.pos = pos

theorem Disk.Reads.at (h : d.Reads s path file pos) : d.At s path file pos :=
  ⟨h.quiet.pending, h.files, h.stream⟩

theorem Disk.At.reads {d' : Disk} {n : ℕ} (h : d'.At s path file pos) (hq : d.Quiet) (ha : d.After n d') :
    d'.Reads s path file pos :=
  ⟨hq.after ha h.idle, h.files, h.stream⟩

theorem fopen_read (hq : d.Quiet) (hfile : d.files path = some file) :
    wp (fopen path .read) (fun o d' => (d.opens d.calls → o.isSome) ∧
      ∀ s, o = some s → d'.Reads s path file 0) d := by
  refine wp_mono (wp_and_wlp (fopen_at hq.pending hfile) (fopen_after path .read)) ?_
  rintro o d' ⟨⟨hopens, -, -, hat⟩, -, ha⟩
  exact ⟨hopens.mpr, fun s ho => (hat s ho).reads hq ha⟩

theorem fread_reads (h : d.Reads s path file pos) (n : ℕ) :
    wp (fread s n) (fun data d' => data = (file.drop pos).take n ∧
      d'.Reads s path file (pos + data.length)) d := by
  refine wp_mono (wp_and_wlp (fread_at h.at n) (fread_after s n)) ?_
  rintro data d' ⟨⟨hdata, hat⟩, ha⟩
  exact ⟨hdata, hat.reads h.quiet ha⟩

end Stdio
