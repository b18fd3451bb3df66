import NexusVM.Lib.Prog
import Mathlib.Logic.Function.Basic

/-!
# The instructions of VMX

Which VMCS of a processor is current, which have been launched, and when an instruction that works
on the current VMCS is accepted.

* `Cpu`, `Instr`, `Cpu.step`: the processor; an instruction that is not accepted changes nothing;
* `Cpu.On`, `Cpu.On.step`, `Cpu.On.step_vmlaunch`, `Cpu.On.step_vmresume`: what a current VMCS accepts;
* `Traced`, `issue`, `Faultless`, `Traced.written`, `Traced.instrs`: the instructions issued so far,
  whether all were accepted, what was written, and all of them in order.
-/

namespace Vmx

variable {φ : Type}

/-- The VMCSs of a processor, by address; `φ` are the fields. -/
structure Cpu (φ : Type) where
  current : Option ℕ
  launched : ℕ → Bool
  contents : ℕ → φ → UInt64

inductive Instr (φ : Type)
  /-- `enters`: whether the processor enters VMX operation by it, with no VMCS current. -/
  | vmxon (enters : Bool)
  | vmclear (vmcs : ℕ)
  | vmptrld (vmcs : ℕ)
  | vmread (f : φ)
  | vmwrite (f : φ) (value : UInt64)
  | vmlaunch
  | vmresume

namespace Cpu

/-- Drop a VMCS that is current. -/
def drop (c : Cpu φ) (x : ℕ) : Cpu φ := { c with current := if c.current = some x then none else c.current }

def setLaunched (c : Cpu φ) (x : ℕ) (b : Bool) : Cpu φ :=
  { c with launched := Function.update c.launched x b }

variable [DecidableEq φ]

/-- Store a field of a VMCS. -/
def store (c : Cpu φ) (x : ℕ) (f : φ) (value : UInt64) : Cpu φ :=
  { c with contents := Function.update c.contents x (Function.update (c.contents x) f value) }

/-- The effect of an instruction; `none` if it is not accepted. -/
def step (c : Cpu φ) : Instr φ → Option (Cpu φ)
  | .vmxon enters => some (if enters then { c with current := none } else c)
  | .vmclear x => some ((c.drop x).setLaunched x false)
  | .vmptrld x => some { c with current := some x }
  | .vmread _ => c.current.map fun _ => c
  | .vmwrite f value => c.current.map fun x => c.store x f value
  | .vmlaunch => c.current.bind fun x => if c.launched x then none else some (c.setLaunched x true)
  | .vmresume => c.current.bind fun x => if c.launched x then some c else none

variable {c c' : Cpu φ} {i : Instr φ} {x : ℕ}

/-- The VMCS at `x` is current; `b` says whether it has been launched. -/
structure On (c : Cpu φ) (x : ℕ) (b : Bool) : Prop where
  current : c.current = some x
  launched : c.launched x = b

end Cpu

/-- The instruction leaves the VMCS at `x` current, and does not enter a guest. -/
def Instr.Spares (x : ℕ) : Instr φ → Prop
  | .vmxon enters => enters = false
  | .vmclear y => y ≠ x
  | .vmread _ => True
  | .vmwrite _ _ => True
  | _ => False

namespace Cpu

variable [DecidableEq φ] {c c' : Cpu φ} {i : Instr φ} {x : ℕ} {b : Bool}

/-- **An instruction that spares the current VMCS is accepted.** -/
theorem On.step (h : c.On x b) (hi : i.Spares x) : ∃ c', c.step i = some c' ∧ c'.On x b := by
  cases i with
  | vmxon enters =>
    obtain rfl : enters = false := hi
    exact ⟨c, rfl, h⟩
  | vmclear y =>
    have hne : y ≠ x := hi
    refine ⟨_, rfl, ?_, ?_⟩
    · change (if c.current = some y then none else c.current) = some x
      rw [h.current, if_neg fun he => hne (Option.some.inj he).symm]
    · exact (Function.update_of_ne hne.symm _ _).trans h.launched
  | vmread f => exact ⟨c, by rw [Cpu.step, h.current, Option.map_some], h⟩
  | vmwrite f value =>
    exact ⟨c.store x f value, by rw [Cpu.step, h.current, Option.map_some], h.current, h.launched⟩
  | vmptrld y => exact hi.elim
  | vmlaunch => exact hi.elim
  | vmresume => exact hi.elim

theorem On.step_vmlaunch (h : c.On x b) :
    c.step .vmlaunch = if b then none else some (c.setLaunched x true) := by
  rw [Cpu.step, h.current, Option.bind_some, h.launched]

theorem On.step_vmresume (h : c.On x b) : c.step .vmresume = if b then some c else none := by
  rw [Cpu.step, h.current, Option.bind_some, h.launched]

theorem step_vmwrite_eq_none (h : c.current = none) (f : φ) (value : UInt64) :
    c.step (.vmwrite f value) = none := by
  rw [step, h, Option.map_none]

end Cpu

/-! ## Issued instructions -/

/-- A processor with the instructions issued to it, each with whether it was accepted. -/
structure Traced (φ : Type) where
  cpu : Cpu φ
  issued : List (Instr φ × Bool)

/-- All instructions so far were accepted. -/
def Traced.Faultless (t : Traced φ) : Prop := ∀ e ∈ t.issued, e.2 = true

theorem Traced.faultless_append {cpu cpu' : Cpu φ} {issued : List (Instr φ × Bool)} {i : Instr φ}
    {b : Bool} : Traced.Faultless ⟨cpu', issued ++ [(i, b)]⟩ ↔
      Traced.Faultless ⟨cpu, issued⟩ ∧ b = true := by
  simp only [Traced.Faultless, List.forall_mem_append, List.forall_mem_singleton]

open Prog

variable [DecidableEq φ]

/-- The values that accepted instructions have written to a field, in order. -/
def Traced.written (t : Traced φ) (f : φ) : List UInt64 :=
  t.issued.filterMap fun e =>
    match e with
    | (.vmwrite g value, true) => if g = f then some value else none
    | _ => none

/-- The instructions, accepted or not. -/
def Traced.instrs {φ : Type} (t : Traced φ) : List (Instr φ) := t.issued.map Prod.fst

/-- Issue an instruction: whether it was accepted. -/
def issue (i : Instr φ) : Prog (Traced φ) Bool := do
  let t ← get
  match t.cpu.step i with
  | some cpu =>
    set { t with cpu := cpu, issued := t.issued ++ [(i, true)] }
    return true
  | none =>
    set { t with issued := t.issued ++ [(i, false)] }
    return false

variable {t : Traced φ} {i : Instr φ} {x : ℕ}

theorem wp_issue {Q : Bool → Traced φ → Prop} : wp (issue i) Q t ↔
    (∀ c, t.cpu.step i = some c → Q true ⟨c, t.issued ++ [(i, true)]⟩) ∧
      (t.cpu.step i = none → Q false { t with issued := t.issued ++ [(i, false)] }) := by
  simp only [issue, wp_bind, wp_get]
  cases h : t.cpu.step i with
  | some c =>
    simp only [wp_bind, wp_set, wp_pure]
    exact ⟨fun hq => ⟨fun _ he => Option.some.inj he ▸ hq, by simp⟩, fun hq => hq.1 c rfl⟩
  | none =>
    simp only [wp_bind, wp_set, wp_pure]
    exact ⟨fun hq => ⟨by simp, fun _ => hq⟩, fun hq => hq.2 trivial⟩

theorem issue_instrs (i : Instr φ) (t : Traced φ) :
    wp (issue i) (fun _ t' => t'.instrs = t.instrs ++ [i]) t :=
  wp_issue.mpr ⟨fun _ _ => List.map_append, fun _ => List.map_append⟩

theorem issue_on {b : Bool} (hf : t.Faultless) (h : t.cpu.On x b) (hi : i.Spares x) :
    wp (issue i) (fun a t' => a = true ∧ t'.Faultless ∧ t'.cpu.On x b) t := by
  obtain ⟨c, hstep, hc⟩ := h.step hi
  rw [wp_issue, hstep]
  refine ⟨fun c' he => ?_, nofun⟩
  cases he
  exact ⟨rfl, Traced.faultless_append.mpr ⟨hf, rfl⟩, hc⟩

theorem issue_refused (h : t.cpu.step i = none) :
    wp (issue i) (fun a t' => a = false ∧ ¬ t'.Faultless) t := by
  rw [wp_issue, h]
  refine ⟨nofun, fun _ => ⟨rfl, fun hf => ?_⟩⟩
  have hboth : Traced.Faultless ⟨t.cpu, _⟩ ∧ false = true := Traced.faultless_append.mp hf
  cases hboth.2

theorem issue_keeps_fault (i : Instr φ) : Keeps (fun t : Traced φ => ¬ t.Faultless) (issue i) := by
  intro t ht
  refine wp_issue.mpr ⟨fun c _ hf => ht ?_, fun _ hf => ht ?_⟩
  · exact (Traced.faultless_append.mp hf).1
  · exact (Traced.faultless_append.mp hf).1

end Vmx
