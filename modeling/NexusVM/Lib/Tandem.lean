import NexusVM.Lib.Stdio
import Mathlib.Tactic.Common

/-!
# Two writers of one file

A file is written through two streams. What is written to the first reaches the file at the stream's own
position; what is written to the second reaches the end of the file.

* `Tandem`: the file, and what each stream has yet to write to it;
* `Tandem.settle`, `Tandem.writeFirst`, `Tandem.writeSecond`, `Tandem.close`: the calls;
* `backlog`, `InTurn`, `Waits`: the bytes pending after some writes, and whether the second stream waits;
* `Tandem.Clean`, `Tandem.Spoiled`: no byte has been overtaken; a byte has been, and the file stays short;
* **`Tandem.outcome_of_waits`**, **`Tandem.outcome_of_not_waits`**: what is in the file in the end;
* `Tandem.On`, `Tandem.On.settle`: the streams of a disk that write a file in this way;
* `fopen_first`, `fwrite_first`, `fopen_second`, `fwrite_second`, `fclose_second`, `fclose_first`: its calls.
-/

namespace Stdio

/-- A file, and what two streams have yet to write to it: the first at `pos`, the second at the end. -/
structure Tandem where
  file : List UInt8
  pos : ℕ
  first : List UInt8
  second : List UInt8

namespace Tandem

/-- Let `n` pending bytes of the first stream reach the file. -/
def pushFirst (x : Tandem) (n : ℕ) : Tandem :=
  let data := x.first.take n
  if data = [] then x
  else { x with
    file := overwrite x.file x.pos data
    pos := x.pos + data.length
    first := x.first.drop n }

/-- Let `n` pending bytes of the second stream reach the file. -/
def pushSecond (x : Tandem) (n : ℕ) : Tandem :=
  { x with file := x.file ++ x.second.take n, second := x.second.drop n }

variable (c : ℕ → ℕ → ℕ → ℕ) (s s' : ℕ)

/-- What reaches the file after call `k`, for the streams `s` and `s'`. -/
def settle (k : ℕ) (x : Tandem) : Tandem :=
  (x.pushFirst (c k s x.first.length)).pushSecond (c k s' x.second.length)

/-- A call that writes to the first stream. -/
def writeFirst (k : ℕ) (x : Tandem) (w : List UInt8) : Tandem :=
  settle c s s' k { x with first := x.first ++ w }

/-- A call that writes to the second stream. -/
def writeSecond (k : ℕ) (x : Tandem) (w : List UInt8) : Tandem :=
  settle c s s' k { x with second := x.second ++ w }

/-- Calls one after the other, from call `k` on. -/
def calls (step : ℕ → Tandem → List UInt8 → Tandem) : ℕ → Tandem → List (List UInt8) → Tandem
  | _, x, [] => x
  | k, x, w :: ws => calls step (k + 1) (step k x w) ws

/-- The file after the second stream has been closed in call `k`, and then the first. -/
def close (k : ℕ) (x : Tandem) : List UInt8 :=
  let y := settle c s s' k (x.pushSecond x.second.length)
  (y.pushFirst y.first.length).file

end Tandem

/-! ## Turns -/

section Turns

variable (c : ℕ → ℕ → ℕ → ℕ) (s s' : ℕ)

/-- How many of `n` pending bytes of a stream have not reached its file after call `k`. -/
def leftOver (k n : ℕ) : ℕ := n - c k s n

/-- How many bytes are pending after writes of these lengths, from call `k` on. -/
def backlog : ℕ → ℕ → List ℕ → ℕ
  | _, p, [] => p
  | k, p, n :: ns => backlog (k + 1) (leftOver c s k (p + n)) ns

/-- While the stream `s` has bytes pending, none of the stream `s'` reaches the file: `p` and `q` bytes are
pending before call `k`, writes of these lengths to `s'` follow, and then it is closed. -/
def InTurn : ℕ → ℕ → ℕ → List ℕ → Prop
  | _, p, q, [] => p = 0 ∨ q = 0
  | k, p, q, n :: ns =>
    (leftOver c s k p = 0 ∨ leftOver c s' k (q + n) = q + n) ∧
      InTurn (k + 1) (leftOver c s k p) (leftOver c s' k (q + n)) ns

/-- **The second stream waits for the first.** Writes of lengths `ns` to the stream `s` start at call `k`, the
file is opened again, and writes of lengths `ms` to the stream `s'` follow. -/
def Waits (k : ℕ) (ns ms : List ℕ) : Prop :=
  InTurn c s s' (k + ns.length + 1) (leftOver c s (k + ns.length) (backlog c s k 0 ns)) 0 ms

instance decidableInTurn : ∀ k p q ns, Decidable (InTurn c s s' k p q ns)
  | _, p, q, [] => inferInstanceAs (Decidable (p = 0 ∨ q = 0))
  | k, p, q, n :: ns =>
    have := decidableInTurn (k + 1) (leftOver c s k p) (leftOver c s' k (q + n)) ns
    inferInstanceAs (Decidable (_ ∧ _))

instance decidableWaits (k : ℕ) (ns ms : List ℕ) : Decidable (Waits c s s' k ns ms) :=
  decidableInTurn c s s' _ _ _ _

end Turns

namespace Tandem

variable {c : ℕ → ℕ → ℕ → ℕ} {s s' k : ℕ} {x : Tandem} {P M w : List UInt8} {ws : List (List UInt8)}

/-! ## Clean and spoiled files -/

/-- Of `P` and `M`, which the streams have been given, the file has a part of `P` and then a part of `M`,
and the second part is empty unless the first is the whole. -/
def Clean (P M : List UInt8) (x : Tandem) : Prop :=
  ∃ p m, P = p ++ x.first ∧ M = m ++ x.second ∧ x.file = p ++ m ∧ x.pos = p.length ∧
    (x.first = [] ∨ m = [])

/-- A byte of the second stream is where one of the first belongs. -/
structure Spoiled (P M : List UInt8) (x : Tandem) : Prop where
  pos : x.pos + x.first.length = P.length
  begun : x.second.length < M.length
  short : x.file.length + x.second.length < P.length + M.length

theorem length_overwrite (file : List UInt8) (pos : ℕ) (data : List UInt8) :
    (overwrite file pos data).length = max file.length (pos + data.length) := by
  rw [overwrite, List.length_append, List.length_append, List.takeD_length, List.length_drop]
  omega

theorem pushFirst_of_nil (h : x.first = []) (n : ℕ) : x.pushFirst n = x :=
  if_pos (by rw [h, List.take_nil])

theorem pushSecond_of_nil {n : ℕ} (h : x.second.take n = []) : x.pushSecond n = x := by
  have hdrop : x.second.drop n = x.second := by
    have hsplit := List.take_append_drop n x.second
    rwa [h, List.nil_append] at hsplit
  rw [pushSecond, h, hdrop, List.append_nil]

/-! ### Pending bytes -/

theorem pushFirst_second (x : Tandem) (n : ℕ) : (x.pushFirst n).second = x.second := by
  rw [pushFirst]
  split_ifs <;> rfl

theorem pushSecond_first (x : Tandem) (n : ℕ) : (x.pushSecond n).first = x.first := rfl

theorem length_pushFirst (x : Tandem) (n : ℕ) : (x.pushFirst n).first.length = x.first.length - n := by
  rw [pushFirst]
  split_ifs with h
  · have hlen := congrArg List.length h
    rw [List.length_take, List.length_nil] at hlen
    omega
  · exact List.length_drop

theorem length_pushSecond (x : Tandem) (n : ℕ) : (x.pushSecond n).second.length = x.second.length - n :=
  List.length_drop

theorem length_settle_first : (settle c s s' k x).first.length = leftOver c s k x.first.length := by
  rw [settle, pushSecond_first, length_pushFirst, leftOver]

theorem length_settle_second : (settle c s s' k x).second.length = leftOver c s' k x.second.length := by
  rw [settle, length_pushSecond, pushFirst_second, leftOver]

/-! ### Steps -/

theorem Clean.addFirst (hx : Clean P [] x) (w : List UInt8) :
    Clean (P ++ w) [] { x with first := x.first ++ w } := by
  obtain ⟨p, m, hP, hM, hfile, hpos, -⟩ := hx
  obtain ⟨rfl, hsecond⟩ := List.append_eq_nil_iff.mp hM.symm
  exact ⟨p, [], by rw [hP, List.append_assoc], hsecond.symm, hfile, hpos, .inr rfl⟩

theorem Clean.addSecond (hx : Clean P M x) (w : List UInt8) :
    Clean P (M ++ w) { x with second := x.second ++ w } := by
  obtain ⟨p, m, hP, hM, hfile, hpos, hor⟩ := hx
  exact ⟨p, m, hP, by rw [hM, List.append_assoc], hfile, hpos, hor⟩

theorem Clean.pushFirst (hx : Clean P M x) (n : ℕ) : Clean P M (x.pushFirst n) := by
  rw [Tandem.pushFirst]
  split_ifs with hdata
  · exact hx
  obtain ⟨p, m, hP, hM, hfile, hpos, hor⟩ := hx
  -- bytes are pending, so nothing of the second stream is in the file
  obtain rfl : m = [] := by
    refine hor.resolve_left fun hnil => hdata ?_
    rw [hnil, List.take_nil]
  rw [List.append_nil] at hfile
  refine ⟨p ++ x.first.take n, [], ?_, hM, ?_, ?_, .inr rfl⟩
  · rw [List.append_assoc, List.take_append_drop, hP]
  · rw [hfile, hpos, Disk.overwrite_end, List.append_nil]
  · rw [hpos, List.length_append]

theorem Clean.pushSecond (hx : Clean P M x) {n : ℕ} (hwait : x.first = [] ∨ x.second.take n = []) :
    Clean P M (x.pushSecond n) := by
  rcases hwait with hfirst | hnone
  · obtain ⟨p, m, hP, hM, hfile, hpos, -⟩ := hx
    refine ⟨p, m ++ x.second.take n, hP, ?_, ?_, hpos, .inl hfirst⟩
    · rw [hM, Tandem.pushSecond, List.append_assoc, List.take_append_drop]
    · rw [Tandem.pushSecond, hfile, List.append_assoc]
  · rwa [pushSecond_of_nil hnone]

/-- **The second stream does not wait.** -/
theorem Clean.spoil (hx : Clean P M x) {n : ℕ} (hfirst : x.first ≠ []) (hsome : x.second.take n ≠ []) :
    Spoiled P M (x.pushSecond n) := by
  obtain ⟨p, m, rfl, rfl, hfile, hpos, hor⟩ := hx
  obtain rfl := hor.resolve_left hfirst
  have hlen : 0 < x.first.length := List.length_pos_iff.mpr hfirst
  have htake : 0 < (x.second.take n).length := List.length_pos_iff.mpr hsome
  rw [List.length_take] at htake
  refine ⟨?_, ?_, ?_⟩
  · rw [Tandem.pushSecond, hpos, List.length_append]
  · rw [length_pushSecond, List.nil_append]
    omega
  · rw [length_pushSecond, Tandem.pushSecond, hfile]
    simp only [List.length_append, List.length_nil, List.length_take]
    omega

theorem Spoiled.addSecond (hx : Spoiled P M x) (w : List UInt8) :
    Spoiled P (M ++ w) { x with second := x.second ++ w } := by
  refine ⟨hx.pos, ?_, ?_⟩
  · simp only [List.length_append]
    exact Nat.add_lt_add_right hx.begun _
  · simp only [List.length_append]
    have := hx.short
    omega

theorem Spoiled.pushFirst (hx : Spoiled P M x) (n : ℕ) : Spoiled P M (x.pushFirst n) := by
  obtain ⟨hpos, hbegun, hshort⟩ := hx
  rw [Tandem.pushFirst]
  split_ifs with hdata
  · exact ⟨hpos, hbegun, hshort⟩
  refine ⟨?_, hbegun, ?_⟩
  · simp only [List.length_take, List.length_drop]
    omega
  · simp only [length_overwrite, List.length_take]
    omega

theorem Spoiled.pushSecond (hx : Spoiled P M x) (n : ℕ) : Spoiled P M (x.pushSecond n) := by
  obtain ⟨hpos, hbegun, hshort⟩ := hx
  refine ⟨hpos, ?_, ?_⟩
  · rw [length_pushSecond]
    omega
  · simp only [Tandem.pushSecond, List.length_append, List.length_take, List.length_drop]
    omega

theorem Spoiled.settle (hx : Spoiled P M x) : Spoiled P M (settle c s s' k x) :=
  (hx.pushFirst _).pushSecond _

theorem Clean.settle_of_nil (hx : Clean P M x) (hnil : x.second = []) : Clean P M (settle c s s' k x) := by
  refine (hx.pushFirst _).pushSecond (.inr ?_)
  rw [pushFirst_second, hnil, List.take_nil]

/-! ## Runs -/

theorem calls_append (step : ℕ → Tandem → List UInt8 → Tandem) (ws vs : List (List UInt8)) :
    calls step k x (ws ++ vs) = calls step (k + ws.length) (calls step k x ws) vs := by
  induction ws generalizing k x with
  | nil => rfl
  | cons w ws ih => rw [List.cons_append, calls, calls, ih, List.length_cons, Nat.add_assoc, Nat.add_comm 1]

/-- **The first stream alone.** -/
theorem calls_writeFirst (c : ℕ → ℕ → ℕ → ℕ) (s s' k : ℕ) (ws : List (List UInt8)) (hx : Clean P [] x)
    (hnil : x.second = []) :
    Clean (P ++ ws.flatten) [] (calls (writeFirst c s s') k x ws) ∧
      (calls (writeFirst c s s') k x ws).second = [] ∧
      (calls (writeFirst c s s') k x ws).first.length =
        backlog c s k x.first.length (ws.map List.length) := by
  induction ws generalizing k x P with
  | nil =>
    rw [List.flatten_nil, List.append_nil]
    exact ⟨hx, hnil, rfl⟩
  | cons w ws ih =>
    have hnil' : (writeFirst c s s' k x w).second = [] := by
      refine List.eq_nil_of_length_eq_zero ?_
      rw [writeFirst, length_settle_second, hnil]
      exact Nat.zero_sub _
    obtain ⟨hclean, hsecond, hlen⟩ := ih (k + 1) ((hx.addFirst w).settle_of_nil hnil) hnil'
    rw [List.flatten_cons, ← List.append_assoc, List.map_cons, backlog]
    refine ⟨hclean, hsecond, hlen.trans ?_⟩
    rw [length_settle_first, List.length_append]

/-! ## Closing -/

theorem drained_second (x : Tandem) : (x.pushSecond x.second.length).second = [] := List.drop_length

theorem settle_second_of_nil (hnil : x.second = []) : (settle c s s' k x).second = [] := by
  refine List.eq_nil_of_length_eq_zero ?_
  rw [length_settle_second, hnil]
  exact Nat.zero_sub _

theorem Clean.file_eq (hx : Clean P M x) (hfirst : x.first = []) (hsecond : x.second = []) :
    x.file = P ++ M := by
  obtain ⟨p, m, hP, hM, hfile, -⟩ := hx
  rw [hfile, hP, hM, hfirst, hsecond, List.append_nil, List.append_nil]

theorem Clean.close_eq (hx : Clean P M x) (hwait : x.first = [] ∨ x.second = []) :
    close c s s' k x = P ++ M := by
  have hpushed : Clean P M (x.pushSecond x.second.length) := by
    refine hx.pushSecond (hwait.imp_right fun hnil => ?_)
    rw [hnil, List.take_nil]
  have hsettled : Clean P M (Tandem.settle c s s' k (x.pushSecond x.second.length)) :=
    hpushed.settle_of_nil (drained_second x)
  refine (hsettled.pushFirst _).file_eq (List.eq_nil_of_length_eq_zero ?_) ?_
  · rw [length_pushFirst, Nat.sub_self]
  · rw [pushFirst_second]
    exact settle_second_of_nil (drained_second x)

theorem Spoiled.close_lt (hx : Spoiled P M (x.pushSecond x.second.length)) :
    (close c s s' k x).length < P.length + M.length := by
  have hsettled : Spoiled P M (Tandem.settle c s s' k (x.pushSecond x.second.length)) := hx.settle
  exact Nat.lt_of_le_of_lt (Nat.le_add_right _ _) (hsettled.pushFirst _).short

theorem Spoiled.calls_lt (hx : Spoiled P M x) {K : ℕ} :
    (close c s s' K (calls (writeSecond c s s') k x ws)).length <
      P.length + (M ++ ws.flatten).length := by
  induction ws generalizing k x M with
  | nil =>
    rw [List.flatten_nil, List.append_nil]
    exact (hx.pushSecond _).close_lt
  | cons w ws ih =>
    rw [List.flatten_cons, ← List.append_assoc]
    exact ih (hx.addSecond w).settle

/-! ## Whole runs -/

theorem leftOver_eq_self_iff {n : ℕ} {l : List UInt8} (hl : l.length = n) :
    leftOver c s k n = n ↔ l.take (c k s n) = [] := by
  rw [← List.length_eq_zero_iff, List.length_take, leftOver]
  omega

theorem Clean.writeSecond_clean (hx : Clean P M x)
    (hwait : leftOver c s k x.first.length = 0 ∨
      leftOver c s' k (x.second.length + w.length) = x.second.length + w.length) :
    Clean P (M ++ w) (writeSecond c s s' k x w) := by
  refine ((hx.addSecond w).pushFirst _).pushSecond (hwait.imp (fun hfirst => ?_) fun hnone => ?_)
  · refine List.eq_nil_of_length_eq_zero ?_
    rwa [length_pushFirst]
  · rw [pushFirst_second]
    rw [← List.length_append] at hnone
    exact (leftOver_eq_self_iff rfl).mp hnone

theorem Clean.writeSecond_spoiled (hx : Clean P M x) (hfirst : leftOver c s k x.first.length ≠ 0)
    (hsome : leftOver c s' k (x.second.length + w.length) ≠ x.second.length + w.length) :
    Spoiled P (M ++ w) (writeSecond c s s' k x w) := by
  refine ((hx.addSecond w).pushFirst _).spoil (fun hnil => hfirst ?_) fun hnone => hsome ?_
  · have hlen := length_pushFirst { x with second := x.second ++ w } (c k s x.first.length)
    exact hlen.symm.trans (List.length_eq_zero_iff.mpr hnil)
  · rw [pushFirst_second] at hnone
    rw [← List.length_append]
    exact (leftOver_eq_self_iff rfl).mpr hnone

/-- **While the second stream waits for the first, the file is what both have been given.** -/
theorem Clean.close_of_inTurn (hx : Clean P M x) {K : ℕ}
    (hturn : InTurn c s s' k x.first.length x.second.length (ws.map List.length)) :
    close c s s' K (calls (writeSecond c s s') k x ws) = P ++ (M ++ ws.flatten) := by
  induction ws generalizing k x M with
  | nil =>
    rw [List.flatten_nil, List.append_nil]
    exact hx.close_eq (hturn.imp List.length_eq_zero_iff.mp List.length_eq_zero_iff.mp)
  | cons w ws ih =>
    obtain ⟨hwait, hrest⟩ := hturn
    rw [List.flatten_cons, ← List.append_assoc M]
    refine ih (hx.writeSecond_clean hwait) ?_
    rw [writeSecond, length_settle_first, length_settle_second, List.length_append]
    exact hrest

/-- **Where it does not wait, the file is shorter.** -/
theorem Clean.close_of_not_inTurn (hx : Clean P M x) {K : ℕ}
    (hturn : ¬ InTurn c s s' k x.first.length x.second.length (ws.map List.length)) :
    (close c s s' K (calls (writeSecond c s s') k x ws)).length <
      P.length + (M ++ ws.flatten).length := by
  induction ws generalizing k x M with
  | nil =>
    obtain ⟨hfirst, hsecond⟩ := not_or.mp hturn
    rw [List.flatten_nil, List.append_nil]
    refine (hx.spoil (mt List.length_eq_zero_iff.mpr hfirst) ?_).close_lt
    rw [List.take_length]
    exact mt List.length_eq_zero_iff.mpr hsecond
  | cons w ws ih =>
    rw [List.flatten_cons, ← List.append_assoc M]
    by_cases hwait : leftOver c s k x.first.length = 0 ∨
        leftOver c s' k (x.second.length + w.length) = x.second.length + w.length
    · refine ih (hx.writeSecond_clean hwait) fun hrest => hturn ⟨hwait, ?_⟩
      rw [writeSecond, length_settle_first, length_settle_second, List.length_append] at hrest
      exact hrest
    · obtain ⟨hfirst, hsome⟩ := not_or.mp hwait
      exact (hx.writeSecond_spoiled hfirst hsome).calls_lt

/-! ### Both streams -/

/-- `ws` are written to the first stream from call `k` on, and the file is opened for the second. -/
def opened (c : ℕ → ℕ → ℕ → ℕ) (s s' k : ℕ) (ws : List (List UInt8)) : Tandem :=
  settle c s s' (k + ws.length) (calls (writeFirst c s s') k ⟨[], 0, [], []⟩ ws)

/-- The file in the end: `vs` are written to the second stream, it is closed in call `K`, and then the first. -/
def outcome (c : ℕ → ℕ → ℕ → ℕ) (s s' k : ℕ) (ws vs : List (List UInt8)) (K : ℕ) : List UInt8 :=
  close c s s' K (calls (writeSecond c s s') (k + ws.length + 1) (opened c s s' k ws) vs)

/-- When the file is opened for the second stream, it has the beginning of what the first was given. -/
theorem opened_clean (c : ℕ → ℕ → ℕ → ℕ) (s s' k : ℕ) (ws : List (List UInt8)) :
    Clean ws.flatten [] (opened c s s' k ws) ∧ (opened c s s' k ws).second = [] ∧
      (opened c s s' k ws).first.length =
        leftOver c s (k + ws.length) (backlog c s k 0 (ws.map List.length)) := by
  have hempty : Clean [] [] ⟨[], 0, [], []⟩ := ⟨[], [], rfl, rfl, rfl, rfl, .inl rfl⟩
  obtain ⟨hclean, hnil, hlen⟩ := calls_writeFirst c s s' k ws hempty rfl
  refine ⟨hclean.settle_of_nil hnil, settle_second_of_nil hnil, ?_⟩
  rw [opened, length_settle_first, hlen]
  rfl

theorem inTurn_opened_iff {vs : List (List UInt8)} :
    InTurn c s s' (k + ws.length + 1) (opened c s s' k ws).first.length
        (opened c s s' k ws).second.length (vs.map List.length) ↔
      Waits c s s' k (ws.map List.length) (vs.map List.length) := by
  obtain ⟨-, hnil, hlen⟩ := opened_clean c s s' k ws
  rw [hlen, hnil, Waits, List.length_map]
  rfl

/-- **While the second stream waits for the first, the file is what both were given.** -/
theorem outcome_of_waits {vs : List (List UInt8)} {K : ℕ}
    (hwaits : Waits c s s' k (ws.map List.length) (vs.map List.length)) :
    outcome c s s' k ws vs K = ws.flatten ++ vs.flatten := by
  obtain ⟨hclean, -⟩ := opened_clean c s s' k ws
  exact hclean.close_of_inTurn (inTurn_opened_iff.mpr hwaits)

/-- **Where it does not wait, the file is shorter.** -/
theorem outcome_of_not_waits {vs : List (List UInt8)} {K : ℕ}
    (hwaits : ¬ Waits c s s' k (ws.map List.length) (vs.map List.length)) :
    (outcome c s s' k ws vs K).length < ws.flatten.length + vs.flatten.length := by
  obtain ⟨hclean, -⟩ := opened_clean c s s' k ws
  exact hclean.close_of_not_inTurn (mt inTurn_opened_iff.mp hwaits)

theorem length_outcome_le (c : ℕ → ℕ → ℕ → ℕ) (s s' k : ℕ) (ws vs : List (List UInt8)) (K : ℕ) :
    (outcome c s s' k ws vs K).length ≤ ws.flatten.length + vs.flatten.length := by
  by_cases hwaits : Waits c s s' k (ws.map List.length) (vs.map List.length)
  · rw [outcome_of_waits hwaits]
    exact Nat.le_of_eq List.length_append
  · exact Nat.le_of_lt (outcome_of_not_waits hwaits)

end Tandem

/-! ## Disks -/

/-- What is pending in a stream. -/
def Disk.pending (d : Disk) (s : ℕ) : List UInt8 := ((d.streams s).map Stream.pending).getD []

section Disks

variable {d : Disk} {s : ℕ}

theorem Disk.pending_of_some {st : Stream} (hst : d.streams s = some st) : d.pending s = st.pending := by
  rw [Disk.pending, hst, Option.map_some, Option.getD_some]

theorem Disk.pending_of_none (hs : d.streams s = none) : d.pending s = [] := by
  rw [Disk.pending, hs, Option.map_none, Option.getD_none]

theorem Disk.Idle.pending_eq (hi : d.Idle) (s : ℕ) : d.pending s = [] := by
  cases hs : d.streams s with
  | none => exact Disk.pending_of_none hs
  | some st => rw [Disk.pending_of_some hs, hi s st hs]

theorem Disk.pending_congr {d' : Disk} (h : d'.streams s = d.streams s) : d'.pending s = d.pending s := by
  rw [Disk.pending, h, Disk.pending]

theorem Disk.push_of_take_nil {n : ℕ} (h : (d.pending s).take n = []) : d.push s n = d := by
  rw [Disk.push]
  cases hs : d.streams s with
  | none => rfl
  | some st =>
    rw [Disk.pending_of_some hs] at h
    exact if_pos h

theorem Disk.push_of_take_ne_nil {n : ℕ} {st : Stream} (hst : d.streams s = some st)
    (h : (d.pending s).take n ≠ []) : d.push s n = { d with
      files := Function.update d.files st.path (some (overwrite ((d.files st.path).getD [])
        (if st.append then ((d.files st.path).getD []).length else st.pos) ((d.pending s).take n)))
      streams := Function.update d.streams s (some { st with
        pos := (if st.append then ((d.files st.path).getD []).length else st.pos) +
          ((d.pending s).take n).length
        pending := (d.pending s).drop n }) } := by
  rw [Disk.pending_of_some hst] at h ⊢
  rw [Disk.push, hst]
  exact if_neg h

end Disks

namespace Tandem

open Prog

variable {d : Disk} {f g o n : ℕ} {path : String} {data : List UInt8}

/-- The streams `f` and `g` of the disk write the file at `path`; `g` is one of the `o` streams opened so
far, or the next one. -/
structure On (path : String) (f g o : ℕ) (x : Tandem) (d : Disk) : Prop where
  lt : f < g
  first_lt : f < o
  opened : d.opened = o
  file : d.files path = some x.file
  first : d.pending f = x.first
  second : d.pending g = x.second
  firstAt : ∀ st, d.streams f = some st → st.path = path ∧ st.append = false ∧ st.pos = x.pos
  secondAt : g < o → ∀ st, d.streams g = some st → st.path = path ∧ st.append = true
  unopened : o ≤ g → x.second = []
  others : ∀ s, s ≠ f → s ≠ g → d.pending s = []

theorem On.push_first (h : On path f g o x d) (n : ℕ) : On path f g o (x.pushFirst n) (d.push f n) := by
  by_cases hdata : x.first.take n = []
  · rw [Disk.push_of_take_nil (by rwa [h.first]), pushFirst, if_pos hdata]
    exact h
  cases hst : d.streams f with
  | none =>
    rw [← h.first, Disk.pending_of_none hst, List.take_nil] at hdata
    exact absurd rfl hdata
  | some st =>
    obtain ⟨hpath, happend, hpos⟩ := h.firstAt st hst
    have hstreams : ∀ s, s ≠ f → (d.push f n).streams s = d.streams s :=
      fun s hs => Disk.push_streams_of_ne hs n
    rw [Disk.push_of_take_ne_nil hst (by rwa [h.first])] at hstreams ⊢
    rw [pushFirst, if_neg hdata]
    refine ⟨h.lt, h.first_lt, h.opened, ?_, ?_, ?_, ?_, fun hg => ?_, h.unopened, fun s hf hg => ?_⟩
    · dsimp only
      rw [hpath, happend, hpos, h.file, h.first, Function.update_self]
      rfl
    · rw [Disk.pending_of_some (Function.update_self f _ _), h.first]
    · rw [Disk.pending_congr (hstreams g (Nat.ne_of_gt h.lt))]
      exact h.second
    · intro st' hst'
      obtain rfl := Option.some.inj ((Function.update_self f _ _).symm.trans hst')
      refine ⟨hpath, happend, ?_⟩
      dsimp only
      rw [happend, hpos, h.first]
      rfl
    · rw [hstreams g (Nat.ne_of_gt h.lt)]
      exact h.secondAt hg
    · rw [Disk.pending_congr (hstreams s hf)]
      exact h.others s hf hg

theorem On.push_second (h : On path f g o x d) (hg : g < o) (n : ℕ) :
    On path f g o (x.pushSecond n) (d.push g n) := by
  by_cases hdata : x.second.take n = []
  · rw [Disk.push_of_take_nil (by rwa [h.second]), pushSecond_of_nil hdata]
    exact h
  cases hst : d.streams g with
  | none =>
    rw [← h.second, Disk.pending_of_none hst, List.take_nil] at hdata
    exact absurd rfl hdata
  | some st =>
    obtain ⟨hpath, happend⟩ := h.secondAt hg st hst
    have hstreams : ∀ s, s ≠ g → (d.push g n).streams s = d.streams s :=
      fun s hs => Disk.push_streams_of_ne hs n
    rw [Disk.push_of_take_ne_nil hst (by rwa [h.second])] at hstreams ⊢
    refine ⟨h.lt, h.first_lt, h.opened, ?_, ?_, ?_, ?_, fun _ => ?_, fun ho => absurd hg (Nat.not_lt.mpr ho),
      fun s hf hs => ?_⟩
    · dsimp only
      rw [hpath, happend, h.file, h.second, Function.update_self, if_pos rfl, Option.getD_some,
        Disk.overwrite_end]
      rfl
    · rw [Disk.pending_congr (hstreams f (Nat.ne_of_lt h.lt))]
      exact h.first
    · rw [Disk.pending_of_some (Function.update_self g _ _), h.second]
      rfl
    · rw [hstreams f (Nat.ne_of_lt h.lt)]
      exact h.firstAt
    · intro st' hst'
      obtain rfl := Option.some.inj ((Function.update_self g _ _).symm.trans hst')
      exact ⟨hpath, happend⟩
    · rw [Disk.pending_congr (hstreams s hs)]
      exact h.others s hf hs

/-- **What happens to the pending bytes until the next call.** -/
theorem On.settle (h : On path f g o x d) : On path f g o (settle d.spills f g d.calls x) d.settle := by
  obtain rfl := h.opened
  let y := x.pushFirst (d.spills d.calls f x.first.length)
  let z := Tandem.settle d.spills f g d.calls x
  -- the streams below `m` have had their turn
  have key : ∀ m ≤ d.opened, On path f g d.opened (if m ≤ f then x else if m ≤ g then y else z)
      ((List.range m).foldl (fun d' s => d'.push s (d.spills d.calls s
        (((d'.streams s).map Stream.pending).getD []).length)) d.tick) := by
    intro m hm
    induction m with
    | zero =>
      rw [if_pos (Nat.zero_le f)]
      exact ⟨h.lt, h.first_lt, rfl, h.file, h.first, h.second, h.firstAt, h.secondAt, h.unopened, h.others⟩
    | succ m ih =>
      have hi := ih (Nat.le_of_succ_le hm)
      rw [List.range_succ, List.foldl_concat]
      generalize (List.range m).foldl _ d.tick = d' at hi ⊢
      change On path f g d.opened _ (d'.push m (d.spills d.calls m (d'.pending m).length))
      by_cases hf : m = f
      · subst hf
        rw [if_pos (Nat.le_refl m)] at hi
        rw [if_neg (Nat.not_succ_le_self m), if_pos (Nat.succ_le_of_lt h.lt), hi.first]
        exact hi.push_first _
      by_cases hg : m = g
      · subst hg
        rw [if_neg (Nat.not_le.mpr h.lt), if_pos (Nat.le_refl m)] at hi
        rw [if_neg (Nat.not_le.mpr (Nat.lt_succ_of_lt h.lt)), if_neg (Nat.not_succ_le_self m), hi.second,
          pushFirst_second]
        exact hi.push_second hm _
      · rw [Disk.push_of_take_nil (by rw [hi.others m hf hg, List.take_nil])]
        have hlt : m + 1 ≤ f ↔ m ≤ f := by omega
        have hlt' : m + 1 ≤ g ↔ m ≤ g := by omega
        simp only [hlt, hlt']
        exact hi
  have hall := key d.opened (Nat.le_refl _)
  rw [if_neg (Nat.not_le.mpr h.first_lt)] at hall
  by_cases hg : d.opened ≤ g
  · -- the second stream is not open, and has nothing to write
    have hyz : z = y := by
      refine pushSecond_of_nil ?_
      rw [pushFirst_second, h.unopened hg, List.take_nil]
    rw [if_pos hg, ← hyz] at hall
    exact hall
  · rw [if_neg hg] at hall
    exact hall

/-! ### Calls -/

theorem settle_nil {p : ℕ} {file : List UInt8} {c : ℕ → ℕ → ℕ → ℕ} {k : ℕ} :
    Tandem.settle c f g k ⟨file, p, [], []⟩ = ⟨file, p, [], []⟩ := by
  rw [Tandem.settle, pushFirst_of_nil rfl, pushSecond_of_nil List.take_nil]

theorem fopen_first (hi : d.Idle) : wlp (fopen path .write) (fun r d' => ∀ f, r = some f →
    f = d.opened ∧ On path f (f + 1) (f + 1) ⟨[], 0, [], []⟩ d') d := by
  rw [fopen, wlp_bind, wlp_get]
  refine wlp_ite (fun _ => ?_) fun _ => ?_
  · simp only [wlp_bind, wlp_set, wlp_modify, wlp_pure]
    rintro f ⟨⟩
    refine ⟨rfl, ?_⟩
    have hon : On path d.opened (d.opened + 1) (d.opened + 1) ⟨[], 0, [], []⟩ { d with
        files := Function.update d.files path (some [])
        streams := Function.update d.streams d.opened (some ⟨path, decide (Mode.write = Mode.append), 0, []⟩)
        opened := d.opened + 1 } := by
      refine ⟨Nat.lt_succ_self _, Nat.lt_succ_self _, rfl, Function.update_self path _ _,
        ?_, ?_, fun st hst => ?_, fun hlt => absurd hlt (Nat.lt_irrefl _), fun _ => rfl, fun s hs _ => ?_⟩
      · simp only [Disk.pending, Function.update_self]
        rfl
      · exact (Disk.pending_congr (Function.update_of_ne (Nat.succ_ne_self _) _ _)).trans (hi.pending_eq _)
      · obtain rfl := Option.some.inj ((Function.update_self d.opened _ _).symm.trans hst)
        exact ⟨rfl, rfl, rfl⟩
      · exact (Disk.pending_congr (Function.update_of_ne hs _ _)).trans (hi.pending_eq s)
    have := hon.settle
    rwa [settle_nil] at this
  · simp only [wlp_bind, wlp_modify, wlp_pure]
    rintro f ⟨⟩

theorem On.fopen_second (h : On path f g g x d) : wlp (fopen path .append) (fun r d' => ∀ g', r = some g' →
    g' = g ∧ On path f g (g + 1) (Tandem.settle d.spills f g d.calls x) d') d := by
  rw [fopen, wlp_bind, wlp_get]
  refine wlp_ite (fun _ => ?_) fun _ => ?_
  · simp only [wlp_bind, wlp_set, wlp_modify, wlp_pure, h.opened, h.file, Option.getD_some]
    rintro g' ⟨⟩
    refine ⟨rfl, ?_⟩
    have hon : On path f g (g + 1) x { d with
        files := Function.update d.files path (some x.file)
        streams := Function.update d.streams g (some ⟨path, decide (Mode.append = Mode.append), 0, []⟩)
        opened := g + 1 } := by
      have hothers : ∀ s, s ≠ g → Function.update d.streams g
          (some ⟨path, decide (Mode.append = Mode.append), 0, []⟩) s = d.streams s :=
        fun s hs => Function.update_of_ne hs _ _
      refine ⟨h.lt, Nat.lt_succ_of_lt h.lt, rfl, Function.update_self path _ _, ?_, ?_, ?_, fun _ st hst => ?_,
        fun hle => absurd hle (Nat.not_succ_le_self g), fun s hf hg => ?_⟩
      · exact (Disk.pending_congr (hothers f (Nat.ne_of_lt h.lt))).trans h.first
      · rw [h.unopened (Nat.le_refl g)]
        simp only [Disk.pending, Function.update_self]
        rfl
      · intro st hst
        exact h.firstAt st ((hothers f (Nat.ne_of_lt h.lt)).symm.trans hst)
      · obtain rfl := Option.some.inj ((Function.update_self g _ _).symm.trans hst)
        exact ⟨rfl, rfl⟩
      · exact (Disk.pending_congr (hothers s hg)).trans (h.others s hf hg)
    exact hon.settle
  · simp only [wlp_bind, wlp_modify, wlp_pure]
    rintro g' ⟨⟩

theorem On.setFirst (h : On path f g o x d) {r : Option Stream} (hr : (r.map Stream.pending).getD [] = data)
    (hat : ∀ st, r = some st → st.path = path ∧ st.append = false ∧ st.pos = x.pos) :
    On path f g o { x with first := data } (d.setStream f r) := by
  have hothers : ∀ s, s ≠ f → (d.setStream f r).pending s = d.pending s :=
    fun s hs => Disk.pending_congr (Disk.setStream_streams_of_ne hs r)
  refine ⟨h.lt, h.first_lt, h.opened, h.file, ?_, ?_, ?_, ?_, h.unopened,
    fun s hf hg => (hothers s hf).trans (h.others s hf hg)⟩
  · rw [Disk.pending, Disk.setStream_streams_self, hr]
  · rw [hothers g (Nat.ne_of_gt h.lt)]
    exact h.second
  · rw [Disk.setStream_streams_self]
    exact hat
  · rw [Disk.setStream_streams_of_ne (Nat.ne_of_gt h.lt)]
    exact h.secondAt

theorem On.setSecond (h : On path f g o x d) (hg : g < o) {r : Option Stream}
    (hr : (r.map Stream.pending).getD [] = data)
    (hat : ∀ st, r = some st → st.path = path ∧ st.append = true) :
    On path f g o { x with second := data } (d.setStream g r) := by
  have hothers : ∀ s, s ≠ g → (d.setStream g r).pending s = d.pending s :=
    fun s hs => Disk.pending_congr (Disk.setStream_streams_of_ne hs r)
  refine ⟨h.lt, h.first_lt, h.opened, h.file, ?_, ?_, ?_, fun _ => ?_,
    fun ho => absurd hg (Nat.not_lt.mpr ho), fun s hf hs => (hothers s hs).trans (h.others s hf hs)⟩
  · rw [hothers f (Nat.ne_of_lt h.lt)]
    exact h.first
  · rw [Disk.pending, Disk.setStream_streams_self, hr]
  · rw [Disk.setStream_streams_of_ne (Nat.ne_of_lt h.lt)]
    exact h.firstAt
  · rw [Disk.setStream_streams_self]
    exact hat

theorem On.idle (h : On path f g o x d) (hfirst : x.first = []) (hsecond : x.second = []) : d.Idle := by
  intro s st hst
  rw [← Disk.pending_of_some hst]
  by_cases hf : s = f
  · rw [hf, h.first, hfirst]
  by_cases hg : s = g
  · rw [hg, h.second, hsecond]
  · exact h.others s hf hg

/-- **A whole write to the first stream.** -/
theorem On.fwrite_first (h : On path f g o x d) (data : List UInt8) : wlp (fwrite f data) (fun n d' =>
    n = data.length → On path f g o (writeFirst d.spills f g d.calls x data) d') d := by
  simp only [fwrite, wlp_bind, wlp_get, wlp_fetch, wlp_set, wlp_modify, wlp_pure]
  intro st hst hn
  rw [hn, List.take_length]
  have hpending : st.pending = x.first := by rw [← h.first, Disk.pending_of_some hst]
  have hon : On path f g o { x with first := x.first ++ data }
      (d.setStream f (some { st with pending := st.pending ++ data })) := by
    refine h.setFirst (by rw [hpending]; rfl) ?_
    rintro _ ⟨⟩
    exact h.firstAt st hst
  exact hon.settle

/-- **A whole write to the second stream.** -/
theorem On.fwrite_second (h : On path f g o x d) (hg : g < o) (data : List UInt8) :
    wlp (fwrite g data) (fun n d' =>
      n = data.length → On path f g o (writeSecond d.spills f g d.calls x data) d') d := by
  simp only [fwrite, wlp_bind, wlp_get, wlp_fetch, wlp_set, wlp_modify, wlp_pure]
  intro st hst hn
  rw [hn, List.take_length]
  have hpending : st.pending = x.second := by rw [← h.second, Disk.pending_of_some hst]
  have hon : On path f g o { x with second := x.second ++ data }
      (d.setStream g (some { st with pending := st.pending ++ data })) := by
    refine h.setSecond hg (by rw [hpending]; rfl) ?_
    rintro _ ⟨⟩
    exact h.secondAt hg st hst
  exact hon.settle

/-- **The second stream is closed.** -/
theorem On.fclose_second (h : On path f g o x d) (hg : g < o) : wlp (fclose g) (fun _ d' =>
    On path f g o (Tandem.settle d.spills f g d.calls (x.pushSecond x.second.length)) d') d := by
  simp only [fclose, wlp_bind, wlp_fetch, wlp_modify]
  intro st hst
  have hlen : st.pending.length = x.second.length := by rw [← h.second, Disk.pending_of_some hst]
  rw [hlen]
  have hpush := h.push_second hg x.second.length
  have hafter := Disk.push_after d g x.second.length
  have hon : On path f g o (x.pushSecond x.second.length)
      ((d.push g x.second.length).setStream g none) :=
    hpush.setSecond hg (drained_second x).symm fun _ hst => by cases hst
  rw [← hafter.spills, ← Nat.add_zero d.calls, ← hafter.calls]
  exact hon.settle

/-- **The first stream is closed** after the second. -/
theorem On.fclose_first (h : On path f g o x d) (hnil : x.second = []) : wlp (fclose f) (fun _ d' =>
    d'.files path = some (x.pushFirst x.first.length).file) d := by
  simp only [fclose, wlp_bind, wlp_fetch, wlp_modify]
  intro st hst
  have hlen : st.pending.length = x.first.length := by rw [← h.first, Disk.pending_of_some hst]
  rw [hlen]
  have hdrained : (x.pushFirst x.first.length).first = [] := by
    refine List.eq_nil_of_length_eq_zero ?_
    rw [length_pushFirst, Nat.sub_self]
  have hon : On path f g o (x.pushFirst x.first.length)
      ((d.push f x.first.length).setStream f none) :=
    (h.push_first x.first.length).setFirst hdrained.symm fun _ hst => by cases hst
  have hidle := hon.idle hdrained (by rw [pushFirst_second, hnil])
  change ((d.push f x.first.length).setStream f none).settle.files path = _
  rw [hidle.settle]
  exact hon.file

/-! ### Whole writes one after the other -/

/-- The streams write the file, `c` says how much reaches it after each call, and call `k` is next. -/
structure Runs (c : ℕ → ℕ → ℕ → ℕ) (path : String) (f g o k : ℕ) (x : Tandem) (d : Disk) : Prop where
  on : On path f g o x d
  spills : d.spills = c
  calls : d.calls = k

variable {c : ℕ → ℕ → ℕ → ℕ} {k : ℕ}

theorem Runs.fwrite_first (h : Runs c path f g o k x d) (data : List UInt8) : wlp (fwrite f data)
    (fun n d' => n = data.length → Runs c path f g o (k + 1) (writeFirst c f g k x data) d') d := by
  obtain ⟨hon, rfl, rfl⟩ := h
  refine wlp_mono (wlp_and (hon.fwrite_first data) (fwrite_after f data)) ?_
  rintro n d' ⟨hwrote, -, hafter⟩ hn
  exact ⟨hwrote hn, hafter.spills, hafter.calls⟩

theorem Runs.fwrite_second (h : Runs c path f g o k x d) (hg : g < o) (data : List UInt8) :
    wlp (fwrite g data)
      (fun n d' => n = data.length → Runs c path f g o (k + 1) (writeSecond c f g k x data) d') d := by
  obtain ⟨hon, rfl, rfl⟩ := h
  refine wlp_mono (wlp_and (hon.fwrite_second hg data) (fwrite_after g data)) ?_
  rintro n d' ⟨hwrote, -, hafter⟩ hn
  exact ⟨hwrote hn, hafter.spills, hafter.calls⟩

end Tandem

end Stdio
