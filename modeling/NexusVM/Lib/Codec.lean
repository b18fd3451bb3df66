import Mathlib.Data.UInt

/-!
# Values as bytes

How the values of a type lie in memory: each takes the same number of bytes, and any bytes can be
read as a value.

* `littleEndian`, `ofLittleEndian`, `ofLittleEndian_littleEndian`, `ofLittleEndian_append`,
  `testBit_ofLittleEndian`: numbers as bytes;
* `Codec`: a size, a writer and a reader; the reader takes the written value from the front of any
  bytes;
* `uint`, `bool`, `pad`, `pair`, `vec`, `iso`: integers, fillers, records, arrays, and other names
  for the same bytes;
* `encodeList`, `decodeList`, `decodeList_encodeList`: any number of values one after the other;
* `overlay`, `overlay_bool`: a value in memory after a store that may meet it.
-/

/-! ## Numbers -/

/-- The `n` lowest bytes of a number, lowest first. -/
def littleEndian : ℕ → ℕ → List UInt8
  | 0, _ => []
  | n + 1, v => UInt8.ofNat v :: littleEndian n (v / 256)

/-- The number whose `n` bytes are the first of a list, lowest first. -/
def ofLittleEndian : ℕ → List UInt8 → ℕ
  | 0, _ => 0
  | n + 1, bs => (bs.headD 0).toNat + 256 * ofLittleEndian n bs.tail

@[simp] theorem length_littleEndian (n v : ℕ) : (littleEndian n v).length = n := by
  induction n generalizing v with
  | zero => rfl
  | succ n ih => rw [littleEndian, List.length_cons, ih]

theorem ofLittleEndian_littleEndian {n v : ℕ} (hv : v < 256 ^ n) (rest : List UInt8) :
    ofLittleEndian n (littleEndian n v ++ rest) = v := by
  induction n generalizing v with
  | zero =>
    rw [Nat.pow_zero] at hv
    exact (Nat.lt_one_iff.mp hv).symm
  | succ n ih =>
    have hdiv : v / 256 < 256 ^ n := by
      rw [Nat.pow_succ] at hv
      exact Nat.div_lt_of_lt_mul (by rwa [Nat.mul_comm] at hv)
    rw [littleEndian, List.cons_append, ofLittleEndian, List.headD_cons, List.tail_cons, ih hdiv,
      UInt8.toNat_ofNat']
    omega

theorem ofLittleEndian_lt (n : ℕ) (bs : List UInt8) : ofLittleEndian n bs < 256 ^ n := by
  induction n generalizing bs with
  | zero => exact Nat.one_pos
  | succ n ih =>
    have hbyte := (bs.headD 0).toNat_lt
    have hrest := ih bs.tail
    rw [ofLittleEndian, Nat.pow_succ]
    omega

theorem ofLittleEndian_append (xs : List UInt8) (n : ℕ) (ys : List UInt8) :
    ofLittleEndian (xs.length + n) (xs ++ ys) =
      ofLittleEndian xs.length xs + 256 ^ xs.length * ofLittleEndian n ys := by
  induction xs with
  | nil =>
    rw [List.length_nil, Nat.zero_add, List.nil_append, ofLittleEndian, Nat.zero_add, Nat.pow_zero,
      Nat.one_mul]
  | cons x xs ih =>
    rw [List.length_cons, Nat.add_right_comm, List.cons_append, ofLittleEndian, ofLittleEndian,
      List.headD_cons, List.headD_cons, List.tail_cons, List.tail_cons, ih, Nat.pow_succ, Nat.mul_add,
      Nat.mul_comm (256 ^ xs.length) 256, Nat.mul_assoc, Nat.add_assoc]

theorem testBit_ofLittleEndian {n t : ℕ} (bs : List UInt8) (ht : t < 8 * n) :
    (ofLittleEndian n bs).testBit t = (bs.getD (t / 8) 0).toNat.testBit (t % 8) := by
  induction n generalizing t bs with
  | zero => omega
  | succ n ih =>
    rw [ofLittleEndian, Nat.add_comm, show 256 = 2 ^ 8 from rfl,
      Nat.testBit_two_pow_mul_add _ (bs.headD 0).toNat_lt]
    split_ifs with hlow
    · rw [Nat.div_eq_of_lt hlow, Nat.mod_eq_of_lt hlow, List.headD_eq_head?_getD, List.getD_eq_getElem?_getD,
        List.head?_eq_getElem?]
    · have hdiv : t / 8 = (t - 8) / 8 + 1 := by omega
      have hmod : t % 8 = (t - 8) % 8 := by omega
      rw [ih bs.tail (by omega), hdiv, hmod, List.getD_eq_getElem?_getD, List.getD_eq_getElem?_getD,
        List.getElem?_tail]

/-! ## Codecs -/

/-- How the values of a type lie in memory. -/
structure Codec (α : Type) where
  size : ℕ
  encode : α → List UInt8
  decode : List UInt8 → α
  length_encode : ∀ x, (encode x).length = size
  decode_encode : ∀ x rest, decode (encode x ++ rest) = x

namespace Codec

variable {α β : Type}

attribute [simp] length_encode decode_encode

@[simp] theorem decode_encode_self (c : Codec α) (x : α) : c.decode (c.encode x) = x := by
  have h := c.decode_encode x []
  rwa [List.append_nil] at h

theorem take_encode (c : Codec α) (x : α) (rest : List UInt8) :
    (c.encode x ++ rest).take c.size = c.encode x :=
  List.take_left' (c.length_encode x)

theorem drop_encode (c : Codec α) (x : α) (rest : List UInt8) :
    (c.encode x ++ rest).drop c.size = rest :=
  List.drop_left' (c.length_encode x)

/-! ### Integers -/

/-- An unsigned integer of `n` bytes. -/
def uint (n : ℕ) (toNat : α → ℕ) (ofNat : ℕ → α) (hlt : ∀ x, toNat x < 256 ^ n)
    (hof : ∀ x, ofNat (toNat x) = x) : Codec α where
  size := n
  encode x := littleEndian n (toNat x)
  decode bs := ofNat (ofLittleEndian n bs)
  length_encode x := length_littleEndian n _
  decode_encode x rest := by
    rw [ofLittleEndian_littleEndian (hlt x), hof]

def u8 : Codec UInt8 := uint 1 UInt8.toNat UInt8.ofNat UInt8.toNat_lt fun _ => UInt8.ofNat_toNat

def u16 : Codec UInt16 :=
  uint 2 UInt16.toNat UInt16.ofNat UInt16.toNat_lt fun _ => UInt16.ofNat_toNat

def u32 : Codec UInt32 :=
  uint 4 UInt32.toNat UInt32.ofNat UInt32.toNat_lt fun _ => UInt32.ofNat_toNat

def u64 : Codec UInt64 :=
  uint 8 UInt64.toNat UInt64.ofNat UInt64.toNat_lt fun _ => UInt64.ofNat_toNat

/-- A truth value in a byte. -/
def bool : Codec Bool where
  size := 1
  encode b := [if b then 1 else 0]
  decode bs := bs.headD 0 != 0
  length_encode _ := rfl
  decode_encode b rest := by cases b <;> rfl

/-! ### Records -/

/-- Bytes without a meaning. -/
def pad (n : ℕ) : Codec Unit where
  size := n
  encode _ := List.replicate n 0
  decode _ := ()
  length_encode _ := List.length_replicate
  decode_encode _ _ := rfl

/-- One value after another. -/
def pair (c : Codec α) (d : Codec β) : Codec (α × β) where
  size := c.size + d.size
  encode x := c.encode x.1 ++ d.encode x.2
  decode bs := (c.decode bs, d.decode (bs.drop c.size))
  length_encode x := by rw [List.length_append, c.length_encode, d.length_encode]
  decode_encode x rest := by
    rw [List.append_assoc, c.decode_encode, c.drop_encode, d.decode_encode]

/-- The same bytes for the values of another type. -/
def iso (c : Codec α) (read : α → β) (write : β → α) (h : ∀ y, read (write y) = y) : Codec β where
  size := c.size
  encode y := c.encode (write y)
  decode bs := read (c.decode bs)
  length_encode y := c.length_encode _
  decode_encode y rest := by rw [c.decode_encode, h]

/-! ### Sequences -/

/-- Values one after the other. -/
def encodeList (c : Codec α) (xs : List α) : List UInt8 := xs.flatMap c.encode

/-- The first `n` values that are read from some bytes. -/
def decodeList (c : Codec α) : ℕ → List UInt8 → List α
  | 0, _ => []
  | n + 1, bs => c.decode bs :: decodeList c n (bs.drop c.size)

variable (c : Codec α)

@[simp] theorem encodeList_nil : c.encodeList [] = [] := rfl

@[simp] theorem encodeList_cons (x : α) (xs : List α) :
    c.encodeList (x :: xs) = c.encode x ++ c.encodeList xs := rfl

theorem encodeList_append (xs ys : List α) :
    c.encodeList (xs ++ ys) = c.encodeList xs ++ c.encodeList ys := List.flatMap_append

theorem length_encodeList (xs : List α) : (c.encodeList xs).length = xs.length * c.size := by
  induction xs with
  | nil => rw [encodeList_nil, List.length_nil, List.length_nil, Nat.zero_mul]
  | cons x xs ih =>
    rw [encodeList_cons, List.length_append, c.length_encode, ih, List.length_cons, Nat.succ_mul,
      Nat.add_comm]

@[simp] theorem length_decodeList (n : ℕ) (bs : List UInt8) : (c.decodeList n bs).length = n := by
  induction n generalizing bs with
  | zero => rfl
  | succ n ih => rw [decodeList, List.length_cons, ih]

theorem decodeList_encodeList (xs : List α) (rest : List UInt8) :
    c.decodeList xs.length (c.encodeList xs ++ rest) = xs := by
  induction xs with
  | nil => rfl
  | cons x xs ih =>
    rw [encodeList_cons, List.append_assoc, List.length_cons, decodeList, c.decode_encode,
      c.drop_encode, ih]

/-- An array. -/
def vec (n : ℕ) : Codec (Vector α n) where
  size := n * c.size
  encode v := c.encodeList v.toList
  decode bs := ⟨(c.decodeList n bs).toArray, by rw [List.size_toArray, length_decodeList]⟩
  length_encode v := by rw [length_encodeList, Vector.length_toList]
  decode_encode v rest := by
    apply Vector.toList_inj.mp
    have h := decodeList_encodeList c v.toList rest
    rwa [Vector.length_toList] at h

/-! ### Stores -/

/-- The value at the address `a`, after bytes were stored from `dest` on. -/
def overlay (x : α) (a dest : ℕ) (bytes : List UInt8) : α :=
  c.decode ((List.range c.size).map fun k =>
    if dest ≤ a + k ∧ a + k < dest + bytes.length then bytes.getD (a + k - dest) 0
    else (c.encode x).getD k 0)

theorem overlay_bool (b : Bool) (a dest : ℕ) (bytes : List UInt8) : bool.overlay b a dest bytes =
    if dest ≤ a ∧ a < dest + bytes.length then bytes.getD (a - dest) 0 != 0 else b := by
  change ((if dest ≤ a ∧ a < dest + bytes.length then bytes.getD (a - dest) 0
    else (bool.encode b).getD 0 0) != 0) = _
  split_ifs with h
  · rfl
  · cases b <;> rfl

end Codec
