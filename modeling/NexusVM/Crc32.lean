import NexusVM.Lib.Access
import NexusVM.Lib.Crc

/-!
# The CRC of a byte string

`crc32` of `utils/log.c`, on a memory of bytes.

* `crc32Table`, `crc32`: the function; `crc32Table_eq`: the words of its table;
* `bits`, `bitSerialCrc32`: the bits of a byte string, and the register that takes them in one by one;
* **`crc32_eq_bitSerial`**: the function computes what the register does;
* **`crc32_ne_of_burst`**: it tells byte strings apart that differ within 32 bits.
-/

namespace NexusVM

open Prog Access

variable {t t₁ t₂ : Accessed} {xs ys : List UInt8}

/-! ## The function -/

/-- `crc32_table` -/
def crc32Table : List UInt32 := [
  0x00000000, 0x77073096, 0xEE0E612C, 0x990951BA, 0x076DC419, 0x706AF48F, 0xE963A535, 0x9E6495A3,
  0x0EDB8832, 0x79DCB8A4, 0xE0D5E91E, 0x97D2D988, 0x09B64C2B, 0x7EB17CBD, 0xE7B82D07, 0x90BF1D91,
  0x1DB71064, 0x6AB020F2, 0xF3B97148, 0x84BE41DE, 0x1ADAD47D, 0x6DDDE4EB, 0xF4D4B551, 0x83D385C7,
  0x136C9856, 0x646BA8C0, 0xFD62F97A, 0x8A65C9EC, 0x14015C4F, 0x63066CD9, 0xFA0F3D63, 0x8D080DF5,
  0x3B6E20C8, 0x4C69105E, 0xD56041E4, 0xA2677172, 0x3C03E4D1, 0x4B04D447, 0xD20D85FD, 0xA50AB56B,
  0x35B5A8FA, 0x42B2986C, 0xDBBBC9D6, 0xACBCF940, 0x32D86CE3, 0x45DF5C75, 0xDCD60DCF, 0xABD13D59,
  0x26D930AC, 0x51DE003A, 0xC8D75180, 0xBFD06116, 0x21B4F4B5, 0x56B3C423, 0xCFBA9599, 0xB8BDA50F,
  0x2802B89E, 0x5F058808, 0xC60CD9B2, 0xB10BE924, 0x2F6F7C87, 0x58684C11, 0xC1611DAB, 0xB6662D3D,
  0x76DC4190, 0x01DB7106, 0x98D220BC, 0xEFD5102A, 0x71B18589, 0x06B6B51F, 0x9FBFE4A5, 0xE8B8D433,
  0x7807C9A2, 0x0F00F934, 0x9609A88E, 0xE10E9818, 0x7F6A0DBB, 0x086D3D2D, 0x91646C97, 0xE6635C01,
  0x6B6B51F4, 0x1C6C6162, 0x856530D8, 0xF262004E, 0x6C0695ED, 0x1B01A57B, 0x8208F4C1, 0xF50FC457,
  0x65B0D9C6, 0x12B7E950, 0x8BBEB8EA, 0xFCB9887C, 0x62DD1DDF, 0x15DA2D49, 0x8CD37CF3, 0xFBD44C65,
  0x4DB26158, 0x3AB551CE, 0xA3BC0074, 0xD4BB30E2, 0x4ADFA541, 0x3DD895D7, 0xA4D1C46D, 0xD3D6F4FB,
  0x4369E96A, 0x346ED9FC, 0xAD678846, 0xDA60B8D0, 0x44042D73, 0x33031DE5, 0xAA0A4C5F, 0xDD0D7CC9,
  0x5005713C, 0x270241AA, 0xBE0B1010, 0xC90C2086, 0x5768B525, 0x206F85B3, 0xB966D409, 0xCE61E49F,
  0x5EDEF90E, 0x29D9C998, 0xB0D09822, 0xC7D7A8B4, 0x59B33D17, 0x2EB40D81, 0xB7BD5C3B, 0xC0BA6CAD,
  0xEDB88320, 0x9ABFB3B6, 0x03B6E20C, 0x74B1D29A, 0xEAD54739, 0x9DD277AF, 0x04DB2615, 0x73DC1683,
  0xE3630B12, 0x94643B84, 0x0D6D6A3E, 0x7A6A5AA8, 0xE40ECF0B, 0x9309FF9D, 0x0A00AE27, 0x7D079EB1,
  0xF00F9344, 0x8708A3D2, 0x1E01F268, 0x6906C2FE, 0xF762575D, 0x806567CB, 0x196C3671, 0x6E6B06E7,
  0xFED41B76, 0x89D32BE0, 0x10DA7A5A, 0x67DD4ACC, 0xF9B9DF6F, 0x8EBEEFF9, 0x17B7BE43, 0x60B08ED5,
  0xD6D6A3E8, 0xA1D1937E, 0x38D8C2C4, 0x4FDFF252, 0xD1BB67F1, 0xA6BC5767, 0x3FB506DD, 0x48B2364B,
  0xD80D2BDA, 0xAF0A1B4C, 0x36034AF6, 0x41047A60, 0xDF60EFC3, 0xA867DF55, 0x316E8EEF, 0x4669BE79,
  0xCB61B38C, 0xBC66831A, 0x256FD2A0, 0x5268E236, 0xCC0C7795, 0xBB0B4703, 0x220216B9, 0x5505262F,
  0xC5BA3BBE, 0xB2BD0B28, 0x2BB45A92, 0x5CB36A04, 0xC2D7FFA7, 0xB5D0CF31, 0x2CD99E8B, 0x5BDEAE1D,
  0x9B64C2B0, 0xEC63F226, 0x756AA39C, 0x026D930A, 0x9C0906A9, 0xEB0E363F, 0x72076785, 0x05005713,
  0x95BF4A82, 0xE2B87A14, 0x7BB12BAE, 0x0CB61B38, 0x92D28E9B, 0xE5D5BE0D, 0x7CDCEFB7, 0x0BDBDF21,
  0x86D3D2D4, 0xF1D4E242, 0x68DDB3F8, 0x1FDA836E, 0x81BE16CD, 0xF6B9265B, 0x6FB077E1, 0x18B74777,
  0x88085AE6, 0xFF0F6A70, 0x66063BCA, 0x11010B5C, 0x8F659EFF, 0xF862AE69, 0x616BFFD3, 0x166CCF45,
  0xA00AE278, 0xD70DD2EE, 0x4E048354, 0x3903B3C2, 0xA7672661, 0xD06016F7, 0x4969474D, 0x3E6E77DB,
  0xAED16A4A, 0xD9D65ADC, 0x40DF0B66, 0x37D83BF0, 0xA9BCAE53, 0xDEBB9EC5, 0x47B2CF7F, 0x30B5FFE9,
  0xBDBDF21C, 0xCABAC28A, 0x53B39330, 0x24B4A3A6, 0xBAD03605, 0xCDD70693, 0x54DE5729, 0x23D967BF,
  0xB3667A2E, 0xC4614AB8, 0x5D681B02, 0x2A6F2B94, 0xB40BBE37, 0xC30C8EA1, 0x5A05DF1B, 0x2D02EF8D]

/-- The loop of `crc32`: the register behind it. -/
def crc32Loop (crc : UInt32) (p : UInt64) : ℕ → Prog Accessed UInt32
  | 0 => return crc
  | n + 1 => do
    let c ← loadByte p
    crc32Loop (crc32Table.getD ((crc ^^^ c.toUInt32) &&& 0xFF).toNat 0 ^^^ (crc >>> 8)) (p + 1) n

def crc32 (data len : UInt64) : Prog Accessed UInt32 := do
  let crc ← crc32Loop 0xFFFFFFFF data len.toNat
  return crc ^^^ 0xFFFFFFFF

/-! ## The register -/

/-- The polynomial of CRC-32, its bits in reverse. -/
def polynomial : BitVec 32 := 0xEDB88320#32

/-- The bits of a byte, the least significant first. -/
def byteBits (c : UInt8) : List Bool := (List.range 8).map c.toBitVec.getLsbD

/-- The bits of a byte string, byte by byte. -/
def bits (xs : List UInt8) : List Bool := xs.flatMap byteBits

/-- The CRC, taking in the bits one by one. -/
def bitSerialCrc32 (xs : List UInt8) : BitVec 32 := ~~~ Crc.feed polynomial 0xFFFFFFFF#32 (bits xs)

theorem getElem?_bits (xs : List UInt8) (k : ℕ) :
    (bits xs)[k]? = xs[k / 8]?.map fun c => c.toBitVec.getLsbD (k % 8) := by
  induction xs generalizing k with
  | nil => rfl
  | cons c xs ih =>
    have hlen : (byteBits c).length = 8 := by simp [byteBits]
    rw [bits, List.flatMap_cons]
    by_cases hk : k < 8
    · rw [List.getElem?_append_left (by omega), Nat.div_eq_of_lt hk, Nat.mod_eq_of_lt hk]
      simp [byteBits, hk]
    · have hdiv : k / 8 = (k - 8) / 8 + 1 := by omega
      have hmod : (k - 8) % 8 = k % 8 := by omega
      rw [List.getElem?_append_right (by omega), hlen, hdiv, List.getElem?_cons_succ, ← hmod]
      exact ih (k - 8)

theorem bits_injective (h : bits xs = bits ys) : xs = ys := by
  refine List.ext_getElem? fun i => ?_
  have hbit : ∀ j < 8, xs[i]?.map (fun c => c.toBitVec.getLsbD j) =
      ys[i]?.map fun c => c.toBitVec.getLsbD j := by
    intro j hj
    have hk := congrArg (fun l : List Bool => l[8 * i + j]?) h
    have hdiv : (8 * i + j) / 8 = i := by omega
    have hmod : (8 * i + j) % 8 = j := by omega
    simpa only [getElem?_bits, hdiv, hmod] using hk
  cases hx : xs[i]? with
  | none =>
    have h0 := hbit 0 (by decide)
    rw [hx, Option.map_none, eq_comm, Option.map_eq_none_iff] at h0
    exact h0.symm
  | some c =>
    cases hy : ys[i]? with
    | none =>
      have h0 := hbit 0 (by decide)
      rw [hx, hy] at h0
      cases h0
    | some d =>
      rw [hx, hy] at hbit
      refine congrArg some (UInt8.toBitVec_inj.mp (BitVec.eq_of_getLsbD_eq fun j hj => ?_))
      exact Option.some.inj (hbit j hj)

/-! ## The table -/

/-- **The table**: each word is what eight turns make of its place. -/
theorem crc32Table_eq : ∀ i < 256, (crc32Table.getD i 0).toBitVec =
    (Crc.step polynomial)^[8] (BitVec.ofNat 32 i) := by
  decide +kernel

theorem word_byteBits (c : UInt8) : Crc.word 32 (byteBits c) = c.toBitVec.setWidth 32 := by
  refine BitVec.eq_of_getLsbD_eq fun i hi => ?_
  rw [Crc.getLsbD_word hi, BitVec.getLsbD_setWidth]
  by_cases hbyte : i < 8
  · simp [byteBits, hi, hbyte]
  · rw [BitVec.getLsbD_of_ge _ _ (by omega)]
    simp [byteBits, hbyte]

/-- **A look into the table** takes in a byte. -/
theorem lookup_eq_feed (crc : UInt32) (c : UInt8) :
    (crc32Table.getD ((crc ^^^ c.toUInt32) &&& 0xFF).toNat 0 ^^^ (crc >>> 8)).toBitVec =
      Crc.feed polynomial crc.toBitVec (byteBits c) := by
  have hlen : (byteBits c).length = 8 := by simp [byteBits]
  have hlow : ((crc ^^^ c.toUInt32) &&& 0xFF).toNat < 256 := by
    rw [UInt32.toNat_and]
    exact Nat.lt_succ_of_le Nat.and_le_right
  have hindex : BitVec.ofNat 32 ((crc ^^^ c.toUInt32) &&& 0xFF).toNat =
      (crc.toBitVec ^^^ c.toBitVec.setWidth 32) &&& BitVec.ofNat 32 (2 ^ 8 - 1) :=
    (BitVec.ofNat_toNat 32 _).trans (BitVec.setWidth_eq _)
  -- the byte is shifted out
  have hshift : (crc >>> 8).toBitVec = (crc.toBitVec ^^^ c.toBitVec.setWidth 32) >>> 8 := by
    rw [BitVec.ushiftRight_xor_distrib]
    ext i hi
    simp
  rw [Crc.feed_eq_iterate _ _ (by omega), hlen, word_byteBits, Crc.iterate_step_eq, UInt32.toBitVec_xor,
    crc32Table_eq _ hlow, hindex, hshift]

theorem crc32Loop_spec (crc : UInt32) (p : UInt64) (n : ℕ) (t : Accessed) :
    wp (crc32Loop crc p n) (fun r t' =>
      r.toBitVec = Crc.feed polynomial crc.toBitVec (bits (Bytes.read t.mem p n)) ∧ t'.mem = t.mem) t := by
  induction n generalizing crc p t with
  | zero =>
    rw [crc32Loop, wp_pure]
    exact ⟨rfl, rfl⟩
  | succ n ih =>
    rw [crc32Loop, wp_bind, wp_loadByte]
    refine wp_mono (ih _ (p + 1) _) ?_
    rintro r t' ⟨hr, hmem⟩
    rw [Bytes.read, bits, List.flatMap_cons, Crc.feed_append, ← lookup_eq_feed]
    exact ⟨hr, hmem⟩

theorem crc32_spec (t : Accessed) (data len : UInt64) : wp (crc32 data len) (fun r t' =>
    r.toBitVec = bitSerialCrc32 (Bytes.read t.mem data len.toNat) ∧ t'.mem = t.mem) t := by
  rw [crc32, wp_bind]
  refine wp_mono (crc32Loop_spec _ data len.toNat t) ?_
  rintro crc t' ⟨hcrc, hmem⟩
  rw [wp_pure, UInt32.toBitVec_xor, hcrc, bitSerialCrc32]
  exact ⟨BitVec.xor_allOnes, hmem⟩

/-- **`crc32` is the CRC**: with the table it computes what the register does bit by bit, for every byte
string. -/
theorem crc32_eq_bitSerial (t : Accessed) (data len : UInt64) : wp (crc32 data len) (fun r t' =>
    r.toBitVec = bitSerialCrc32 (Bytes.read t.mem data len.toNat) ∧ t'.mem = t.mem) t :=
  crc32_spec t data len

/-- **Bursts are detected**: two byte strings of one length that differ, but only within 32 consecutive
bits, have different CRCs. -/
theorem crc32_ne_of_burst {data₁ data₂ len : UInt64}
    (hne : Bytes.read t₁.mem data₁ len.toNat ≠ Bytes.read t₂.mem data₂ len.toNat) {a : ℕ}
    (hburst : ∀ k : ℕ, (bits (Bytes.read t₁.mem data₁ len.toNat))[k]? ≠
      (bits (Bytes.read t₂.mem data₂ len.toNat))[k]? → a ≤ k ∧ k < a + 32) :
    wp (crc32 data₁ len) (fun r₁ _ => wp (crc32 data₂ len) (fun r₂ _ => r₁ ≠ r₂) t₂) t₁ := by
  have hlength : ∀ xs : List UInt8, (bits xs).length = xs.length * 8 := fun xs => by
    simp [bits, byteBits, List.length_flatMap]
  have hlen : (bits (Bytes.read t₁.mem data₁ len.toNat)).length =
      (bits (Bytes.read t₂.mem data₂ len.toNat)).length := by
    rw [hlength, hlength, Bytes.length_read, Bytes.length_read]
  have htop : polynomial.getLsbD (32 - 1) = true := by decide
  have hfeed := Crc.feed_ne_of_burst htop 0xFFFFFFFF#32 hlen (fun h => hne (bits_injective h)) hburst
  refine wp_mono (crc32_spec t₁ data₁ len) ?_
  rintro r₁ _ ⟨h₁, -⟩
  refine wp_mono (crc32_spec t₂ data₂ len) ?_
  rintro r₂ _ ⟨h₂, -⟩ heq
  rw [heq, h₂, bitSerialCrc32, bitSerialCrc32, BitVec.not_inj] at h₁
  exact hfeed h₁.symm

/-- A burst of 32 bits that begins and ends inside a byte. -/
theorem crc32_ne_of_burst_unaligned :
    wp (crc32 0 5) (fun r₁ _ => wp (crc32 0 5) (fun r₂ _ => r₁ ≠ r₂)
      { mem := fun a => if a = 0 then 0xF0 else if a = 4 then 0x0F else 0xFF }) { mem := fun _ => 0 } := by
  refine crc32_ne_of_burst (a := 4) (by decide) fun k hk => ?_
  by_cases hlt : k < 40
  · revert hk
    revert k
    decide
  · have hout : ∀ m : Bytes, (Bytes.read m 0 (UInt64.toNat 5))[k / 8]? = none := fun m =>
      List.getElem?_eq_none (by rw [Bytes.length_read]; change 5 ≤ _; omega)
    rw [getElem?_bits, getElem?_bits, hout, hout] at hk
    exact absurd rfl hk

end NexusVM
