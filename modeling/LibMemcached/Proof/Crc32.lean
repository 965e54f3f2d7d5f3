import LibMemcached.Impl.Crc32
import LibMemcached.Spec.Hashes

/-!
# The table of the cyclic redundancy check

A bit of the check is linear in exclusive or (`crcBit_xor`), and a word whose low bits are clear is only moved down
(`crcBit_iterate_high`). So the eight bits of an octet are those of the low octet, which the table has, and the rest of
the word moved down by eight (`crc32_step`). The sign bits of a `char` are masked away before the table is read.
-/

namespace LM.Hashkit

open Published

variable {w n : Nat} {polynomial x : BitVec w}

theorem crcBit_xor (polynomial x y : BitVec w) :
    crcBit polynomial (x ^^^ y) = crcBit polynomial x ^^^ crcBit polynomial y := by
  unfold crcBit
  rw [BitVec.getLsbD_xor, BitVec.ushiftRight_xor_distrib]
  cases x.getLsbD 0 <;> cases y.getLsbD 0 <;> simp <;> ac_nf
  rw [← BitVec.xor_assoc, BitVec.xor_self, BitVec.zero_xor]

theorem crcBit_iterate_xor (polynomial x y : BitVec w) (n : Nat) :
    (crcBit polynomial)^[n] (x ^^^ y) = (crcBit polynomial)^[n] x ^^^ (crcBit polynomial)^[n] y := by
  induction n generalizing x y with
  | zero => rfl
  | succ n ih => rw [Function.iterate_succ_apply, crcBit_xor, ih]; rfl

/-- As long as the bits that are shifted out are clear, the word is moved down. -/
theorem crcBit_iterate_high (h : ∀ i < n, x.getLsbD i = false) : (crcBit polynomial)^[n] x = x >>> n := by
  induction n with
  | zero => simp
  | succ n ih =>
    have hlow : (x >>> n).getLsbD 0 = false := by simpa using h n (Nat.lt_succ_self n)
    rw [Function.iterate_succ_apply', ih fun i hi => h i (Nat.lt_succ_of_lt hi), crcBit, if_neg (by simp [hlow]),
      BitVec.shiftRight_add]

/-- Every entry of the table is eight bits of its index. -/
theorem crc32tab_eq : ∀ n < 256, (crc32tab.getD n 0).toBitVec = (crcBit crc32Polynomial)^[8] (BitVec.ofNat 32 n) := by
  decide +kernel

/-- The eight bits of a word are those of its low octet, and the rest of it moved down. -/
theorem crcBit_eight (x : BitVec 32) : (crcBit crc32Polynomial)^[8] x =
    x >>> 8 ^^^ (crcBit crc32Polynomial)^[8] ((x.setWidth 8).setWidth 32) := by
  have hsplit : x = x >>> 8 <<< 8 ^^^ (x.setWidth 8).setWidth 32 := by
    ext i hi
    by_cases hlow : i < 8
    · simp [hlow, BitVec.getLsbD_eq_getElem hi]
    · simp [hlow, Nat.add_sub_cancel' (Nat.le_of_not_lt hlow), BitVec.getLsbD_eq_getElem hi]
  have hhigh : (crcBit crc32Polynomial)^[8] (x >>> 8 <<< 8) = x >>> 8 := by
    rw [crcBit_iterate_high (by simp +contextual)]
    ext i hi
    by_cases htop : 8 + i < 32
    · simp [htop]
    · simp [htop, BitVec.getLsbD_of_ge x (8 + i) (Nat.le_of_not_lt htop)]
  conv => lhs; rw [hsplit, crcBit_iterate_xor, hhigh]

/-- The table is read at the low octet, whatever the sign bits of the `char` are. -/
theorem crc32_index (crc : UInt32) (c : UInt8) : ((crc.toUInt64 ^^^ charToUInt64 c) &&& 0xff).toNat =
    ((crc.toBitVec ^^^ BitVec.ofNat 32 c.toNat).setWidth 8).toNat := by
  have hchar : (charToUInt64 c).toNat % 2 ^ 8 = c.toNat := by
    unfold charToUInt64
    split
    · simp
    · rw [UInt64.toNat_or, Nat.or_mod_two_pow]
      simp
  rw [UInt64.toNat_and, show (0xff : UInt64).toNat = 2 ^ 8 - 1 from rfl, Nat.and_two_pow_sub_one_eq_mod, UInt64.toNat_xor,
    Nat.xor_mod_two_pow, hchar, BitVec.toNat_setWidth, BitVec.toNat_xor, Nat.xor_mod_two_pow]
  simp

theorem crc32_step (crc : UInt32) (c : UInt8) :
    (crc32Byte crc c).toBitVec = crc32Octet crc.toBitVec c.toNat := by
  have hoctet : BitVec.ofNat 32 c.toNat >>> 8 = 0#32 := by
    apply BitVec.eq_of_toNat_eq
    have := c.toNat_lt
    simp [Nat.shiftRight_eq_div_pow]
    omega
  rw [crc32Byte, crc32Octet, UInt32.toBitVec_xor, crc32_index, crc32tab_eq _ (BitVec.isLt _), BitVec.ofNat_toNat,
    crcBit_eight (crc.toBitVec ^^^ _), BitVec.ushiftRight_xor_distrib, hoctet, BitVec.xor_zero]
  rfl

/-- `hashkit_crc32` is bits 16 to 30 of the CRC-32 of the key's octets. -/
theorem crc32_as_published (key : Bytes) :
    (crc32 key).toBitVec = ((Published.crc32 (key.map UInt8.toNat)).extractLsb' 16 15).setWidth 32 := by
  have hfold : (key.foldl crc32Byte 0xffffffff).toBitVec =
      (key.map UInt8.toNat).foldl crc32Octet (BitVec.allOnes 32) := by
    rw [List.foldl_map]
    exact (List.foldl_hom UInt32.toBitVec fun crc c => (crc32_step crc c).symm).symm
  rw [Published.crc32, ← hfold]
  apply BitVec.eq_of_toNat_eq
  rw [crc32, UInt32.toBitVec_and, BitVec.toNat_and, show (0x7fff : UInt32).toBitVec.toNat = 2 ^ 15 - 1 from rfl,
    Nat.and_two_pow_sub_one_eq_mod, BitVec.toNat_setWidth, BitVec.extractLsb'_toNat]
  have hlt (n : Nat) : n % 2 ^ 15 < 2 ^ 32 := Nat.lt_of_lt_of_le (Nat.mod_lt _ (by decide)) (by decide)
  rw [Nat.mod_eq_of_lt (hlt _)]
  rfl

/-- The check value of CRC-32 is 0xCBF43926. -/
example : crc32 [0x31, 0x32, 0x33, 0x34, 0x35, 0x36, 0x37, 0x38, 0x39] = 0x4bf4 := by decide +kernel

end LM.Hashkit
