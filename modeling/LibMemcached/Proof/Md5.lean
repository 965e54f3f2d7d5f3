import LibMemcached.Framework.Chunks
import LibMemcached.Impl.Hosts
import LibMemcached.Impl.Md5

/-!
# What the MD5 code computes

`MD5Update` keeps the rest of a block in the buffer of the context, and counts bits in two words.
The context it leaves is that of all data so far, however it was cut (`Absorbed.update`), and
`MD5Final` adds what MD5 adds to a message.
-/

namespace LM.Hashkit.Md5

open List Cutter

variable {context : Ctx} {data input : Bytes}

theorem take_copyTo {buffer : Bytes} {offset : Nat} (data : Bytes) (h : offset ≤ buffer.length) :
    (copyTo buffer offset data).take (offset + data.length) = buffer.take offset ++ data := by
  rw [copyTo]
  exact take_left' (by simp [h])

/-- The message as MD5 is defined on it: a bit and zeros up to 56 bytes into a block, and the number
of bits, low word first. -/
def padded (message : Bytes) : Bytes :=
  message ++ (0x80 :: List.replicate ((119 - message.length % 64) % 64) 0) ++
    encode [.ofNat (8 * message.length), .ofNat (8 * message.length / 2 ^ 32)]

/-- The state behind the blocks of the data, and what is left of it. -/
def absorb (data : Bytes) : Consumed UInt8 State := blocks 64 transform data ({} : Ctx).state

/-- MD5 of a message: the four words behind its last block. -/
def md5 (message : Bytes) : List UInt32 :=
  let s := (absorb (padded message)).state
  [s.a, s.b, s.c, s.d]

/-- The context has taken the data. -/
structure Absorbed (context : Ctx) (data : Bytes) : Prop where
  count0 : context.count0 = .ofNat (8 * data.length)
  count1 : context.count1 = .ofNat (8 * data.length / 2 ^ 32)
  state : context.state = (absorb data).state
  buffer : context.buffer.take (data.length % 64) = (absorb data).tail

theorem length_tail_absorb (data : Bytes) : (absorb data).tail.length = data.length % 64 :=
  (blocks_spec data _).2

/-- The place in the block, from the number of bits. -/
theorem toNat_idx (n : Nat) : (UInt32.ofNat (8 * n) >>> 3 &&& 0x3f).toNat = n % 64 := by
  have hmask (x : Nat) : x &&& 63 = x % 64 := Nat.and_two_pow_sub_one_eq_mod x 6
  have hshift : (UInt32.ofNat (8 * n) >>> 3).toNat = 8 * n % 2 ^ 32 / 8 := by
    rw [UInt32.toNat_shiftRight, UInt32.toNat_ofNat']
    exact Nat.shiftRight_eq_div_pow _ 3
  rw [UInt32.toNat_and, hshift]
  exact (hmask _).trans (by omega)

theorem Absorbed.room (h : Absorbed context data) : data.length % 64 ≤ context.buffer.length := by
  have := congrArg length h.buffer
  rw [length_tail_absorb, length_take] at this
  omega

/-- The number of bits, with the carry of the source. -/
theorem counted (d n : Nat) (hn : n < 2 ^ 32) :
    UInt32.ofNat (8 * d) + UInt32.ofNat n <<< 3 = UInt32.ofNat (8 * (d + n)) ∧
    (if UInt32.ofNat (8 * d) + UInt32.ofNat n <<< 3 < UInt32.ofNat n <<< 3 then
        UInt32.ofNat (8 * d / 2 ^ 32) + 1 else UInt32.ofNat (8 * d / 2 ^ 32)) + UInt32.ofNat n >>> 29 =
      UInt32.ofNat (8 * (d + n) / 2 ^ 32) := by
  have hshift : (UInt32.ofNat n <<< 3).toNat = 8 * n % 2 ^ 32 := by
    rw [UInt32.toNat_shiftLeft, UInt32.toNat_ofNat', Nat.mod_eq_of_lt hn]
    simp [Nat.shiftLeft_eq, Nat.mul_comm]
  have hhigh : (UInt32.ofNat n >>> 29).toNat = n / 2 ^ 29 := by
    rw [UInt32.toNat_shiftRight, UInt32.toNat_ofNat', Nat.mod_eq_of_lt hn]
    simp [Nat.shiftRight_eq_div_pow]
  have hlow : (UInt32.ofNat (8 * d) + UInt32.ofNat n <<< 3).toNat = 8 * (d + n) % 2 ^ 32 := by
    rw [UInt32.toNat_add, UInt32.toNat_ofNat', hshift]
    omega
  refine ⟨UInt32.toNat_inj.mp (by rw [hlow, UInt32.toNat_ofNat']), UInt32.toNat_inj.mp ?_⟩
  simp only [UInt32.toNat_add, hhigh, UInt32.lt_iff_toNat_lt, hlow, hshift, UInt32.toNat_ofNat']
  split
  · rw [UInt32.toNat_add, UInt32.toNat_ofNat']
    change ((_ + 1) % _ + _) % _ = _
    omega
  · rw [UInt32.toNat_ofNat']
    omega

/-- The loop takes the blocks from `i` on: as the blocks lie, `i + 63` does not wrap around. -/
theorem transformLoop_eq {fuel i : Nat} (idx : Nat) (state : State) (hi : i ≤ input.length)
    (hblock : (i + idx) % 64 = 0) (hlen : idx + input.length < 2 ^ 32) (hfuel : input.length ≤ i + fuel) :
    ∃ j, transformLoop input fuel i state = ((blocks 64 transform (input.drop i) state).state, j) ∧
      input.drop j = (blocks 64 transform (input.drop i) state).tail := by
  have hlength (i : Nat) : (input.drop i).length = input.length - i := length_drop
  induction fuel generalizing i state with
  | zero => exact ⟨i, by rw [blocks_of_lt (by grind)]; rfl, by rw [blocks_of_lt (by grind)]⟩
  | succ fuel ih =>
    rw [transformLoop, Nat.mod_eq_of_lt (by omega)]
    split
    · rw [blocks_of_le (by grind), drop_drop]
      exact ih _ (by omega) (by omega) (by omega)
    · exact ⟨i, by rw [blocks_of_lt (by grind)], by rw [blocks_of_lt (by grind)]⟩

/-- `MD5Update` takes its input. -/
theorem Absorbed.update (h : Absorbed context data) (hlen : data.length % 64 + input.length < 2 ^ 32) :
    Absorbed (md5Update context input) (data ++ input) := by
  have hcount := counted data.length input.length (by omega)
  rw [← length_append] at hcount
  have hlength := length_tail_absorb data
  have hnew : absorb (data ++ input) = blocks 64 transform ((absorb data).tail ++ input) context.state := by
    rw [h.state]
    exact blocks_append ..
  have hmod := length_tail_absorb (data ++ input)
  rw [hnew] at hmod
  simp only [md5Update, h.count0, h.count1, toNat_idx]
  split
  · rename_i hpart
    have hr : (absorb data).tail.length ≤ 64 := by omega
    have hdrop : ((absorb data).tail ++ input).drop 64 = input.drop (64 - data.length % 64) := by
      rw [drop_append, hlength, drop_of_length_le hr, nil_append]
    have hfirst : (copyTo context.buffer (data.length % 64) (input.take (64 - data.length % 64))).take 64 =
        ((absorb data).tail ++ input).take 64 := by
      have hcopy := take_copyTo (input.take (64 - data.length % 64)) h.room
      rw [length_take, Nat.min_eq_left hpart, Nat.add_sub_cancel' (by omega), h.buffer] at hcopy
      rw [hcopy, take_append, hlength, take_of_length_le hr]
    rw [blocks_of_le (by rw [length_append]; omega), hdrop] at hnew hmod
    obtain ⟨j, hj, hleft⟩ := transformLoop_eq (data.length % 64)
      (transform context.state (((absorb data).tail ++ input).take 64)) hpart (by omega) hlen (Nat.le_add_left ..)
    rw [hfirst, hj]
    refine ⟨hcount.1, hcount.2, congrArg Consumed.state hnew.symm, ?_⟩
    rw [← hmod, hnew, ← hleft]
    simpa using take_copyTo (input.drop j) (Nat.zero_le _)
  · rw [blocks_of_lt (by rw [length_append]; omega)] at hnew hmod
    refine ⟨hcount.1, hcount.2, congrArg Consumed.state hnew.symm, ?_⟩
    rw [← hmod, hnew, length_append, hlength, take_copyTo _ h.room, h.buffer]

theorem take_padding {idx : Nat} (h : idx < 64) :
    padding.take (padLen idx) = 0x80 :: List.replicate ((119 - idx) % 64) 0 := by
  have hlen : padLen idx = (119 - idx) % 64 + 1 := by
    unfold padLen
    split <;> omega
  rw [hlen, padding, take_succ_cons, take_replicate, Nat.min_eq_left (by omega)]

/-- `MD5Final` brings the message to whole blocks as MD5 does. -/
theorem Absorbed.final (h : Absorbed context data) : md5Final context = encode (md5 data) := by
  have hpadded : Absorbed (md5Update (md5Update context (padding.take (padLen (data.length % 64))))
      (encode [context.count0, context.count1])) (padded data) := by
    rw [take_padding (Nat.mod_lt _ (by decide)), h.count0, h.count1]
    refine (h.update ?_).update ?_
    · rw [length_cons, length_replicate]
      omega
    · change _ + 8 < _
      omega
  simp only [md5Final, md5, h.count0, toNat_idx, ← hpadded.state]

theorem absorbed_key (key : Bytes) :
    Absorbed (md5Update {} (key.take (key.length % 2 ^ 32))) (key.take (key.length % 2 ^ 32)) := by
  have hempty : Absorbed {} [] := ⟨rfl, rfl, rfl, rfl⟩
  refine hempty.update ?_
  rw [length_take]
  change 0 + _ < _
  omega

/-- The digest of every key is its MD5. -/
theorem md5Signature_eq (key : Bytes) : md5Signature key = encode (md5 (key.take (key.length % 2 ^ 32))) :=
  (absorbed_key key).final

example : md5Signature [97, 98, 99] = [0x90, 0x01, 0x50, 0x98, 0x3c, 0xd2, 0x4f, 0xb0, 0xd6, 0x96, 0x3f, 0x7d, 0x28, 0xe1,
    0x7f, 0x72] := by decide +kernel

/-- The bytes of a word, put together again. -/
theorem word_of_bytes (w : UInt32) : (w >>> 24).toUInt8.toUInt32 <<< 24 ||| (w >>> 16).toUInt8.toUInt32 <<< 16 |||
    (w >>> 8).toUInt8.toUInt32 <<< 8 ||| w.toUInt8.toUInt32 = w := by
  apply UInt32.eq_of_toBitVec_eq
  ext i hi
  simp [-UInt32.toUInt32_toUInt8]
  grind

/-- The four points that a digest gives on the continuum are the words of the MD5 of the key, and the MD5 hash
of a key is the first of them. -/
theorem ketamaServerHash_md5 (H : Hashes) (key : Bytes) : (∀ alignment,
      ketamaServerHash (withMd5 H) key alignment = (md5 (key.take (key.length % 2 ^ 32))).get alignment) ∧
    callFunction (withMd5 H) .md5 key = (md5 (key.take (key.length % 2 ^ 32))).get (0 : Fin 4) := by
  have hdigest : md5Signature key = _ := (absorbed_key key).final
  simp only [ketamaServerHash, callFunction, withMd5, hashkitMd5, hdigest]
  refine ⟨fun alignment => ?_, word_of_bytes _⟩
  obtain ⟨_ | _ | _ | _ | n, hn⟩ := alignment
  iterate 4 exact word_of_bytes _
  omega

end LM.Hashkit.Md5
