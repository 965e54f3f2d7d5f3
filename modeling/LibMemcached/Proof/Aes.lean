import LibMemcached.Impl.Hashkit
import Mathlib.Data.List.TakeDrop

/-!
# The encryption of values

`aes_encrypt` fills the last block up with the number of bytes that were missing, at least one, so that
`aes_decrypt` finds at the end of the last block how much of it belongs to the value
(`AesKey.decrypt_encrypt`). The string that is allocated has the length of the value, rounded up to
1024 bytes: that is room for one more block, unless the value has no bytes (`stringRoom_lt_iff`).
-/

namespace LM.Hashkit

open List

variable {f g : Bytes → Bytes} {key : AesKey} {source : Bytes}

/-! ## Blocks -/

theorem length_mapBlocks (hf : ∀ block, (f block).length = aesBlockSize) (n : Nat) (source : Bytes) :
    (mapBlocks f n source).length = n * aesBlockSize := by
  induction n generalizing source with
  | zero => simp [mapBlocks]
  | succ n ih => rw [mapBlocks, length_append, hf, ih, Nat.succ_mul, Nat.add_comm]

theorem mapBlocks_last (f : Bytes → Bytes) (n : Nat) (source : Bytes) : mapBlocks f (n + 1) source =
      mapBlocks f n source ++ f ((source.drop (aesBlockSize * n)).take aesBlockSize) := by
  induction n generalizing source with
  | zero => simp [mapBlocks]
  | succ n ih =>
    rw [mapBlocks, ih, drop_drop, mapBlocks, append_assoc, Nat.mul_succ, Nat.add_comm]

theorem mapBlocks_mapBlocks (hf : ∀ block, (f block).length = aesBlockSize)
    (hg : ∀ block, block.length = aesBlockSize → g (f block) = block) {n : Nat}
    (hn : aesBlockSize * n ≤ source.length) (rest : Bytes) :
    mapBlocks g n (mapBlocks f n source ++ rest) = source.take (aesBlockSize * n) := by
  induction n generalizing source with
  | zero => simp [mapBlocks]
  | succ n ih =>
    rw [Nat.mul_succ] at hn
    have hblock : (source.take aesBlockSize).length = aesBlockSize := by
      rw [length_take]
      omega
    have hrest : aesBlockSize * n ≤ (source.drop aesBlockSize).length := by
      rw [length_drop]
      omega
    rw [mapBlocks, mapBlocks, append_assoc, take_left' (hf _), drop_left' (hf _), ih hrest,
      hg _ hblock, Nat.mul_succ, Nat.add_comm, take_add]

/-! ## The value -/

theorem stringRoom_lt_iff (n : Nat) : stringRoom n < aesBlockSize * (n / aesBlockSize + 1) ↔ n = 0 := by
  unfold stringRoom aesBlockSize stringBlockSize
  split <;> omega

/-- The last block: what is left of the value, and the padding. -/
def lastBlock (source : Bytes) : Bytes :=
  let padLen := aesBlockSize - source.length % aesBlockSize
  source.drop (aesBlockSize * (source.length / aesBlockSize)) ++ List.replicate padLen (UInt8.ofNat padLen)

theorem length_lastBlock (source : Bytes) : (lastBlock source).length = aesBlockSize := by
  have hlt : source.length % aesBlockSize < aesBlockSize := Nat.mod_lt _ (by decide)
  have hdiv := Nat.div_add_mod source.length aesBlockSize
  simp only [lastBlock, length_append, length_drop, length_replicate]
  omega

/-- Its last byte is the number of bytes that were missing, and the others are of the value. -/
theorem lastBlock_unpad (source : Bytes) :
    ((lastBlock source).getD (aesBlockSize - 1) 0).toNat ≤ aesBlockSize ∧
      (lastBlock source).take (aesBlockSize - ((lastBlock source).getD (aesBlockSize - 1) 0).toNat) =
        source.drop (aesBlockSize * (source.length / aesBlockSize)) := by
  have hlt : source.length % aesBlockSize < aesBlockSize := Nat.mod_lt _ (by decide)
  have hdiv := Nat.div_add_mod source.length aesBlockSize
  have hsize : aesBlockSize = 16 := rfl
  have hlength : (source.drop (aesBlockSize * (source.length / aesBlockSize))).length =
      source.length % aesBlockSize := by
    rw [length_drop]
    omega
  have hlast : (lastBlock source).getD (aesBlockSize - 1) 0 =
      UInt8.ofNat (aesBlockSize - source.length % aesBlockSize) := by
    rw [lastBlock, getD_eq_getElem?_getD, List.getElem?_append_right (by omega),
      List.getElem?_replicate_of_lt (by omega), Option.getD_some]
  have hpad : (UInt8.ofNat (aesBlockSize - source.length % aesBlockSize)).toNat =
      aesBlockSize - source.length % aesBlockSize := by
    rw [UInt8.toNat_ofNat']
    omega
  rw [hlast, hpad]
  refine ⟨Nat.sub_le _ _, ?_⟩
  rw [lastBlock, take_left' (by omega)]

namespace AesKey

/-- What one key turns into a cipher text it turns back. -/
def Inverts (key : AesKey) : Prop :=
  ∀ block : Bytes, block.length = aesBlockSize → key.decode (key.encode block) = block

theorem encrypt_eq (hne : source ≠ []) : key.encrypt source =
      some (mapBlocks key.encode (source.length / aesBlockSize) source ++ key.encode (lastBlock source)) := by
  have hroom : ¬stringRoom source.length < aesBlockSize * (source.length / aesBlockSize + 1) := by
    rw [stringRoom_lt_iff, length_eq_zero_iff]
    exact hne
  have hmod : source.length - aesBlockSize * (source.length / aesBlockSize) = source.length % aesBlockSize :=
    (Nat.mod_eq_sub_mul_div ..).symm
  simp only [encrypt, if_neg hroom, hmod, lastBlock]

/-- Without bytes to encrypt, the padding is written where no memory was allocated. -/
theorem encrypt_nil (key : AesKey) : key.encrypt [] = none := rfl

theorem decrypt_encrypt (hkey : key.Inverts) (source : Bytes) :
    key.decrypt (mapBlocks key.encode (source.length / aesBlockSize) source ++ key.encode (lastBlock source)) =
      some source := by
  have hwhole := length_mapBlocks key.length_encode (source.length / aesBlockSize) source
  have hlength : (mapBlocks key.encode (source.length / aesBlockSize) source ++
      key.encode (lastBlock source)).length = (source.length / aesBlockSize + 1) * aesBlockSize := by
    rw [length_append, hwhole, key.length_encode, Nat.succ_mul]
  have hblocks : (source.length / aesBlockSize + 1) * aesBlockSize / aesBlockSize =
      source.length / aesBlockSize + 1 := Nat.mul_div_cancel _ (by decide)
  obtain ⟨hpad, htake⟩ := lastBlock_unpad source
  simp only [decrypt, hlength, hblocks, Nat.add_sub_cancel]
  rw [if_neg (by simp), drop_left' (by rw [hwhole, Nat.mul_comm]), hkey _ (length_lastBlock source),
    if_neg (Nat.not_lt.mpr hpad), htake, mapBlocks_mapBlocks key.length_encode hkey (Nat.mul_div_le ..),
    take_append_drop]

/-- The value is encrypted within the memory allocated for it, to whole blocks of which the last one is
padding or ends with it, and what they are turned back into is the value. -/
def Seals (key : AesKey) (source : Bytes) : Prop :=
  ∃ text, key.encrypt source = some text ∧
    text.length = aesBlockSize * (source.length / aesBlockSize + 1) ∧ key.decrypt text = some source

/-- The last byte of what all blocks are turned back into. -/
def lastByte (key : AesKey) (input : Bytes) : Nat :=
  ((mapBlocks key.decode (input.length / aesBlockSize) input).getLastD 0).toNat

/-- Whatever is not blocks, or does not end with a number of missing bytes, is refused. -/
theorem decrypt_refuses (key : AesKey) {input : Bytes}
    (h : ¬(0 < input.length ∧ aesBlockSize ∣ input.length) ∨ aesBlockSize < key.lastByte input) :
    key.decrypt input = none := by
  by_cases hblocks : input.length ≠ input.length / aesBlockSize * aesBlockSize ∨
      input.length / aesBlockSize = 0
  · simp only [decrypt, if_pos hblocks]
  obtain ⟨hwhole, hsome⟩ : input.length = input.length / aesBlockSize * aesBlockSize ∧
      input.length / aesBlockSize ≠ 0 := by
    simpa [not_or] using hblocks
  have hpos : 0 < input.length := Nat.pos_of_ne_zero fun h0 => hsome (by rw [h0]; rfl)
  have hlast := h.resolve_left fun hnot => hnot ⟨hpos, _, hwhole.trans (Nat.mul_comm ..)⟩
  obtain ⟨n, hn⟩ := Nat.exists_eq_succ_of_ne_zero hsome
  have hrest : (input.drop (aesBlockSize * n)).length = aesBlockSize := by
    rw [length_drop, hwhole, hn, Nat.succ_mul, Nat.mul_comm, Nat.add_sub_cancel_left]
  have hbyte : (mapBlocks key.decode (n + 1) input).getLastD 0 =
      (key.decode (input.drop (aesBlockSize * n))).getD (aesBlockSize - 1) 0 := by
    have hlength := key.length_decode (input.drop (aesBlockSize * n))
    have hlt : aesBlockSize - 1 < (key.decode (input.drop (aesBlockSize * n))).length := by
      rw [hlength]
      decide
    rw [mapBlocks_last, take_of_length_le (Nat.le_of_eq hrest), getLastD_eq_getLast?,
      List.getLast?_append, List.getLast?_eq_getElem?, hlength, List.getElem?_eq_getElem hlt, Option.some_or,
      getD_eq_getElem?_getD, List.getElem?_eq_getElem hlt]
  rw [lastByte, hn, hbyte] at hlast
  simp only [decrypt, if_neg hblocks]
  rw [hn, Nat.succ_sub_one, if_pos hlast]

end AesKey

theorem length_foldKey (key : Bytes) (ptr : Nat) {rkey : Bytes} :
    (foldKey key ptr rkey).length = rkey.length := by
  induction key generalizing ptr rkey with
  | nil => rfl
  | cons b key ih => rw [foldKey, ih, length_set]

/-- `rijndaelDecrypt` inverts `rijndaelEncrypt`, with keys that are expanded from the same 256 bits. -/
def Rijndael.Inverts (cipher : Rijndael) : Prop :=
  ∀ rkey block : Bytes, rkey.length = 32 → block.length = aesBlockSize →
    cipher.decrypt rkey (cipher.encrypt rkey block) = block

theorem Rijndael.Inverts.created {cipher : Rijndael} (h : cipher.Inverts) (key : Bytes) :
    (aesCreateKey cipher key).Inverts := fun block =>
  h _ block ((length_foldKey key 0).trans length_replicate)

/-- With a key of any length, every value but the empty one is encrypted within its memory and comes back, and
what is not a cipher text is refused. -/
theorem aes_inverts_iff (cipher : Rijndael) (hcipher : cipher.Inverts) (key source : Bytes) :
    ((aesCreateKey cipher key).Seals source ∧ ∀ input : Bytes,
        ¬(0 < input.length ∧ aesBlockSize ∣ input.length) ∨
            aesBlockSize < (aesCreateKey cipher key).lastByte input →
          (aesCreateKey cipher key).decrypt input = none) ↔ source ≠ [] := by
  constructor
  · rintro ⟨⟨text, htext, -⟩, -⟩ rfl
    rw [AesKey.encrypt_nil] at htext
    cases htext
  · intro hne
    have hkey := hcipher.created key
    refine ⟨⟨_, AesKey.encrypt_eq hne, ?_, AesKey.decrypt_encrypt hkey source⟩, fun _ =>
      AesKey.decrypt_refuses _⟩
    rw [length_append, length_mapBlocks (AesKey.length_encode _), AesKey.length_encode, Nat.mul_succ,
      Nat.mul_comm]

/-- A cipher that leaves every block as it is. -/
def copying : Rijndael where
  encrypt _ block := (block ++ List.replicate aesBlockSize 0).take aesBlockSize
  decrypt _ block := (block ++ List.replicate aesBlockSize 0).take aesBlockSize
  length_encrypt _ block := by simp
  length_decrypt _ block := by simp

theorem copying_inverts : copying.Inverts := by
  intro rkey block _ hblock
  simp only [copying, take_left' hblock]

theorem aes_inverts_iff_copying :
    (aesCreateKey copying [1, 2, 3]).Seals [5, 6] ∧ (aesCreateKey copying [1, 2, 3]).decrypt [5, 6] = none := by
  obtain ⟨hseals, hrefuses⟩ := (aes_inverts_iff copying copying_inverts [1, 2, 3] [5, 6]).mpr (by simp)
  exact ⟨hseals, hrefuses [5, 6] (.inl (by decide))⟩

/-- No memory is allocated for a value without bytes, and one block is written to it. -/
theorem aes_overruns_empty : copying.Inverts ∧ ¬(aesCreateKey copying [1, 2, 3]).Seals [] := by
  refine ⟨copying_inverts, ?_⟩
  rintro ⟨text, htext, -⟩
  cases htext

end LM.Hashkit
