import LibMemcached.Framework.Words
import LibMemcached.Impl.Hashkit
import LibMemcached.Spec.Hashes
import Mathlib.Data.List.Basic

/-!
# Keys as octets

`hashkit_one_at_a_time` and the FNV functions widen each `char` of the key as it stands. A `char` is signed, so a
byte from 128 on comes out with the upper 24 bits set, and is not the number from 0 to 255 that the published
algorithms take. Up to the first such byte the functions compute the published hashes, and with it they do not
(`hashes_as_published_iff`); `fnv1a_64` loses nothing by keeping only the low half of its state.
-/

namespace LM.Hashkit

open List

variable {w : Nat} {g : BitVec 32 → UInt8 → BitVec 32} (key : Bytes) (c : UInt8)

/-! ## Bytes as they are widened -/

theorem charToUInt32_of_lt {c : UInt8} (h : c < 128) : charToUInt32 c = c.toUInt32 := if_pos h

/-- A byte is widened to its number exactly if its sign bit is clear. -/
theorem charToUInt32_eq_iff : charToUInt32 c = c.toUInt32 ↔ c < 128 := by
  refine ⟨fun h => ?_, charToUInt32_of_lt⟩
  by_contra hc
  rw [charToUInt32, if_neg hc] at h
  -- bit 31 is set on the left only
  have hbit := congrArg (fun x => x.toBitVec.getLsbD 31) h
  simp at hbit

theorem charToUInt32_injective : Function.Injective charToUInt32 := by
  have hlow (c : UInt8) : (charToUInt32 c).toUInt8 = c := by
    unfold charToUInt32
    split
    · exact UInt8.toUInt8_toUInt32 c
    · rw [UInt32.toUInt8_or, UInt8.toUInt8_toUInt32]
      exact UInt8.or_zero
  exact Function.LeftInverse.injective hlow

theorem toUInt32_charToUInt64 : (charToUInt64 c).toUInt32 = charToUInt32 c := by
  unfold charToUInt64 charToUInt32
  split
  · simp
  · rw [UInt64.toUInt32_or, UInt8.toUInt32_toUInt64]
    rfl

/-! ## The hashes as folds over words of 32 bits -/

/-- The number of a byte as a word. -/
def octet (c : UInt8) : BitVec 32 := c.toUInt32.toBitVec

/-- A `char` as it is widened, as a word. -/
def char (c : UInt8) : BitVec 32 := (charToUInt32 c).toBitVec

theorem char_eq_iff : char c = octet c ↔ c < 128 := by
  rw [char, octet, UInt32.toBitVec_inj]
  exact charToUInt32_eq_iff c

theorem ofNat_octet : BitVec.ofNat 32 c.toNat = octet c := by
  apply BitVec.eq_of_toNat_eq
  simp [octet]

def fnv1Word (prime hash word : BitVec 32) : BitVec 32 := hash * prime ^^^ word

def fnv1aWord (prime hash word : BitVec 32) : BitVec 32 := (hash ^^^ word) * prime

def oneAtATimeWord (hash word : BitVec 32) : BitVec 32 :=
  (hash + word + (hash + word) <<< 10) ^^^ (hash + word + (hash + word) <<< 10) >>> 6

def oneAtATimeFinish (hash : BitVec 32) : BitVec 32 :=
  (hash + hash <<< 3 ^^^ (hash + hash <<< 3) >>> 11) +
    (hash + hash <<< 3 ^^^ (hash + hash <<< 3) >>> 11) <<< 15

theorem foldl_toBitVec {f : UInt32 → UInt8 → UInt32} (h : ∀ s c, (f s c).toBitVec = g s.toBitVec c)
    (key : Bytes) (init : UInt32) : (key.foldl f init).toBitVec = key.foldl g init.toBitVec :=
  (foldl_hom UInt32.toBitVec fun s c => (h s c).symm).symm

/-- The published hash of a wider word, cut to 32 bits, is computed by the 32 bits alone. -/
theorem foldl_setWidth {f : BitVec w → Nat → BitVec w}
    (h : ∀ s (c : UInt8), (f s c.toNat).setWidth 32 = g (s.setWidth 32) c) (key : Bytes) (init : BitVec w) :
    ((key.map UInt8.toNat).foldl f init).setWidth 32 = key.foldl g (init.setWidth 32) := by
  rw [foldl_map]
  exact (foldl_hom (BitVec.setWidth 32) fun s c => (h s c).symm).symm

theorem oneAtATime_toBitVec : (oneAtATime key).toBitVec =
    oneAtATimeFinish (key.foldl (fun hash c => oneAtATimeWord hash (char c)) 0) := by
  have hfold := foldl_toBitVec (f := fun value c =>
    let value := value + charToUInt32 c
    let value := value + value <<< 10
    value ^^^ value >>> 6) (g := fun hash c => oneAtATimeWord hash (char c)) (fun _ _ => rfl) key 0
  exact congrArg oneAtATimeFinish hfold

theorem published_oneAtATime : Published.oneAtATime (key.map UInt8.toNat) =
    oneAtATimeFinish (key.foldl (fun hash c => oneAtATimeWord hash (octet c)) 0) := by
  have hfold := foldl_setWidth (f := Published.oneAtATimeStep)
    (g := fun hash c => oneAtATimeWord hash (octet c)) (fun s c => ?_) key 0
  · simp only [BitVec.setWidth_eq] at hfold
    exact congrArg oneAtATimeFinish hfold
  · rw [← ofNat_octet]
    simp only [BitVec.setWidth_eq]
    rfl

theorem published_fnv1 (hw : 32 ≤ w) {prime offset : BitVec w} (key : Bytes) :
    (Published.fnv1 prime offset (key.map UInt8.toNat)).setWidth 32 =
      key.foldl (fun hash c => fnv1Word (prime.setWidth 32) hash (octet c)) (offset.setWidth 32) := by
  refine foldl_setWidth (fun s c => ?_) key offset
  rw [BitVec.setWidth_xor, BitVec.setWidth_mul _ _ hw, BitVec.setWidth_ofNat_of_le hw, ofNat_octet]
  rfl

theorem published_fnv1a (hw : 32 ≤ w) {prime offset : BitVec w} (key : Bytes) :
    (Published.fnv1a prime offset (key.map UInt8.toNat)).setWidth 32 =
      key.foldl (fun hash c => fnv1aWord (prime.setWidth 32) hash (octet c)) (offset.setWidth 32) := by
  refine foldl_setWidth (fun s c => ?_) key offset
  rw [BitVec.setWidth_mul _ _ hw, BitVec.setWidth_xor, BitVec.setWidth_ofNat_of_le hw, ofNat_octet]
  rfl

theorem fnv1_64_toBitVec : (fnv1_64 key).toBitVec =
    key.foldl (fun hash c => fnv1Word (Published.fnv64Prime.setWidth 32) hash (char c))
      (Published.fnv64Offset.setWidth 32) := by
  have hstep (s : UInt64) (c : UInt8) : (s * fnv64Prime ^^^ charToUInt64 c).toUInt32.toBitVec =
      fnv1Word (Published.fnv64Prime.setWidth 32) s.toUInt32.toBitVec (char c) := by
    rw [UInt64.toUInt32_xor, UInt64.toUInt32_mul, toUInt32_charToUInt64]
    rfl
  exact (foldl_hom (fun s : UInt64 => s.toUInt32.toBitVec) fun s c => (hstep s c).symm).symm

theorem fnv1a_64_toBitVec : (fnv1a_64 key).toBitVec =
    key.foldl (fun hash c => fnv1aWord (Published.fnv64Prime.setWidth 32) hash (char c))
      (Published.fnv64Offset.setWidth 32) :=
  foldl_toBitVec (fun _ _ => rfl) key fnv64Init.toUInt32

/-! ## The published hashes -/

/-- All five functions compute the published hash of the key's octets. -/
structure AsPublished (key : Bytes) : Prop where
  oneAtATime : (oneAtATime key).toBitVec = Published.oneAtATime (key.map UInt8.toNat)
  fnv1_32 : (fnv1_32 key).toBitVec =
    Published.fnv1 Published.fnv32Prime Published.fnv32Offset (key.map UInt8.toNat)
  fnv1a_32 : (fnv1a_32 key).toBitVec =
    Published.fnv1a Published.fnv32Prime Published.fnv32Offset (key.map UInt8.toNat)
  fnv1_64 : (fnv1_64 key).toBitVec =
    (Published.fnv1 Published.fnv64Prime Published.fnv64Offset (key.map UInt8.toNat)).setWidth 32
  fnv1a_64 : (fnv1a_64 key).toBitVec =
    (Published.fnv1a Published.fnv64Prime Published.fnv64Offset (key.map UInt8.toNat)).setWidth 32

/-- A step of a hash loses nothing, neither of the hash nor of the word. -/
structure Lossless (step : BitVec 32 → BitVec 32 → BitVec 32) : Prop where
  word : ∀ hash, Function.Injective (step hash)
  hash : ∀ word, Function.Injective (step · word)

theorem fnv1Word_lossless {prime : BitVec 32} (hprime : Odd prime.toNat) : Lossless (fnv1Word prime) where
  word _ _ _ h := (BitVec.xor_right_inj _).mp h
  hash word _ _ h := Words.mul_injective hprime ((BitVec.xor_left_inj word).mp h)

theorem fnv1aWord_lossless {prime : BitVec 32} (hprime : Odd prime.toNat) : Lossless (fnv1aWord prime) where
  word hash _ _ h := (BitVec.xor_right_inj hash).mp (Words.mul_injective hprime h)
  hash word _ _ h := (BitVec.xor_left_inj word).mp (Words.mul_injective hprime h)

theorem oneAtATimeWord_lossless : Lossless oneAtATimeWord := by
  have hsum {a b : BitVec 32} (h : (a + a <<< 10) ^^^ (a + a <<< 10) >>> 6 = (b + b <<< 10) ^^^ (b + b <<< 10) >>> 6) :
      a = b :=
    Words.add_shiftLeft_injective (by decide) (Words.xor_ushiftRight_injective (by decide) h)
  exact ⟨fun hash _ _ h => (BitVec.add_right_inj hash).mp (hsum h),
    fun word _ _ h => (BitVec.add_left_inj word).mp (hsum h)⟩

theorem oneAtATimeFinish_injective : Function.Injective oneAtATimeFinish := fun _ _ h =>
  Words.add_shiftLeft_injective (by decide) (Words.xor_ushiftRight_injective (by decide)
    (Words.add_shiftLeft_injective (by decide) h))

/-- Two keys that differ in one byte never have the same hash. -/
def Separates (hash : Bytes → UInt32) : Prop :=
  ∀ p q b b', hash (p ++ b :: q) = hash (p ++ b' :: q) ↔ b = b'

section

variable {code published : Bytes → BitVec 32} {step : BitVec 32 → BitVec 32 → BitVec 32}
  {f : BitVec 32 → BitVec 32} {init : BitVec 32}

/-- The hashes of all beginnings of a key agree exactly if its bytes are widened to their numbers. -/
theorem prefixes_iff (hcode : ∀ key, code key = f (key.foldl (fun hash c => step hash (char c)) init))
    (hpublished : ∀ key, published key = f (key.foldl (fun hash c => step hash (octet c)) init))
    (hf : Function.Injective f) (hstep : Lossless step) (key : Bytes) :
    (∀ p, p <+: key → code p = published p) ↔ ∀ c ∈ key, c < 128 := by
  have hbyte (hash : BitVec 32) (c : UInt8) : step hash (char c) = step hash (octet c) ↔ c < 128 :=
    (hstep.word hash).eq_iff.trans (char_eq_iff c)
  simp only [hcode, hpublished]
  constructor
  · intro h c hc
    obtain ⟨a, b, rfl⟩ := append_of_mem hc
    have hbefore := hf (h a (prefix_append _ _))
    have hafter := hf (h (a ++ [c]) ⟨b, by simp⟩)
    simp only [foldl_append, foldl_cons, foldl_nil, hbefore] at hafter
    exact (hbyte _ c).mp hafter
  · intro h p hp
    rw [foldl_ext _ _ _ fun hash c hc => (hbyte hash c).mpr (h c (hp.subset hc))]

theorem separates_of_lossless {hash : Bytes → UInt32}
    (hcode : ∀ key, (hash key).toBitVec = f (key.foldl (fun hash c => step hash (char c)) init))
    (hf : Function.Injective f) (hstep : Lossless step) : Separates hash := by
  intro p q b b'
  -- what comes behind the byte tells any two hashes apart
  have hrest (q : Bytes) : Function.Injective fun hash => q.foldl (fun hash c => step hash (char c)) hash := by
    induction q with
    | nil => exact Function.injective_id
    | cons c q ih => exact ih.comp (hstep.hash (char c))
  refine ⟨fun h => ?_, fun h => by rw [h]⟩
  have hword := congrArg UInt32.toBitVec h
  simp only [hcode, foldl_append, foldl_cons] at hword
  exact charToUInt32_injective (UInt32.toBitVec_inj.mp (hstep.word _ (hrest q (hf hword))))

end

theorem oneAtATime_prefixes_iff : (∀ p, p <+: key →
    (oneAtATime p).toBitVec = Published.oneAtATime (p.map UInt8.toNat)) ↔ ∀ c ∈ key, c < 128 :=
  prefixes_iff oneAtATime_toBitVec published_oneAtATime oneAtATimeFinish_injective oneAtATimeWord_lossless key

theorem fnv1_32_prefixes_iff : (∀ p, p <+: key → (fnv1_32 p).toBitVec =
    Published.fnv1 Published.fnv32Prime Published.fnv32Offset (p.map UInt8.toNat)) ↔ ∀ c ∈ key, c < 128 := by
  refine prefixes_iff (f := id) (fun key => foldl_toBitVec (fun _ _ => rfl) key _) (fun key => ?_)
    Function.injective_id (fnv1Word_lossless (by decide)) key
  exact (BitVec.setWidth_eq _).symm.trans (published_fnv1 (Nat.le_refl 32) key)

theorem fnv1a_32_prefixes_iff : (∀ p, p <+: key → (fnv1a_32 p).toBitVec =
    Published.fnv1a Published.fnv32Prime Published.fnv32Offset (p.map UInt8.toNat)) ↔ ∀ c ∈ key, c < 128 := by
  refine prefixes_iff (f := id) (fun key => foldl_toBitVec (fun _ _ => rfl) key _) (fun key => ?_)
    Function.injective_id (fnv1aWord_lossless (by decide)) key
  exact (BitVec.setWidth_eq _).symm.trans (published_fnv1a (Nat.le_refl 32) key)

theorem fnv1_64_prefixes_iff : (∀ p, p <+: key → (fnv1_64 p).toBitVec =
    (Published.fnv1 Published.fnv64Prime Published.fnv64Offset (p.map UInt8.toNat)).setWidth 32) ↔
      ∀ c ∈ key, c < 128 :=
  prefixes_iff (f := id) fnv1_64_toBitVec (published_fnv1 (by decide)) Function.injective_id
    (fnv1Word_lossless (by decide)) key

theorem fnv1a_64_prefixes_iff : (∀ p, p <+: key → (fnv1a_64 p).toBitVec =
    (Published.fnv1a Published.fnv64Prime Published.fnv64Offset (p.map UInt8.toNat)).setWidth 32) ↔
      ∀ c ∈ key, c < 128 :=
  prefixes_iff (f := id) fnv1a_64_toBitVec (published_fnv1a (by decide)) Function.injective_id
    (fnv1aWord_lossless (by decide)) key

/-- The functions compute the published hashes of every beginning of a key exactly if none of its bytes has the
sign bit. -/
theorem hashes_as_published_iff (key : Bytes) :
    (∀ p, p <+: key → AsPublished p) ↔ ∀ c ∈ key, c < 128 := by
  constructor
  · intro h
    exact (fnv1_32_prefixes_iff key).mp fun p hp => (h p hp).fnv1_32
  · intro h p hp
    exact {
      oneAtATime := (oneAtATime_prefixes_iff key).mpr h p hp
      fnv1_32 := (fnv1_32_prefixes_iff key).mpr h p hp
      fnv1a_32 := (fnv1a_32_prefixes_iff key).mpr h p hp
      fnv1_64 := (fnv1_64_prefixes_iff key).mpr h p hp
      fnv1a_64 := (fnv1a_64_prefixes_iff key).mpr h p hp }

/-- The key of the one byte 233, which is `é` in Latin-1: no function computes the published hash. -/
theorem hashes_latin1 :
    (oneAtATime [0xe9]).toBitVec ≠ Published.oneAtATime [0xe9] ∧
    (fnv1_32 [0xe9]).toBitVec ≠ Published.fnv1 Published.fnv32Prime Published.fnv32Offset [0xe9] ∧
    (fnv1a_32 [0xe9]).toBitVec ≠ Published.fnv1a Published.fnv32Prime Published.fnv32Offset [0xe9] ∧
    (fnv1_64 [0xe9]).toBitVec ≠
      (Published.fnv1 Published.fnv64Prime Published.fnv64Offset [0xe9]).setWidth 32 ∧
    (fnv1a_64 [0xe9]).toBitVec ≠
      (Published.fnv1a Published.fnv64Prime Published.fnv64Offset [0xe9]).setWidth 32 := by
  decide +kernel

/-- Two such bytes may cancel each other out. -/
example : (fnv1_32 [0x9f, 0x80]).toBitVec =
    Published.fnv1 Published.fnv32Prime Published.fnv32Offset [0x9f, 0x80] := by decide +kernel

/-- However a byte is widened, no step of the functions loses it. -/
theorem hashes_separate :
    Separates oneAtATime ∧ Separates fnv1_32 ∧ Separates fnv1a_32 ∧ Separates fnv1_64 ∧ Separates fnv1a_64 :=
  ⟨separates_of_lossless oneAtATime_toBitVec oneAtATimeFinish_injective oneAtATimeWord_lossless,
    separates_of_lossless (f := id) (fun key => foldl_toBitVec (fun _ _ => rfl) key _) Function.injective_id
      (fnv1Word_lossless (by decide : Odd Published.fnv32Prime.toNat)),
    separates_of_lossless (f := id) (fun key => foldl_toBitVec (fun _ _ => rfl) key _) Function.injective_id
      (fnv1aWord_lossless (by decide : Odd Published.fnv32Prime.toNat)),
    separates_of_lossless (f := id) fnv1_64_toBitVec Function.injective_id (fnv1Word_lossless (by decide)),
    separates_of_lossless (f := id) fnv1a_64_toBitVec Function.injective_id (fnv1aWord_lossless (by decide))⟩

end LM.Hashkit
