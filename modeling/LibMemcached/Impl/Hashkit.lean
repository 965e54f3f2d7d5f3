import Mathlib.Algebra.Group.Int.Defs
import Mathlib.Algebra.Group.Nat.Defs

/-!
# libhashkit

The hash functions a client can select and the selection itself
(`libhashkit/function.cc`, `digest.cc`, `hashkit.cc`, `one_at_a_time.cc`,
`fnv_32.cc`, `fnv_64.cc`), and the encryption of values (`encrypt.cc`, `string.cc`,
and `aes.cc` with the bundled block cipher).

Keys are byte strings. `char` is signed, as on x86-64, so a byte is sign
extended when the source widens it. The algorithms that are not embedded here
are members of `Hashes`, as is what the build was configured with: everything
below holds for any choice of them.
-/

namespace LM

/-- A byte string. -/
abbrev Bytes := List UInt8

namespace Hashkit

/-- `hashkit_hash_algorithm_t`. -/
inductive Algorithm
  | default | md5 | crc | fnv1_64 | fnv1a_64 | fnv1_32 | fnv1a_32 | hsieh | murmur | jenkins
  | murmur3 | custom | max
  deriving DecidableEq, Repr

/-- The enumerator with a given number, if there is one. -/
def Algorithm.ofData? : Nat → Option Algorithm
  | 0 => some .default
  | 1 => some .md5
  | 2 => some .crc
  | 3 => some .fnv1_64
  | 4 => some .fnv1a_64
  | 5 => some .fnv1_32
  | 6 => some .fnv1a_32
  | 7 => some .hsieh
  | 8 => some .murmur
  | 9 => some .jenkins
  | 10 => some .murmur3
  | 11 => some .custom
  | 12 => some .max
  | _ => none

/-- The number of an enumerator. -/
def Algorithm.toData : Algorithm → UInt64
  | .default => 0
  | .md5 => 1
  | .crc => 2
  | .fnv1_64 => 3
  | .fnv1a_64 => 4
  | .fnv1_32 => 5
  | .fnv1a_32 => 6
  | .hsieh => 7
  | .murmur => 8
  | .jenkins => 9
  | .murmur3 => 10
  | .custom => 11
  | .max => 12

/-- `hashkit_return_t`. -/
inductive Return
  | success | failure | memoryAllocationFailure | invalidHash | invalidArgument | maximumReturn
  deriving DecidableEq, Repr

/-- The values a `hashkit_hash_fn` pointer takes. -/
inductive Function
  | oneAtATime | md5 | crc32 | fnv1_64 | fnv1a_64 | fnv1_32 | fnv1a_32 | hsieh | murmur | murmur3
  | jenkins | custom
  deriving DecidableEq, Repr

/-- The build: the algorithms that are not embedded, the MD5 digest (its 16
bytes), and which of the optional algorithms were compiled in. -/
structure Hashes where
  md5 : Bytes → UInt32
  crc32 : Bytes → UInt32
  hsieh : Bytes → UInt32
  murmur : Bytes → UInt32
  murmur3 : Bytes → UInt32
  jenkins : Bytes → UInt32
  custom : Bytes → UInt32
  md5Signature : Bytes → Fin 16 → UInt8
  haveFnv64 : Bool
  haveHsieh : Bool
  haveMurmur : Bool

/-- `(uint32_t) c` for a `char c`. -/
def charToUInt32 (c : UInt8) : UInt32 :=
  if c < 128 then c.toUInt32 else c.toUInt32 ||| 0xffffff00

/-- `(uint64_t) c` for a `char c`. -/
def charToUInt64 (c : UInt8) : UInt64 :=
  if c < 128 then c.toUInt64 else c.toUInt64 ||| 0xffffffffffffff00

/-- `hashkit_one_at_a_time`. -/
def oneAtATime (key : Bytes) : UInt32 :=
  let value := key.foldl
    (fun value c =>
      let value := value + charToUInt32 c
      let value := value + value <<< 10
      value ^^^ value >>> 6) 0
  let value := value + value <<< 3
  let value := value ^^^ value >>> 11
  value + value <<< 15

def fnv32Init : UInt32 := 2166136261
def fnv32Prime : UInt32 := 16777619
def fnv64Init : UInt64 := 0xcbf29ce484222325
def fnv64Prime : UInt64 := 0x100000001b3

/-- `hashkit_fnv1_32`. -/
def fnv1_32 (key : Bytes) : UInt32 :=
  key.foldl (fun hash c => hash * fnv32Prime ^^^ charToUInt32 c) fnv32Init

/-- `hashkit_fnv1a_32`. -/
def fnv1a_32 (key : Bytes) : UInt32 :=
  key.foldl (fun hash c => (hash ^^^ charToUInt32 c) * fnv32Prime) fnv32Init

/-- `hashkit_fnv1_64`, in a build that has it. -/
def fnv1_64 (key : Bytes) : UInt32 :=
  (key.foldl (fun hash c => hash * fnv64Prime ^^^ charToUInt64 c) fnv64Init).toUInt32

/-- `hashkit_fnv1a_64`, in a build that has it. Unlike `fnv1_64` it keeps only
the low half of its state from the start. -/
def fnv1a_64 (key : Bytes) : UInt32 :=
  key.foldl (fun hash c => (hash ^^^ charToUInt32 c) * fnv64Prime.toUInt32) fnv64Init.toUInt32

/-- A call through a `hashkit_hash_fn` pointer. -/
def callFunction (H : Hashes) : Function → Bytes → UInt32
  | .oneAtATime => oneAtATime
  | .md5 => H.md5
  | .crc32 => H.crc32
  | .fnv1_64 => fun key => if H.haveFnv64 then fnv1_64 key else 0
  | .fnv1a_64 => fun key => if H.haveFnv64 then fnv1a_64 key else 0
  | .fnv1_32 => fnv1_32
  | .fnv1a_32 => fnv1a_32
  | .hsieh => H.hsieh
  | .murmur => H.murmur
  | .murmur3 => H.murmur3
  | .jenkins => H.jenkins
  | .custom => H.custom

/-- `libhashkit_has_algorithm`. -/
def libhashkitHasAlgorithm (H : Hashes) : Algorithm → Bool
  | .fnv1_64 | .fnv1a_64 => H.haveFnv64
  | .hsieh => H.haveHsieh
  | .murmur3 | .murmur => H.haveMurmur
  | .max => false
  | _ => true

/-- `_set_function`: the pointer after the call, and the return value. A number
that is no enumerator passes the `switch` and leaves the pointer as it is. -/
def setFunction (H : Hashes) (self : Function) : Option Algorithm → Return × Function
  | some .md5 => (.success, .md5)
  | some .crc => (.success, .crc32)
  | some .fnv1_64 =>
    if libhashkitHasAlgorithm H .fnv1_64 then (.success, .fnv1_64) else (.invalidArgument, self)
  | some .fnv1a_64 =>
    if libhashkitHasAlgorithm H .fnv1_64 then (.success, .fnv1a_64) else (.invalidArgument, self)
  | some .fnv1_32 => (.success, .fnv1_32)
  | some .fnv1a_32 => (.success, .fnv1a_32)
  | some .hsieh =>
    if libhashkitHasAlgorithm H .hsieh then (.success, .hsieh) else (.invalidArgument, self)
  | some .murmur3 =>
    if libhashkitHasAlgorithm H .murmur3 then (.success, .murmur3) else (.invalidArgument, self)
  | some .murmur =>
    if libhashkitHasAlgorithm H .murmur then (.success, .murmur) else (.invalidArgument, self)
  | some .jenkins => (.success, .jenkins)
  | some .custom => (.invalidArgument, self)
  | some .default => (.success, .oneAtATime)
  | some .max => (.invalidHash, .oneAtATime)
  | none => (.success, self)

/-- `get_function_type`. -/
def getFunctionType : Function → Algorithm
  | .oneAtATime => .default
  | .md5 => .md5
  | .crc32 => .crc
  | .fnv1_64 => .fnv1_64
  | .fnv1a_64 => .fnv1a_64
  | .fnv1_32 => .fnv1_32
  | .fnv1a_32 => .fnv1a_32
  | .hsieh => .hsieh
  | .murmur => .murmur
  | .murmur3 => .murmur3
  | .jenkins => .jenkins
  | .custom => .custom

/-! ## Encryption -/

/-- `AES_BLOCK_SIZE`. -/
def aesBlockSize : Nat := 16

/-- `aes_key_t`: what `rijndaelEncrypt` and `rijndaelDecrypt` make of a block with the two expanded
keys in it. -/
structure AesKey where
  encode : Bytes → Bytes
  decode : Bytes → Bytes
  length_encode (block : Bytes) : (encode block).length = aesBlockSize
  length_decode (block : Bytes) : (decode block).length = aesBlockSize

/-- `HASHKIT_BLOCK_SIZE`. -/
def stringBlockSize : Nat := 1024

/-- The bytes `hashkit_string_create` allocates. For a string of no bytes it is none. -/
def stringRoom (initialSize : Nat) : Nat :=
  if initialSize = 0 then 0 else (initialSize / stringBlockSize + 1) * stringBlockSize

/-- The loops over the first `n` blocks of `source`. -/
def mapBlocks (f : Bytes → Bytes) : Nat → Bytes → Bytes
  | 0, _ => []
  | n + 1, source => f (source.take aesBlockSize) ++ mapBlocks f n (source.drop aesBlockSize)

namespace AesKey

/-- `aes_encrypt`: whole blocks, and a last one that is filled up with the number of bytes that were
missing. There is no behaviour to speak of if it writes more than was allocated. -/
def encrypt (key : AesKey) (source : Bytes) : Option Bytes :=
  let numBlocks := source.length / aesBlockSize
  if stringRoom source.length < aesBlockSize * (numBlocks + 1) then none
  else
    let padLen := aesBlockSize - (source.length - aesBlockSize * numBlocks)
    some (mapBlocks key.encode numBlocks source ++
      key.encode (source.drop (aesBlockSize * numBlocks) ++
        List.replicate padLen (UInt8.ofNat padLen)))

/-- `aes_decrypt`: `none` if the source is refused. Of the padding only the last byte is looked at. -/
def decrypt (key : AesKey) (source : Bytes) : Option Bytes :=
  let numBlocks := source.length / aesBlockSize
  if source.length ≠ numBlocks * aesBlockSize ∨ numBlocks = 0 then none
  else
    let block := key.decode (source.drop (aesBlockSize * (numBlocks - 1)))
    let padLen := (block.getD (aesBlockSize - 1) 0).toNat
    if aesBlockSize < padLen then none
    else some (mapBlocks key.decode (numBlocks - 1) source ++ block.take (aesBlockSize - padLen))

end AesKey

/-- The block cipher: what `rijndaelEncrypt` and `rijndaelDecrypt` make of a block with the keys that are
expanded from the bytes of an `rkey`. -/
structure Rijndael where
  encrypt : Bytes → Bytes → Bytes
  decrypt : Bytes → Bytes → Bytes
  length_encrypt (rkey block : Bytes) : (encrypt rkey block).length = aesBlockSize
  length_decrypt (rkey block : Bytes) : (decrypt rkey block).length = aesBlockSize

/-- The loop of `aes_create_key` over a key of any length. Behind its last byte, `ptr` begins again at
the first one. -/
def foldKey : Bytes → Nat → Bytes → Bytes
  | [], _, rkey => rkey
  | b :: key, ptr, rkey =>
    let ptr := if ptr = rkey.length then 0 else ptr
    foldKey key (ptr + 1) (rkey.set ptr (rkey.getD ptr 0 ^^^ b))

/-- `aes_create_key`, with an `rkey` of 256 bits. -/
def aesCreateKey (cipher : Rijndael) (key : Bytes) : AesKey :=
  let rkey := foldKey key 0 (List.replicate 32 0)
  ⟨cipher.encrypt rkey, cipher.decrypt rkey, cipher.length_encrypt rkey, cipher.length_decrypt rkey⟩

end Hashkit

/-- `hashkit_st`. -/
structure Hashkit where
  baseHash : Hashkit.Function := .oneAtATime
  distributionHash : Hashkit.Function := .oneAtATime
  /-- `_key`: the values are encrypted if there is one. -/
  key : Option Hashkit.AesKey := none

/-- `hashkit_digest`. -/
def Hashkit.digest (H : Hashkit.Hashes) (self : Hashkit) (key : Bytes) : UInt32 :=
  callFunction H self.baseHash key

end LM
