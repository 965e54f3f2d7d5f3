import LibMemcached.Impl.Jenkins

/-!
# MD5

`libhashkit/md5.cc`. A length is an `unsigned int`. What `MD5Transform` and
`MD5Final` wipe is not read again.
-/

namespace LM.Hashkit.Md5

/-- `state` of `MD5_CTX`. -/
structure State where
  a : UInt32
  b : UInt32
  c : UInt32
  d : UInt32

/-- `MD5_CTX`, as `MD5Init` leaves it. -/
structure Ctx where
  state : State := ⟨0x67452301, 0xefcdab89, 0x98badcfe, 0x10325476⟩
  count0 : UInt32 := 0
  count1 : UInt32 := 0
  /-- The bytes of `buffer` written so far. -/
  buffer : Bytes := []

/-- `data` copied to `buffer + offset`. -/
def copyTo (buffer : Bytes) (offset : Nat) (data : Bytes) : Bytes :=
  buffer.take offset ++ data ++ buffer.drop (offset + data.length)

/-- `Encode`. -/
def encode (input : List UInt32) : Bytes :=
  input.flatMap fun (w : UInt32) => [w.toUInt8, (w >>> 8).toUInt8, (w >>> 16).toUInt8, (w >>> 24).toUInt8]

/-- A word that `Decode` makes. -/
def decode (block : Bytes) (i : Nat) : UInt32 :=
  let byte (j : Nat) : UInt32 := (block.getD (4 * i + j) 0).toUInt32
  byte 0 ||| byte 1 <<< 8 ||| byte 2 <<< 16 ||| byte 3 <<< 24

/-- A line of `MD5Transform`: the word of the block, the rotation and the constant. -/
abbrev Line := Nat × UInt32 × UInt32

/-- `FF`, `GG`, `HH` and `II`. The next line has the registers in the order `d, a, b, c`. -/
def operate (f : UInt32 → UInt32 → UInt32 → UInt32) (x : Nat → UInt32) (s : State) (line : Line) : State :=
  let a := s.a + (f s.b s.c s.d + x line.1 + line.2.2)
  ⟨s.d, Jenkins.rot a line.2.1 + s.b, s.b, s.c⟩

def round1 : List Line :=
  [(0, 7, 0xd76aa478), (1, 12, 0xe8c7b756), (2, 17, 0x242070db), (3, 22, 0xc1bdceee),
    (4, 7, 0xf57c0faf), (5, 12, 0x4787c62a), (6, 17, 0xa8304613), (7, 22, 0xfd469501),
    (8, 7, 0x698098d8), (9, 12, 0x8b44f7af), (10, 17, 0xffff5bb1), (11, 22, 0x895cd7be),
    (12, 7, 0x6b901122), (13, 12, 0xfd987193), (14, 17, 0xa679438e), (15, 22, 0x49b40821)]

def round2 : List Line :=
  [(1, 5, 0xf61e2562), (6, 9, 0xc040b340), (11, 14, 0x265e5a51), (0, 20, 0xe9b6c7aa),
    (5, 5, 0xd62f105d), (10, 9, 0x2441453), (15, 14, 0xd8a1e681), (4, 20, 0xe7d3fbc8),
    (9, 5, 0x21e1cde6), (14, 9, 0xc33707d6), (3, 14, 0xf4d50d87), (8, 20, 0x455a14ed),
    (13, 5, 0xa9e3e905), (2, 9, 0xfcefa3f8), (7, 14, 0x676f02d9), (12, 20, 0x8d2a4c8a)]

def round3 : List Line :=
  [(5, 4, 0xfffa3942), (8, 11, 0x8771f681), (11, 16, 0x6d9d6122), (14, 23, 0xfde5380c),
    (1, 4, 0xa4beea44), (4, 11, 0x4bdecfa9), (7, 16, 0xf6bb4b60), (10, 23, 0xbebfbc70),
    (13, 4, 0x289b7ec6), (0, 11, 0xeaa127fa), (3, 16, 0xd4ef3085), (6, 23, 0x4881d05),
    (9, 4, 0xd9d4d039), (12, 11, 0xe6db99e5), (15, 16, 0x1fa27cf8), (2, 23, 0xc4ac5665)]

def round4 : List Line :=
  [(0, 6, 0xf4292244), (7, 10, 0x432aff97), (14, 15, 0xab9423a7), (5, 21, 0xfc93a039),
    (12, 6, 0x655b59c3), (3, 10, 0x8f0ccc92), (10, 15, 0xffeff47d), (1, 21, 0x85845dd1),
    (8, 6, 0x6fa87e4f), (15, 10, 0xfe2ce6e0), (6, 15, 0xa3014314), (13, 21, 0x4e0811a1),
    (4, 6, 0xf7537e82), (11, 10, 0xbd3af235), (2, 15, 0x2ad7d2bb), (9, 21, 0xeb86d391)]

/-- `MD5Transform`. -/
def transform (state : State) (block : Bytes) : State :=
  let x := decode block
  let s := round1.foldl (operate (fun x y z => x &&& y ||| ~~~x &&& z) x) state
  let s := round2.foldl (operate (fun x y z => x &&& z ||| y &&& ~~~z) x) s
  let s := round3.foldl (operate (fun x y z => x ^^^ y ^^^ z) x) s
  let s := round4.foldl (operate (fun x y z => y ^^^ (x ||| ~~~z)) x) s
  ⟨state.a + s.a, state.b + s.b, state.c + s.c, state.d + s.d⟩

/-- The loop of `MD5Update`, and the index it leaves; `i + 63` can wrap around. -/
def transformLoop (input : Bytes) : Nat → Nat → State → State × Nat
  | 0, i, state => (state, i)
  | fuel + 1, i, state =>
    if (i + 63) % 2 ^ 32 < input.length then
      transformLoop input fuel (i + 64) (transform state ((input.drop i).take 64))
    else (state, i)

/-- `MD5Update`. -/
def md5Update (context : Ctx) (input : Bytes) : Ctx :=
  let inputLen := UInt32.ofNat input.length
  let idx := (context.count0 >>> 3 &&& 0x3f).toNat
  let count0 := context.count0 + inputLen <<< 3
  let count1 := (if count0 < inputLen <<< 3 then context.count1 + 1 else context.count1) + inputLen >>> 29
  let partLen := 64 - idx
  if partLen ≤ input.length then
    let buffer := copyTo context.buffer idx (input.take partLen)
    let (state, i) := transformLoop input input.length partLen (transform context.state (buffer.take 64))
    ⟨state, count0, count1, copyTo buffer 0 (input.drop i)⟩
  else ⟨context.state, count0, count1, copyTo context.buffer idx input⟩

/-- `PADDING`. -/
def padding : Bytes := 0x80 :: List.replicate 63 0

/-- `padLen` of `MD5Final`. -/
def padLen (idx : Nat) : Nat := if idx < 56 then 56 - idx else 120 - idx

/-- `MD5Final`. -/
def md5Final (context : Ctx) : Bytes :=
  let bits := encode [context.count0, context.count1]
  let idx := (context.count0 >>> 3 &&& 0x3f).toNat
  let context := md5Update (md5Update context (padding.take (padLen idx))) bits
  encode [context.state.a, context.state.b, context.state.c, context.state.d]

/-- `md5_signature`, as `hashkit_md5` and `libhashkit_md5_signature` call it. -/
def md5Signature (key : Bytes) : Bytes := md5Final (md5Update {} (key.take (key.length % 2 ^ 32)))

/-- `hashkit_md5`. -/
def hashkitMd5 (key : Bytes) : UInt32 :=
  let byte (i : Nat) : UInt32 := ((md5Signature key).getD i 0).toUInt32
  byte 3 <<< 24 ||| byte 2 <<< 16 ||| byte 1 <<< 8 ||| byte 0

/-- A build, with its MD5. -/
def withMd5 (H : Hashes) : Hashes :=
  { H with md5 := hashkitMd5, md5Signature := fun key i => (md5Signature key).getD i 0 }

end LM.Hashkit.Md5
