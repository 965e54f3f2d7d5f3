import LibMemcached.Impl.Hashkit

/-!
# The Jenkins hash

`libhashkit/jenkins.cc` on a little-endian machine. The key lies in memory, a byte at each address, and the
function picks one of three ways to read it by the alignment of its address. `k[i]` stands for the word, the half
word or the byte that the source reads at index `i` of its pointer.
-/

namespace LM.Hashkit.Jenkins

/-- The bytes at all addresses. -/
abbrev Memory := Nat → UInt8

/-- The internal state. -/
@[ext]
structure State where
  a : UInt32
  b : UInt32
  c : UInt32

def rot (x k : UInt32) : UInt32 := x <<< k ||| x >>> (32 - k)

/-- The macro `mix`. -/
def mix (s : State) : State :=
  let a := s.a - s.c
  let a := a ^^^ rot s.c 4
  let c := s.c + s.b
  let b := s.b - a
  let b := b ^^^ rot a 6
  let a := a + c
  let c := c - b
  let c := c ^^^ rot b 8
  let b := b + a
  let a := a - c
  let a := a ^^^ rot c 16
  let c := c + b
  let b := b - a
  let b := b ^^^ rot a 19
  let a := a + c
  let c := c - b
  let c := c ^^^ rot b 4
  let b := b + a
  ⟨a, b, c⟩

/-- The macro `final`. -/
def final (s : State) : State :=
  let c := s.c ^^^ s.b
  let c := c - rot s.b 14
  let a := s.a ^^^ c
  let a := a - rot c 11
  let b := s.b ^^^ a
  let b := b - rot a 25
  let c := c ^^^ b
  let c := c - rot b 16
  let a := a ^^^ c
  let a := a - rot c 4
  let b := b ^^^ a
  let b := b - rot a 14
  let c := c ^^^ b
  let c := c - rot b 24
  ⟨a, b, c⟩

/-- `JENKINS_INITVAL`. -/
def initval : UInt32 := 13

def init (length : Nat) : State :=
  let x := 0xdeadbeef + UInt32.ofNat length + initval
  ⟨x, x, x⟩

/-! ## Reading -/

/-- `k[i]` for a `uint8_t *`. -/
def byte (mem : Memory) (k i : Nat) : UInt32 := (mem (k + i)).toUInt32

/-- `k[i]` for a `uint16_t *`. -/
def half (mem : Memory) (k i : Nat) : UInt32 :=
  UInt32.ofNat ((mem (k + 2 * i)).toNat + 2 ^ 8 * (mem (k + 2 * i + 1)).toNat)

/-- `k[i]` for a `uint32_t *`. -/
def word (mem : Memory) (k i : Nat) : UInt32 :=
  UInt32.ofNat ((mem (k + 4 * i)).toNat + 2 ^ 8 * (mem (k + 4 * i + 1)).toNat +
    2 ^ 16 * (mem (k + 4 * i + 2)).toNat + 2 ^ 24 * (mem (k + 4 * i + 3)).toNat)

/-! ## One block -/

def absorbWords (mem : Memory) (k : Nat) (s : State) : State :=
  { a := s.a + word mem k 0, b := s.b + word mem k 1, c := s.c + word mem k 2 }

def absorbHalves (mem : Memory) (k : Nat) (s : State) : State :=
  { a := s.a + (half mem k 0 + half mem k 1 <<< 16)
    b := s.b + (half mem k 2 + half mem k 3 <<< 16)
    c := s.c + (half mem k 4 + half mem k 5 <<< 16) }

def absorbBytes (mem : Memory) (k : Nat) (s : State) : State :=
  let a := s.a + byte mem k 0
  let a := a + byte mem k 1 <<< 8
  let a := a + byte mem k 2 <<< 16
  let a := a + byte mem k 3 <<< 24
  let b := s.b + byte mem k 4
  let b := b + byte mem k 5 <<< 8
  let b := b + byte mem k 6 <<< 16
  let b := b + byte mem k 7 <<< 24
  let c := s.c + byte mem k 8
  let c := c + byte mem k 9 <<< 8
  let c := c + byte mem k 10 <<< 16
  let c := c + byte mem k 11 <<< 24
  ⟨a, b, c⟩

/-! ## The last block

The `switch` over the length that is left: the state that goes to `final`, or `none` where `c` is returned as it
is. -/

/-- The words, with what lies behind the key masked off. -/
def tailWords (mem : Memory) (k : Nat) (length : Nat) (s : State) : Option State :=
  match length with
  | 12 => some { a := s.a + word mem k 0, b := s.b + word mem k 1, c := s.c + word mem k 2 }
  | 11 => some { a := s.a + word mem k 0, b := s.b + word mem k 1, c := s.c + (word mem k 2 &&& 0xffffff) }
  | 10 => some { a := s.a + word mem k 0, b := s.b + word mem k 1, c := s.c + (word mem k 2 &&& 0xffff) }
  | 9 => some { a := s.a + word mem k 0, b := s.b + word mem k 1, c := s.c + (word mem k 2 &&& 0xff) }
  | 8 => some { s with a := s.a + word mem k 0, b := s.b + word mem k 1 }
  | 7 => some { s with a := s.a + word mem k 0, b := s.b + (word mem k 1 &&& 0xffffff) }
  | 6 => some { s with a := s.a + word mem k 0, b := s.b + (word mem k 1 &&& 0xffff) }
  | 5 => some { s with a := s.a + word mem k 0, b := s.b + (word mem k 1 &&& 0xff) }
  | 4 => some { s with a := s.a + word mem k 0 }
  | 3 => some { s with a := s.a + (word mem k 0 &&& 0xffffff) }
  | 2 => some { s with a := s.a + (word mem k 0 &&& 0xffff) }
  | 1 => some { s with a := s.a + (word mem k 0 &&& 0xff) }
  | _ => none

/-- The half words; an odd byte is read alone before the case falls through to the next one. -/
def tailHalves (mem : Memory) (k : Nat) (length : Nat) (s : State) : Option State :=
  match length with
  | 12 => some (absorbHalves mem k s)
  | 11 => some (upToTen { s with c := s.c + byte mem k 10 <<< 16 })
  | 10 => some (upToTen s)
  | 9 => some (upToEight { s with c := s.c + byte mem k 8 })
  | 8 => some (upToEight s)
  | 7 => some (upToSix { s with b := s.b + byte mem k 6 <<< 16 })
  | 6 => some (upToSix s)
  | 5 => some (upToFour { s with b := s.b + byte mem k 4 })
  | 4 => some (upToFour s)
  | 3 => some (upToTwo { s with a := s.a + byte mem k 2 <<< 16 })
  | 2 => some (upToTwo s)
  | 1 => some { s with a := s.a + byte mem k 0 }
  | _ => none
where
  upToTen (s : State) : State :=
    { a := s.a + (half mem k 0 + half mem k 1 <<< 16)
      b := s.b + (half mem k 2 + half mem k 3 <<< 16)
      c := s.c + half mem k 4 }
  upToEight (s : State) : State :=
    { s with
      a := s.a + (half mem k 0 + half mem k 1 <<< 16)
      b := s.b + (half mem k 2 + half mem k 3 <<< 16) }
  upToSix (s : State) : State :=
    { s with a := s.a + (half mem k 0 + half mem k 1 <<< 16), b := s.b + half mem k 2 }
  upToFour (s : State) : State := { s with a := s.a + (half mem k 0 + half mem k 1 <<< 16) }
  upToTwo (s : State) : State := { s with a := s.a + half mem k 0 }

/-- The bytes; every case falls through to the next one. -/
def tailBytes (mem : Memory) (k : Nat) : Nat → State → Option State
  | 12, s => tailBytes mem k 11 { s with c := s.c + byte mem k 11 <<< 24 }
  | 11, s => tailBytes mem k 10 { s with c := s.c + byte mem k 10 <<< 16 }
  | 10, s => tailBytes mem k 9 { s with c := s.c + byte mem k 9 <<< 8 }
  | 9, s => tailBytes mem k 8 { s with c := s.c + byte mem k 8 }
  | 8, s => tailBytes mem k 7 { s with b := s.b + byte mem k 7 <<< 24 }
  | 7, s => tailBytes mem k 6 { s with b := s.b + byte mem k 6 <<< 16 }
  | 6, s => tailBytes mem k 5 { s with b := s.b + byte mem k 5 <<< 8 }
  | 5, s => tailBytes mem k 4 { s with b := s.b + byte mem k 4 }
  | 4, s => tailBytes mem k 3 { s with a := s.a + byte mem k 3 <<< 24 }
  | 3, s => tailBytes mem k 2 { s with a := s.a + byte mem k 2 <<< 16 }
  | 2, s => tailBytes mem k 1 { s with a := s.a + byte mem k 1 <<< 8 }
  | 1, s => some { s with a := s.a + byte mem k 0 }
  | _, _ => none

/-! ## The function -/

/-- The loop over all blocks but the last, and what it leaves: the pointer, the length and the state. -/
def blocks (absorb : Nat → State → State) (k length : Nat) (s : State) : Nat × Nat × State :=
  if 12 < length then blocks absorb (k + 12) (length - 12) (mix (absorb k s)) else (k, length, s)

/-- One of the three paths. -/
def path (absorb : Nat → State → State) (tail : Nat → Nat → State → Option State) (key length : Nat) : UInt32 :=
  let (k, length, s) := blocks absorb key length (init length)
  match tail k length s with
  | some s => (final s).c
  | none => s.c

def wordPath (mem : Memory) : Nat → Nat → UInt32 := path (absorbWords mem) (tailWords mem)

def halfPath (mem : Memory) : Nat → Nat → UInt32 := path (absorbHalves mem) (tailHalves mem)

def bytePath (mem : Memory) : Nat → Nat → UInt32 := path (absorbBytes mem) (tailBytes mem)

/-- `hashkit_jenkins` of the `length` bytes at the address `key`. -/
def hashkitJenkins (mem : Memory) (key length : Nat) : UInt32 :=
  if key &&& 3 = 0 then wordPath mem key length
  else if key &&& 1 = 0 then halfPath mem key length
  else bytePath mem key length

end LM.Hashkit.Jenkins
