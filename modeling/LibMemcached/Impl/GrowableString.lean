import LibMemcached.Impl.Hashkit
import LibMemcached.Impl.Return

/-!
# Growable strings

`string.cc`. `string` is the block of memory and `end_` the offset of the end in it. Sizes are counted modulo
`2 ^ 64`. A result `none` is a write outside of the block.
-/

namespace LM

/-- What `realloc` gives during a call: the bytes of a new block before the old ones are copied to it, or
nothing. The difference of two pointers into a block is a `ptrdiff_t`, so there is none of `2 ^ 63` bytes. -/
structure Realloc where
  block : Nat → Option Bytes
  length_eq : ∀ {size bytes}, block size = some bytes → bytes.length = size
  lt : ∀ {size bytes}, block size = some bytes → size < 2 ^ 63

/-- `memcached_string_st`. -/
structure StringSt where
  string : Bytes
  end_ : Nat
  currentSize : Nat
  deriving DecidableEq

/-- Bytes that a `size_t` can count. -/
abbrev Buffer := { value : Bytes // value.length < 2 ^ 64 }

namespace StringSt

/-- `_init_string`. -/
def init : StringSt := ⟨[], 0, 0⟩

/-- `_string_check`. -/
def check (realloc : Realloc) (self : StringSt) (need : UInt64) : ReturnT × StringSt :=
  let free := (2 ^ 64 + self.currentSize - self.end_) % 2 ^ 64
  if need ≠ 0 ∧ free < need.toNat then
    let adjust := (need.toNat - free) / 1024 + 1
    let newSize := (adjust * 1024 + self.currentSize) % 2 ^ 64
    if newSize < need.toNat then (.memoryAllocationFailure, self)
    else
      match realloc.block newSize with
      | none => (.memoryAllocationFailure, self)
      | some block =>
        (.success,
          { self with
            string := self.string.take newSize ++ block.drop self.string.length
            currentSize := (self.currentSize + 1024 * adjust) % 2 ^ 64 })
  else (.success, self)

/-- `memcpy` to the end of the string. -/
def store (self : StringSt) (value : Bytes) : Option StringSt :=
  if self.end_ + value.length ≤ self.string.length then
    some { self with
      string := self.string.take self.end_ ++ (value ++ self.string.drop (self.end_ + value.length)) }
  else none

/-- `memcached_string_append`. -/
def append (realloc : Realloc) (self : StringSt) (value : Buffer) : Option (ReturnT × StringSt) :=
  let (rc, self) := self.check realloc (.ofNat value.1.length)
  if rc.isFailed then some (.memoryAllocationFailure, self)
  else (self.store value.1).map fun self => (.success, { self with end_ := self.end_ + value.1.length })

/-- `memcached_string_append_character`. -/
def appendCharacter (realloc : Realloc) (self : StringSt) (character : UInt8) : Option (ReturnT × StringSt) :=
  self.append realloc ⟨[character], by simp⟩

/-- `memcached_string_append_null`: the zero is behind the end. -/
def appendNull (realloc : Realloc) (self : StringSt) : Option (ReturnT × StringSt) :=
  let (rc, self) := self.check realloc 1
  if rc.isFailed then some (.memoryAllocationFailure, self) else (self.store [0]).map (.success, ·)

/-- `memcached_string_reset`. -/
def reset (self : StringSt) : StringSt := { self with end_ := 0 }

/-- `memcached_string_set`. Whether there is room for the zero does not matter. -/
def set (realloc : Realloc) (self : StringSt) (value : Buffer) : Option (Bool × StringSt) := do
  let (rc, self) ← self.reset.append realloc value
  if rc.isSuccess then
    let (_, self) ← self.appendNull realloc
    return (true, self)
  else return (false, self)

/-- `memcached_string_take_value`: the block that is handed out. -/
def takeValue (realloc : Realloc) (self : StringSt) : Option (Option Bytes × StringSt) := do
  if self.end_ = 0 then return (none, self)
  let (rc, self) ← self.appendNull realloc
  if rc.isFailed then return (none, self)
  else return (some self.string, init)

/-- `memcached_string_create`. -/
def create (realloc : Realloc) (initialSize : UInt64) : Option StringSt :=
  let (rc, self) := init.check realloc initialSize
  if rc.isFailed then none else some self

/-- The calls on a string. -/
inductive Call where
  | check (need : UInt64)
  | append (value : Buffer)
  | appendCharacter (character : UInt8)
  | set (value : Buffer)
  | reset
  | takeValue

/-- Whether the call succeeds, and the string after it. -/
def perform (realloc : Realloc) (self : StringSt) : Call → Option (Bool × StringSt)
  | .check need => some ((self.check realloc need).1.isSuccess, (self.check realloc need).2)
  | .append value => (self.append realloc value).map fun r => (r.1.isSuccess, r.2)
  | .appendCharacter character => (self.appendCharacter realloc character).map fun r => (r.1.isSuccess, r.2)
  | .set value => self.set realloc value
  | .reset => some (true, self.reset)
  | .takeValue => (self.takeValue realloc).map fun r => (r.1.isSome, r.2)

end StringSt

end LM
