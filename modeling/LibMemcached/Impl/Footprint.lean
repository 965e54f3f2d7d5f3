import LibMemcached.Impl.Response

/-!
# The memory a response touches

`textual_value_fetch` and `binary_read_one_response` once more, this time with the places they read and
write. The functions here run on the state and on a record of what was touched (`Footprint`); apart from
the record and from the allocator, which may refuse a block, they do what those in `Impl/Response.lean`
do.
-/

namespace LM

/-- `MEMCACHED_BLOCK_SIZE`. -/
def blockSize : Nat := 1024

/-- The size of `version_buffer`. -/
def versionBufferLength : Nat := 32

/-- What a response is written to; `item_key` has `MEMCACHED_MAX_KEY` bytes, and `scratch` are the local variables of a fixed size. -/
inductive Place where
  | itemKey | value | versionBuffer | caller | scratch
  deriving DecidableEq

/-- One byte that was written, and how many bytes there were to write to. -/
structure Write where
  place : Place
  index : Nat
  room : Nat
  deriving DecidableEq

/-- What was touched. -/
structure Footprint where
  /-- `current_size` of the value string. -/
  capacity : Nat
  /-- The bytes of the line buffer that were read. -/
  reads : List Nat := []
  writes : List Write := []
  /-- The lengths that were computed by a subtraction, as they are before they are reduced to a machine
  word. -/
  lengths : List Int := []

/-- The end of the key on a `VALUE` line. -/
def keyEnd (line : Bytes) : Nat :=
  6 + ((line.drop 6).takeWhile fun b => !(isCntrl b || isSpace b)).length

abbrev Touch (κ α : Type) := Prog (St κ × Footprint) α

namespace Touch

variable {κ α : Type} (K : Kernel κ) (grows : Nat → Bool)

/-- A step that touches nothing of interest. -/
def lift (m : Act κ α) : Touch κ α := fun p => (m p.1).map fun r => (r.1, (r.2, p.2))

def note (f : Footprint → Footprint) : Touch κ Unit := modify fun p => (p.1, f p.2)

/-- `count` bytes are written from `offset` on. -/
def wrote (place : Place) (room offset count : Nat) : Touch κ Unit :=
  note fun f => { f with writes := f.writes ++ (List.range' offset count).map (⟨place, ·, room⟩) }

/-- The capacity of the value string. -/
def capacity : Touch κ Nat := do
  let p ← get
  return p.2.capacity

/-! ## The value string -/

/-- `_string_check` of an empty string with the given capacity: the new capacity, unless there is an error.
`grows` tells whether the allocator gives a block of that size. -/
def stringCheck (capacity need : Nat) : Option Nat :=
  if need ≠ 0 ∧ capacity < need then
    let adjust := (need - capacity) / blockSize + 1
    let newSize := (adjust * blockSize + capacity) % 2 ^ 64
    if newSize < need then none
    else if grows newSize then some newSize else none
  else some capacity

/-- `memcached_string_check` of the value string: whether there is room. -/
def memcachedStringCheck (need : Nat) : Touch κ Bool := do
  let p ← get
  match stringCheck grows p.2.capacity need with
  | none => return false
  | some capacity =>
    note fun f => { f with capacity := capacity }
    return true

/-! ## `textual_value_fetch` -/

/-- Where a `strto*` function stops: the place of the first byte that is no part of a number. -/
def scanEnd (text : Bytes) : Nat :=
  let spaces := text.takeWhile isSpace
  let (sign, rest) :=
    match text.drop spaces.length with
    | 45 :: rest => (1, rest)
    | 43 :: rest => (1, rest)
    | rest => (0, rest)
  spaces.length + sign + (rest.takeWhile isDigit).length

/-- The places from `first` to `last`. -/
def span (first last : Nat) : List Nat := List.range' first (last + 1 - first)

/-- The places that are read to find a number at `p`: the loop over the digits reads no further than
`strtoul`. -/
def numberReads (buffer : Bytes) (p : Nat) : List Nat := span p (p + scanEnd (buffer.drop p))

/-- The places of the line buffer that `textual_value_fetch` reads, as `parseValue` goes through it. -/
def lineReads (buffer : Bytes) : List Nat :=
  let end_ := defaultCommandSize
  let p := keyEnd buffer
  span 6 p ++
    if p = end_ ∨ p + 1 = end_ then []
    else
      numberReads buffer (p + 1) ++
        match strtoull (buffer.drop (p + 1)) with
        | (_, n, erange) =>
          let p := p + 1 + n
          if erange ∨ p = end_ ∨ p + 1 = end_ then []
          else
            numberReads buffer (p + 1) ++
              match strtoull (buffer.drop (p + 1)) with
              | (_, n, erange) =>
                let p := p + 1 + n
                if erange ∨ p = end_ then []
                else p :: if buffer.getD p 0 = 13 then [] else numberReads buffer (p + 1)

/-- The key is copied to `item_key`, with a zero byte behind it, once the line was read. -/
def copyKey (nsLength : Nat) (buffer : Bytes) : Touch κ Unit := do
  note fun f => { f with reads := f.reads ++ lineReads buffer }
  wrote .itemKey maxKey 0 (keyEnd buffer - 6 - nsLength + 1)

/-- The end of `textual_value_fetch`: the value that was received is decrypted if there is a key, and
written to the value string again. -/
def decrypt (memc : Memcached) (value : Bytes) (buffer : Bytes) (result : Result) : Touch κ Reply := do
  match memc.decrypted value with
  | none =>
    let rc ← lift (setErrorText .failure "hashkit_decrypt() failed")
    return ⟨rc, buffer, {}⟩
  | some plain =>
    if memc.hashkit.key.isSome ∧ value ≠ [] then
      if ← memcachedStringCheck grows plain.length then
        wrote .value (← capacity) 0 plain.length
        return ⟨.success, buffer, { result with value := plain }⟩
      else
        let rc ← lift (setErrorText .failure "hashkit_decrypt() failed")
        return ⟨rc, buffer, {}⟩
    else return ⟨.success, buffer, { result with value := plain }⟩

/-- `textual_value_fetch`. The indices of the two zero bytes are 64-bit numbers. -/
def textualValueFetch (buffer : Bytes) : Touch κ Reply := do
  let p ← get
  let memc := p.1.memc
  let nsLength := (memc.namespace_.getD []).length
  copyKey nsLength buffer
  match parseValue nsLength buffer with
  | (result, none) =>
    lift (closeSocket K)
    return ⟨.partialRead, buffer, result⟩
  | (result, some valueLength) =>
    let toRead := (valueLength + 2) % 2 ^ 64
    if ← memcachedStringCheck grows toRead then
      let (rc, cells) ← lift (memcachedIoRead K toRead)
      let room ← capacity
      wrote .value room 0 cells.length
      if rc.isFailed then
        if rc = .inProgress then
          lift (closeSocket K)
          let rc ← lift (setError .inProgress)
          return ⟨rc, buffer, result⟩
        else return ⟨rc, buffer, result⟩
      else
        wrote .value room valueLength 1
        wrote .value room ((valueLength + 1) % 2 ^ 64) 1
        decrypt grows memc ((cells.map (·.byte)).take valueLength) buffer result
    else
      let rc ← lift (setError .memoryAllocationFailure)
      return ⟨rc, buffer, result⟩

/-! ## `binary_read_one_response` -/

/-- A read inside a packet, to `offset` in a place with `room` bytes. What was received of a read that fails
is written too. -/
def readPart (place : Place) (room offset size : Nat) (onFail : Touch κ Reply)
    (f : Bytes → Touch κ Reply) : Touch κ Reply := do
  let (rc, cells) ← lift (memcachedSafeRead K size)
  wrote place room offset cells.length
  if rc = .success then f (bytesOf cells) else onFail

/-- A length that is computed by a subtraction. -/
def subtracted (length : Int) : Touch κ Unit := note fun f => { f with lengths := f.lengths ++ [length] }

/-- `binary_read_one_response` cannot get room for a value. -/
def noRoom (buffer : Bytes) (result : Result) : Touch κ Reply :=
  return ⟨.memoryAllocationFailure, buffer, result⟩

/-- The value of a packet is read to the value string. -/
def readValue (size : Nat) (buffer : Bytes) (result : Result) (f : Bytes → Touch κ Reply) :
    Touch κ Reply := do
  if ← memcachedStringCheck grows size then
    let room ← capacity
    readPart K .value room 0 size (return ⟨.unknownReadFailure, buffer, result⟩) f
  else noRoom buffer result

/-- The answer to `GETK` or `GETKQ`. -/
def binaryValue (header : Header) (buffer : Bytes) : Touch κ Reply :=
  let result : Result := { itemCas := header.cas }
  let fail (result : Result) : Touch κ Reply := return ⟨.unknownReadFailure, buffer, result⟩
  readPart K .scratch 4 0 4 (fail result) fun flags => do
    let result := { result with itemFlags := bigEndian flags }
    subtracted (header.bodylen - header.extlen)
    readPart K .itemKey maxKey 0 header.keylen (fail result) fun key => do
      let p ← get
      let ns := (p.1.memc.namespace_.getD []).length
      if key ≠ [] ∧ ns ≠ 0 ∧ key.length ≤ ns then do
        let rc ← lift (setError .unknownReadFailure)
        return ⟨rc, buffer, { result with itemKey := key }⟩
      else
        let result := { result with itemKey := key.drop ns }
        wrote .itemKey maxKey 0 (if ns = 0 then 0 else key.length - ns)
        subtracted (header.bodylen - header.extlen - header.keylen)
        readValue K grows ((header.bodylen + 2 ^ 33 - header.extlen - header.keylen) % 2 ^ 32) buffer result
          fun value => do
            let rc ← lift (binaryStatus header.status)
            return ⟨rc, buffer, { result with value := value }⟩

/-- The `switch` of `binary_read_one_response` for an answer that reports success. -/
def binarySuccess (header : Header) (bufferLength : Nat) (buffer : Bytes) (result : Result) :
    Touch κ Reply :=
  let fail (result : Result) : Touch κ Reply := return ⟨.unknownReadFailure, buffer, result⟩
  let finish (buffer : Bytes) (result : Result) : Touch κ Reply := do
    let rc ← lift (binaryStatus header.status)
    return ⟨rc, buffer, result⟩
  match Opcode.ofByte? header.opcode with
  | some .getkq => do
    lift responseIncrement
    binaryValue K grows header buffer
  | some .getk => binaryValue K grows header buffer
  | some .increment | some .decrement =>
    let refused := { result with numericValue := 2 ^ 64 - 1 }
    if header.bodylen ≠ 8 then do
      let rc ← lift (setError .unknownReadFailure)
      return ⟨rc, buffer, refused⟩
    else readPart K .scratch 8 0 8 (fail refused) fun value =>
      finish buffer { result with numericValue := bigEndian value }
  | some .saslListMechs =>
    if header.keylen ≠ 0 ∨ bufferLength < (header.bodylen + 1) % 2 ^ 32 then fail result
    else readPart K .caller bufferLength 0 header.bodylen (fail result) fun mechs =>
      finish (overlay mechs buffer) result
  | some .version =>
    readPart K .versionBuffer versionBufferLength 0 header.bodylen (fail result) fun text => do
      let rc ← lift (readVersion text)
      if rc = .success then finish buffer result else return ⟨rc, buffer, result⟩
  | some .touch => do
    let (rc, cells) ←
      lift (if header.bodylen = 4 then memcachedSafeRead K 4 else pure (.success, []))
    wrote .scratch 4 0 cells.length
    let rc ← lift (setError rc)
    return ⟨rc, buffer, result⟩
  | some .flush | some .quit | some .set | some .add | some .replace | some .append | some .prepend
  | some .delete => return ⟨.success, buffer, result⟩
  | some .noop => return ⟨.end_, buffer, result⟩
  | some .stat =>
    if header.bodylen = 0 then return ⟨.end_, buffer, result⟩
    else if bufferLength < (header.bodylen + 1) % 2 ^ 32 then fail result
    else do
      let zeros := List.replicate bufferLength 0
      wrote .caller bufferLength 0 bufferLength
      readPart K .caller bufferLength 0 header.keylen (return ⟨.unknownReadFailure, zeros, result⟩)
        fun key => do
          subtracted (header.bodylen - header.keylen)
          readPart K .caller bufferLength (header.keylen + 1)
            ((2 ^ 64 + header.bodylen - header.keylen) % 2 ^ 64)
            (return ⟨.unknownReadFailure, overlay key zeros, result⟩) fun value =>
            finish (overlay (key ++ [0] ++ value) zeros) result
  | some .saslAuth | some .saslStep =>
    readValue K grows header.bodylen buffer { itemCas := header.cas } fun value =>
      finish buffer { itemCas := header.cas, value := value }
  | _ => do
    let rc ← lift (setError .unknownReadFailure)
    return ⟨rc, buffer, result⟩

/-- The body of an error is thrown away, `SMALL_STRING_LEN` bytes at a time. -/
def drainBody : Nat → Nat → Touch κ ReturnT
  | _, 0 => return .success
  | 0, _ + 1 => failure
  | fuel + 1, bodylen + 1 => do
    let nr := min (bodylen + 1) smallStringLen
    let (rc, cells) ← lift (memcachedSafeRead K nr)
    wrote .scratch smallStringLen 0 cells.length
    if rc = .success then
      subtracted ((bodylen + 1 : Nat) - nr)
      drainBody fuel (bodylen + 1 - nr)
    else lift (setError .unknownReadFailure)

/-- `binary_read_one_response` once the header was read. -/
def binaryResponse (header : Header) (bufferLength : Nat) (buffer : Bytes) (result : Result) :
    Touch κ Reply := do
  if header.magic ≠ 0x81 then
    let rc ← lift (setError .unknownReadFailure)
    return ⟨rc, buffer, result⟩
  else if header.status = 0 ∨ header.status = authContinueStatus then
    binarySuccess K grows header bufferLength buffer result
  else
    let rc ← drainBody K header.bodylen header.bodylen
    if rc ≠ .success then return ⟨rc, buffer, result⟩
    else if header.bodylen ≠ 0 ∧ skipsError header.opcode then
      return ⟨.fetchNotFinished, buffer, result⟩
    else
      let rc ← lift (binaryStatus header.status)
      return ⟨rc, buffer, result⟩

/-- `binary_read_one_response`. -/
def binaryReadOneResponse (bufferLength : Nat) (buffer : Bytes) (result : Result) : Touch κ Reply := do
  let (rc, cells) ← lift (memcachedSafeRead K headerLength)
  wrote .scratch headerLength 0 cells.length
  if rc ≠ .success then return ⟨rc, buffer, result⟩
  else
    lift (modify fun s => { s with lastReply := cells })
    binaryResponse K grows (Header.ofBytes (bytesOf cells)) bufferLength buffer result

end Touch

end LM
