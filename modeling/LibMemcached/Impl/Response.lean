import LibMemcached.Impl.Net

/-!
# Reading one response

`response.cc`: `textual_value_fetch`, `textual_read_one_response`, `binary_read_one_response` and
`_read_one_response`. The line buffer and the result are passed in and out (`Reply`), since both
protocols parse what is in the caller's buffer, whatever was in it before.
-/

namespace LM

/-- The bytes of a text literal. -/
def ascii (text : String) : Bytes := text.toList.map Char.toUInt8

/-- A number in decimal, as `printf` writes it after a space. -/
def spaced (n : Int) : Bytes := ascii (" " ++ toString n)

/-- The text of bytes the server sent. -/
def textOf (bytes : Bytes) : String := String.ofList (bytes.map fun b => Char.ofNat b.toNat)

def isSpace (b : UInt8) : Bool := b == 32 || (9 ≤ b && b ≤ 13)

def isCntrl (b : UInt8) : Bool := b < 32 || b == 127

def isDigit (b : UInt8) : Bool := 48 ≤ b && b ≤ 57

/-- The value of a string of decimal digits. -/
def digitsValue (digits : Bytes) : Nat := digits.foldl (fun n d => 10 * n + (d.toNat - 48)) 0

/-- What the `strto*` functions find in base ten: the sign, the digits, and the number of bytes up
to the end of the digits (zero if there are none). -/
def scanNumber (text : Bytes) : Bool × Bytes × Nat :=
  let spaces := text.takeWhile isSpace
  let (negative, sign, rest) :=
    match text.drop spaces.length with
    | 45 :: rest => (true, 1, rest)
    | 43 :: rest => (false, 1, rest)
    | rest => (false, 0, rest)
  let digits := rest.takeWhile isDigit
  (negative, digits, if digits = [] then 0 else spaces.length + sign + digits.length)

/-- `strtoull` (and `strtoul`, whose type has 64 bits as well): the value, the number of bytes
consumed, and whether `errno` is `ERANGE`. -/
def strtoull (text : Bytes) : Nat × Nat × Bool :=
  let (negative, digits, consumed) := scanNumber text
  let n := digitsValue digits
  if 2 ^ 64 ≤ n then (2 ^ 64 - 1, consumed, true)
  else (if negative then (2 ^ 64 - n) % 2 ^ 64 else n, consumed, false)

/-- `strtol`. -/
def strtol (text : Bytes) : Int × Nat × Bool :=
  let (negative, digits, consumed) := scanNumber text
  let n := digitsValue digits
  if negative then
    if 2 ^ 63 < n then (-2 ^ 63, consumed, true) else (-n, consumed, false)
  else if 2 ^ 63 ≤ n then (2 ^ 63 - 1, consumed, true) else (n, consumed, false)

/-- What a response leaves: the code, the caller's line buffer and the result. -/
structure Reply where
  rc : ReturnT
  buffer : Bytes
  result : Result

variable {κ : Type} (K : Kernel κ)

/-! ## Version numbers -/

/-- One of the three parts of a version: `none` if it is refused. -/
def versionPart (text : Bytes) : Option (UInt8 × Bytes) :=
  match strtol text with
  | (version, consumed, erange) =>
    if erange ∨ version = -2 ^ 63 ∨ 255 < version then none
    else some (UInt8.ofInt version, text.drop (consumed + 1))

/-- The version texts of both protocols: three numbers, of which the first is not zero. -/
def readVersion (text : Bytes) : Act κ ReturnT :=
  let refuse (part : String) : Act κ ReturnT := do
    modify fun s => { s with majorVersion := 255, minorVersion := 255, microVersion := 255 }
    setErrorText .unknownReadFailure ("strtol() failed to parse " ++ part ++ " version")
  match versionPart text with
  | none => refuse "major"
  | some (major, text') =>
    if (strtol text).1 = 0 then refuse "major"
    else do
      modify fun s => { s with majorVersion := major }
      match versionPart text' with
      | none => refuse "minor"
      | some (minor, text'') => do
        modify fun s => { s with minorVersion := minor }
        match versionPart text'' with
        | none => refuse "micro"
        | some (micro, _) => do
          modify fun s => { s with microVersion := micro }
          return .success

/-! ## The text protocol -/

/-- The fields of a `VALUE` line, as `textual_value_fetch` finds them in the line buffer: the result
so far and, unless the line is refused, the declared length. `nsLength` bytes are the namespace. -/
def parseValue (nsLength : Nat) (buffer : Bytes) : Result × Option Nat :=
  let end_ := defaultCommandSize
  let word := (buffer.drop 6).takeWhile fun b => !(isCntrl b || isSpace b)
  let result : Result := { itemKey := word.drop nsLength }
  let p := 6 + word.length
  if p = end_ ∨ p + 1 = end_ then (result, none)
  else
    match strtoull (buffer.drop (p + 1)) with
    | (flags, n, erange) =>
      let result := { result with itemFlags := flags % 2 ^ 32 }
      let p := p + 1 + n
      if erange ∨ p = end_ ∨ p + 1 = end_ then (result, none)
      else
        match strtoull (buffer.drop (p + 1)) with
        | (valueLength, n, erange) =>
          let p := p + 1 + n
          if erange ∨ p = end_ then (result, none)
          else if buffer.getD p 0 = 13 then
            if end_ < p + 2 then (result, none) else (result, some valueLength)
          else
            match strtoull (buffer.drop (p + 1)) with
            | (cas, n, erange) =>
              let result := { result with itemCas := cas }
              if erange ∨ end_ < p + 1 + n then (result, none) else (result, some valueLength)

/-- Values are allocated below this length. -/
def allocLimit : Nat := 2 ^ 62

/-- The value of an item, decrypted if there is a key; `none` if `hashkit_decrypt` refuses it. -/
def Memcached.decrypted (memc : Memcached) (value : Bytes) : Option Bytes :=
  match memc.hashkit.key with
  | none => some value
  | some key => if value = [] then some value else key.decrypt value

/-- `textual_value_fetch`. -/
def textualValueFetch (buffer : Bytes) : Act κ Reply := do
  let s ← get
  match parseValue (s.memc.namespace_.getD []).length buffer with
  | (result, none) =>
    closeSocket K
    return ⟨.partialRead, buffer, result⟩
  | (result, some valueLength) =>
    let toRead := (valueLength + 2) % 2 ^ 64
    if allocLimit ≤ toRead then
      let rc ← setError .memoryAllocationFailure
      return ⟨rc, buffer, result⟩
    else
      let (rc, cells) ← memcachedIoRead K toRead
      if rc.isFailed then
        if rc = .inProgress then
          closeSocket K
          let rc ← setError .inProgress
          return ⟨rc, buffer, result⟩
        else return ⟨rc, buffer, result⟩
      else
        match s.memc.decrypted ((cells.map (·.byte)).take valueLength) with
        | some value => return ⟨.success, buffer, { result with value := value }⟩
        | none =>
          let rc ← setErrorText .failure "hashkit_decrypt() failed"
          return ⟨rc, buffer, {}⟩

/-- Whether the buffer begins with the text. -/
def starts (text : String) (buffer : Bytes) : Bool := (ascii text).isPrefixOf buffer

/-- The rest of a line after the name of an error and one space. -/
def errorText (name : String) (buffer : Bytes) : String :=
  let text := buffer.drop (ascii name).length
  let text := if text.head? = some 32 then text.tail else text
  textOf (text.takeWhile fun b => b != 13 && b != 10)

/-- `textual_read_one_response`, from the line on: `totalRead` bytes of the buffer are the line. -/
def textualDispatch (buffer : Bytes) (totalRead : Nat) (result : Result) : Act κ Reply :=
  let reply (m : Act κ ReturnT) : Act κ Reply := do
    let rc ← m
    return ⟨rc, buffer, result⟩
  let counted (rc : ReturnT) : Act κ ReturnT := do
    responseIncrement
    return rc
  if starts "VALUE" buffer then do
    responseIncrement
    textualValueFetch K buffer
  else if starts "VERSION" buffer then
    reply (readVersion (buffer.dropWhile fun b => b != 32 && b != 0))
  else if starts "OK" buffer then reply (return .success)
  else if starts "STAT" buffer then reply (counted .stat)
  else if starts "SERVER_ERROR" buffer then
    if totalRead = 12 then reply (return .serverError)
    else if starts "SERVER_ERROR object too large for cache" (buffer.take totalRead) then
      reply (return .e2big)
    else if starts "SERVER_ERROR out of memory" (buffer.take totalRead) ∨
        starts "SERVER_ERROR Out of memory" (buffer.take totalRead) then
      reply (return .serverMemoryAllocationFailure)
    else reply (setErrorText .serverError (errorText "SERVER_ERROR" buffer))
  else if starts "STOR" buffer then reply (return .stored)
  else if starts "DELETED" buffer then reply (return .deleted)
  else if starts "NOT_FOUND" buffer then reply (return .notFound)
  else if starts "NOT_STORED" buffer then reply (return .notStored)
  else if starts "END" buffer then reply (return .end_)
  else if starts "ERROR" buffer then reply (return .error)
  else if starts "EXISTS" buffer then reply (return .dataExists)
  else if starts "TOUCHED" buffer then reply (return .success)
  else if starts "ITEM" buffer then reply (counted .item)
  else if starts "CLIENT_ERROR" buffer then
    reply (setErrorText .clientError (errorText "CLIENT_ERROR" buffer))
  else if (buffer.head?.map isDigit).getD false then
    match strtoull buffer with
    | (_, _, true) => do
      let rc ← setErrorText .unknownReadFailure "Numeric response was out of range"
      return ⟨rc, buffer, { result with numericValue := 2 ^ 64 - 1 }⟩
    | (n, _, false) => return ⟨.success, buffer, { result with numericValue := n }⟩
  else do
    let rc ← setErrorText .unknownReadFailure (textOf (buffer.take totalRead))
    return ⟨rc, buffer.set totalRead 0, result⟩

/-- The caller's buffer once a line was copied into it. -/
def overlay (line buffer : Bytes) : Bytes := line ++ buffer.drop line.length

/-- `textual_read_one_response`. -/
def textualReadOneResponse (bufferLength : Nat) (buffer : Bytes) (result : Result) :
    Act κ Reply := do
  let (rc, line) ← memcachedIoReadline K bufferLength
  let buffer := overlay (line.map (·.byte)) buffer
  if rc.isFailed then return ⟨rc, buffer, result⟩
  else
    modify fun s => { s with lastReply := line }
    textualDispatch K buffer line.length result

/-! ## The binary protocol -/

/-- The commands of the binary protocol that the client sends or distinguishes in an answer. -/
inductive Opcode where
  | set | add | replace | delete | increment | decrement | quit | flush | noop | version | getk
  | getkq | append | prepend | stat | setq | addq | replaceq | deleteq | incrementq | decrementq
  | flushq | appendq | prependq | touch | saslListMechs | saslAuth | saslStep
  deriving DecidableEq

def Opcode.toByte : Opcode → UInt8
  | set => 0x01 | add => 0x02 | replace => 0x03 | delete => 0x04 | increment => 0x05
  | decrement => 0x06 | quit => 0x07 | flush => 0x08 | noop => 0x0a | version => 0x0b
  | getk => 0x0c | getkq => 0x0d | append => 0x0e | prepend => 0x0f | stat => 0x10 | setq => 0x11
  | addq => 0x12 | replaceq => 0x13 | deleteq => 0x14 | incrementq => 0x15 | decrementq => 0x16
  | flushq => 0x18 | appendq => 0x19 | prependq => 0x1a | touch => 0x1c | saslListMechs => 0x20
  | saslAuth => 0x21 | saslStep => 0x22

/-- The command a byte stands for, if it is one of those above. -/
def Opcode.ofByte? : UInt8 → Option Opcode
  | 0x01 => some set | 0x02 => some add | 0x03 => some replace | 0x04 => some delete
  | 0x05 => some increment | 0x06 => some decrement | 0x07 => some quit | 0x08 => some flush
  | 0x0a => some noop | 0x0b => some version | 0x0c => some getk | 0x0d => some getkq
  | 0x0e => some append | 0x0f => some prepend | 0x10 => some stat | 0x11 => some setq
  | 0x12 => some addq | 0x13 => some replaceq | 0x14 => some deleteq | 0x15 => some incrementq
  | 0x16 => some decrementq | 0x18 => some flushq | 0x19 => some appendq | 0x1a => some prependq
  | 0x1c => some touch | 0x20 => some saslListMechs | 0x21 => some saslAuth | 0x22 => some saslStep
  | _ => none

/-- A number in network byte order. -/
def bigEndian (bytes : Bytes) : Nat := bytes.foldl (fun n b => 256 * n + b.toNat) 0

/-- The lowest bytes of a number in network byte order. -/
def toBigEndian (width n : Nat) : Bytes :=
  (List.range width).reverse.map fun i => UInt8.ofNat (n / 256 ^ i % 256)

/-- `protocol_binary_response_header`, in host byte order. -/
structure Header where
  magic : UInt8
  opcode : UInt8
  keylen : Nat
  extlen : Nat
  status : Nat
  bodylen : Nat
  cas : Nat

def Header.ofBytes (bytes : Bytes) : Header where
  magic := bytes.getD 0 0
  opcode := bytes.getD 1 0
  keylen := bigEndian ((bytes.drop 2).take 2)
  extlen := (bytes.getD 4 0).toNat
  status := bigEndian ((bytes.drop 6).take 2)
  bodylen := bigEndian ((bytes.drop 8).take 4)
  cas := bigEndian ((bytes.drop 16).take 8)

/-- The length of a header. -/
def headerLength : Nat := 24

/-- `PROTOCOL_BINARY_RESPONSE_AUTH_CONTINUE`. -/
def authContinueStatus : Nat := 0x21

/-- The end of `binary_read_one_response`: the code for a status. -/
def binaryStatus (status : Nat) : Act κ ReturnT :=
  match status with
  | 0x00 => return .success
  | 0x01 => return .notFound
  | 0x02 => return .dataExists
  | 0x05 => return .notStored
  | 0x03 => return .e2big
  | 0x82 => return .memoryAllocationFailure
  | 0x21 => return .authContinue
  | 0x20 => return .authFailure
  | _ => setError .unknownReadFailure

/-- The bytes of `cells`. -/
def bytesOf (cells : List InByte) : Bytes := cells.map (·.byte)

/-- A read inside a packet: if it fails the packet is answered with `UNKNOWN_READ_FAILURE`. -/
def readPart (size : Nat) (onFail : Act κ Reply) (f : Bytes → Act κ Reply) : Act κ Reply := do
  let (rc, cells) ← memcachedSafeRead K size
  if rc = .success then f (bytesOf cells) else onFail

/-- The answer to `GETK` or `GETKQ`: flags, key and value. Lengths are 32-bit numbers. -/
def binaryValue (header : Header) (buffer : Bytes) : Act κ Reply :=
  let result : Result := { itemCas := header.cas }
  let fail (result : Result) : Act κ Reply := return ⟨.unknownReadFailure, buffer, result⟩
  readPart K 4 (fail result) fun flags =>
    let result := { result with itemFlags := bigEndian flags }
    readPart K header.keylen (fail result) fun key => do
      let s ← get
      let ns := (s.memc.namespace_.getD []).length
      if key ≠ [] ∧ ns ≠ 0 ∧ key.length ≤ ns then do
        let rc ← setError .unknownReadFailure
        return ⟨rc, buffer, { result with itemKey := key }⟩
      else
        let result := { result with itemKey := key.drop ns }
        let bodylen := (header.bodylen + 2 ^ 33 - header.extlen - header.keylen) % 2 ^ 32
        readPart K bodylen (fail result) fun value => do
          let rc ← binaryStatus header.status
          return ⟨rc, buffer, { result with value := value }⟩

/-- The `switch` of `binary_read_one_response` for an answer that reports success. -/
def binarySuccess (header : Header) (bufferLength : Nat) (buffer : Bytes) (result : Result) :
    Act κ Reply :=
  let fail (result : Result) : Act κ Reply := return ⟨.unknownReadFailure, buffer, result⟩
  let finish (buffer : Bytes) (result : Result) : Act κ Reply := do
    let rc ← binaryStatus header.status
    return ⟨rc, buffer, result⟩
  match Opcode.ofByte? header.opcode with
  | some .getkq => do
    responseIncrement
    binaryValue K header buffer
  | some .getk => binaryValue K header buffer
  | some .increment | some .decrement =>
    let refused := { result with numericValue := 2 ^ 64 - 1 }
    if header.bodylen ≠ 8 then do
      let rc ← setError .unknownReadFailure
      return ⟨rc, buffer, refused⟩
    else readPart K 8 (fail refused) fun value =>
      finish buffer { result with numericValue := bigEndian value }
  | some .saslListMechs =>
    if header.keylen ≠ 0 ∨ bufferLength < (header.bodylen + 1) % 2 ^ 32 then fail result
    else readPart K header.bodylen (fail result) fun mechs => finish (overlay mechs buffer) result
  | some .version =>
    readPart K header.bodylen (fail result) fun text => do
      let rc ← readVersion text
      if rc = .success then finish buffer result else return ⟨rc, buffer, result⟩
  | some .touch => do
    let (rc, _) ← (if header.bodylen = 4 then memcachedSafeRead K 4 else pure (.success, []))
    let rc ← setError rc
    return ⟨rc, buffer, result⟩
  | some .flush | some .quit | some .set | some .add | some .replace | some .append | some .prepend
  | some .delete => return ⟨.success, buffer, result⟩
  | some .noop => return ⟨.end_, buffer, result⟩
  | some .stat =>
    if header.bodylen = 0 then return ⟨.end_, buffer, result⟩
    else if bufferLength < (header.bodylen + 1) % 2 ^ 32 then fail result
    else
      let zeros := List.replicate bufferLength 0
      readPart K header.keylen (return ⟨.unknownReadFailure, zeros, result⟩) fun key =>
        readPart K ((2 ^ 64 + header.bodylen - header.keylen) % 2 ^ 64)
          (return ⟨.unknownReadFailure, overlay key zeros, result⟩) fun value =>
          finish (overlay (key ++ [0] ++ value) zeros) result
  | some .saslAuth | some .saslStep =>
    readPart K header.bodylen (fail { itemCas := header.cas }) fun value =>
      finish buffer { itemCas := header.cas, value := value }
  | _ => do
    let rc ← setError .unknownReadFailure
    return ⟨rc, buffer, result⟩

/-- The body of an error is thrown away, at most `SMALL_STRING_LEN` bytes at a time. -/
def drainBody : Nat → Nat → Act κ ReturnT
  | _, 0 => return .success
  | 0, _ + 1 => failure
  | fuel + 1, bodylen + 1 => do
    let nr := min (bodylen + 1) smallStringLen
    let (rc, _) ← memcachedSafeRead K nr
    if rc = .success then drainBody fuel (bodylen + 1 - nr) else setError .unknownReadFailure

/-- The quiet commands whose errors `binary_read_one_response` throws away. -/
def skipsError (opcode : UInt8) : Bool :=
  match Opcode.ofByte? opcode with
  | some .setq | some .addq | some .replaceq | some .appendq | some .prependq => true
  | _ => false

/-- `binary_read_one_response`. -/
def binaryReadOneResponse (bufferLength : Nat) (buffer : Bytes) (result : Result) :
    Act κ Reply := do
  let (rc, cells) ← memcachedSafeRead K headerLength
  if rc ≠ .success then return ⟨rc, buffer, result⟩
  else
    modify fun s => { s with lastReply := cells }
    let header := Header.ofBytes (bytesOf cells)
    if header.magic ≠ 0x81 then
      let rc ← setError .unknownReadFailure
      return ⟨rc, buffer, result⟩
    else if header.status = 0 ∨ header.status = authContinueStatus then
      binarySuccess K header bufferLength buffer result
    else
      let rc ← drainBody K header.bodylen header.bodylen
      if rc ≠ .success then return ⟨rc, buffer, result⟩
      else if header.bodylen ≠ 0 ∧ skipsError header.opcode then
        return ⟨.fetchNotFinished, buffer, result⟩
      else
        let rc ← binaryStatus header.status
        return ⟨rc, buffer, result⟩

/-! ## One response of either protocol -/

/-- The loop of `_read_one_response` over the errors of quiet commands. -/
def binaryReadLoop (bufferLength : Nat) : Nat → Bytes → Result → Act κ Reply
  | 0, _, _ => failure
  | fuel + 1, buffer, result => do
    let reply ← binaryReadOneResponse K bufferLength buffer result
    if reply.rc = .fetchNotFinished then binaryReadLoop bufferLength fuel reply.buffer reply.result
    else return reply

/-- `_read_one_response`. Each round of the loop takes a header from the bytes that can still be
read. -/
def readOneResponse (bufferLength : Nat) (buffer : Bytes) (result : Result) : Act κ Reply := do
  responseDecrement
  let s ← get
  let reply ←
    (if s.memc.flags.binaryProtocol then
      binaryReadLoop K bufferLength (s.readBuffer.length + K.supply s.net + 1) buffer result
    else textualReadOneResponse K bufferLength buffer result)
  let _ ← (if reply.rc.isFatal then closeSocket K else pure ())
  return reply

/-- `memcached_read_one_response`, on a line buffer that holds `buffer`. -/
def memcachedReadOneResponse (buffer : Bytes) (result : Result) : Act κ Reply :=
  readOneResponse K smallStringLen buffer result

end LM
