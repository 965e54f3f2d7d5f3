import LibMemcached.Impl.Client

/-!
# The commands that change items

`storage.cc`, `delete.cc`, `auto.cc`, `touch.cc` and `exist.cc`, for both protocols, without UDP.
Every command is given by the pieces that are handed to `memcached_vdo`.
-/

namespace LM

variable {κ : Type} (K : Kernel κ)

/-- The namespace, which stands before every key that is sent. -/
def Memcached.keyNamespace (memc : Memcached) : Bytes := memc.namespace_.getD []

/-- `initialize_binary_request`: the number of the request. -/
def initializeBinaryRequest : Act κ UInt32 := do
  modify fun s => { s with requestId := s.requestId + 1 }
  let s ← get
  return s.requestId

/-- A request header. The number of the request is converted as a 16-bit number. -/
def requestHeader (opcode : Opcode) (requestId : UInt32) (keylen extlen bodylen cas : Nat) : Bytes :=
  [0x80, opcode.toByte] ++ toBigEndian 2 keylen ++ [UInt8.ofNat extlen, 0, 0, 0] ++
    toBigEndian 4 bodylen ++ toBigEndian 2 requestId.toNat ++ [0, 0] ++ toBigEndian 8 cas

/-! ## Storage -/

/-- `memcached_storage_action_t`. -/
inductive Verb where
  | set | replace | add | prepend | append | cas
  deriving DecidableEq

/-- `storage_op_string`. -/
def Verb.opString : Verb → String
  | replace => "replace "
  | add => "add "
  | prepend => "prepend "
  | append => "append "
  | cas => "cas "
  | set => "set "

/-- `get_com_code`. -/
def Verb.comCode (verb : Verb) (reply : Bool) : Opcode :=
  if reply then
    match verb with
    | set => .set
    | add => .add
    | cas | replace => .replace
    | append => .append
    | prepend => .prepend
  else
    match verb with
    | set => .setq
    | add => .addq
    | cas | replace => .replaceq
    | append => .appendq
    | prepend => .prependq

/-- `can_be_encrypted`. -/
def Verb.canBeEncrypted : Verb → Bool
  | set | add | cas | replace => true
  | append | prepend => false

/-- What is stored: the arguments of the storage functions. -/
structure Item where
  key : Bytes
  value : Bytes
  expiration : Int := 0
  flags : UInt32 := 0
  cas : UInt64 := 0

/-- `" noreply"`, if no reply is wanted. -/
def noreply (reply : Bool) : Bytes := if reply then [] else ascii " noreply"

/-- The pieces of a storage command of the text protocol. -/
def asciiStorage (ns : Bytes) (item : Item) (reply : Bool) (verb : Verb) : List Bytes :=
  [[], ascii verb.opString, ns, item.key, spaced item.flags.toNat, spaced item.expiration,
    spaced item.value.length, if item.cas = 0 then [] else spaced item.cas.toNat, noreply reply,
    ascii "\r\n", item.value, ascii "\r\n"]

/-- `MEMCACHED_MAXIMUM_INTEGER_DISPLAY_LENGTH`. -/
def integerDisplayLength : Nat := 20

/-- Whether the numbers of a storage command fit into the buffers `memcached_send_ascii` has for
them, with the space before and the zero after them. -/
def storageFits (item : Item) : Bool :=
  (spaced item.flags.toNat).length < integerDisplayLength + 1 &&
    (spaced item.expiration).length < integerDisplayLength + 2 &&
    (spaced item.value.length).length < integerDisplayLength + 1 &&
    (item.cas = 0 || (spaced item.cas.toNat).length < integerDisplayLength + 1)

/-- `memcached_send_ascii`. -/
def memcachedSendAscii (item : Item) (flush reply : Bool) (verb : Verb) : Act κ ReturnT := do
  if !storageFits item then
    setErrorText .memoryAllocationFailure "snprintf(MEMCACHED_MAXIMUM_INTEGER_DISPLAY_LENGTH)"
  else
    let s ← get
    let rc ← memcachedVdo K (!reply) (asciiStorage s.memc.keyNamespace item reply verb) flush
    if !reply then return if rc.isSuccess then .success else rc
    else if !flush then return if rc.isSuccess then .buffered else rc
    else if rc = .success then
      let rc ← memcachedResponse K defaultCommandSize
      return if rc = .stored then .success else rc
    else return rc

/-- The pieces of a storage command of the binary protocol. Appending has no extras. -/
def binaryStorage (ns : Bytes) (item : Item) (verb : Verb) (opcode : Opcode) (requestId : UInt32) :
    List Bytes :=
  let extras :=
    if verb = .append ∨ verb = .prepend then []
    else toBigEndian 4 item.flags.toNat ++ toBigEndian 4 (item.expiration % 2 ^ 32).toNat
  let keylen := item.key.length + ns.length
  [[], requestHeader opcode requestId keylen extras.length
      (keylen + item.value.length + extras.length) item.cas.toNat ++ extras,
    ns, item.key, item.value]

/-- `server_key` of the next replica. -/
def nextServer (count k : Nat) : Nat := if k + 1 = count then 0 else k + 1

/-- The loop over the replicas of `memcached_send_binary` and `binary_delete`: the quiet command is
sent to each, and what `memcached_vdo` counted is taken back. -/
def replicate (vector : List Bytes) (flush : Bool) : Nat → Nat → Query κ Unit
  | 0, _ => return ()
  | n + 1, k => do
    let c ← get
    let k := nextServer c.memc.serverCount k
    let rc ← onServer k (memcachedVdo K true vector flush)
    let _ ← (if rc.isSuccess then onServer k responseDecrement else pure ())
    replicate vector flush n k

/-- `memcached_send_binary`. -/
def memcachedSendBinary (k : Nat) (item : Item) (flush reply : Bool) (verb : Verb) :
    Query κ ReturnT := do
  let c ← get
  let requestId ← onServer k initializeBinaryRequest
  let vector opcode := binaryStorage c.memc.keyNamespace item verb opcode requestId
  let rc ← onServer k (memcachedVdo K (!reply) (vector (verb.comCode reply)) flush)
  if rc ≠ .success then lastError
  else
    let _ ← (if verb = .set then replicate K (vector .setq) false c.memc.numberOfReplicas.toNat k
      else pure ())
    if !flush then return .buffered
    else if !reply then return .success
    else onServer k (memcachedResponse K 0)

/-- A value as it is sent, encrypted if there is a key; `none` if `hashkit_encrypt` has no behaviour to
speak of. -/
def Memcached.encrypted (memc : Memcached) (value : Bytes) : Option Bytes :=
  match memc.hashkit.key with
  | none => some value
  | some key => key.encrypt value

/-- The end of `memcached_send`, with the value as it is sent. -/
def sendItem (k : Nat) (item : Item) (verb : Verb) : Query κ ReturnT := do
  let c ← get
  let flush := !(c.memc.flags.bufferRequests && verb == .set)
  let reply := c.memc.flags.reply
  if c.memc.flags.binaryProtocol then memcachedSendBinary K k item flush reply verb
  else onServer k (memcachedSendAscii K item flush reply verb)

/-- `memcached_send`; `grows` tells whether the string for an encrypted value can be allocated. If not, what
is returned is the code of `initialize_query`. -/
def memcachedSendIn (grows : Bool) (H : Hashkit.Hashes) (env : Env) (groupKey : Bytes) (item : Item)
    (verb : Verb) : Query κ ReturnT := do
  let rc ← initializeQuery
  if rc.isFailed then return rc
  else
    let failed ← onClient fun memc => memc.keyTest item.key
    if failed.isFailed then lastError
    else
      let k ← serverKey H env groupKey
      let c ← get
      if c.memc.hashkit.key.isSome && !verb.canBeEncrypted then
        onClient fun memc => memc.setError .notSupported
          "Operation not allowed while encyrption is enabled"
      else if c.memc.hashkit.key.isSome && !grows then return rc
      else
        match c.memc.encrypted item.value with
        | none => failure
        | some value => sendItem K k { item with value := value } verb

/-- `memcached_send` where memory can be allocated. -/
def memcachedSend (H : Hashkit.Hashes) (env : Env) (groupKey : Bytes) (item : Item) (verb : Verb) :
    Query κ ReturnT :=
  memcachedSendIn K true H env groupKey item verb

/-! ## Deletion -/

/-- `ascii_delete`. -/
def asciiDelete (key : Bytes) (reply isBuffering : Bool) : Act κ ReturnT := do
  let s ← get
  memcachedVdo K (!reply)
    [[], ascii "delete ", s.memc.keyNamespace, key, noreply reply, ascii "\r\n"] (!isBuffering)

/-- The pieces of a deletion in the binary protocol. -/
def deleteRequest (ns key : Bytes) (opcode : Opcode) (requestId : UInt32) : List Bytes :=
  let keylen := key.length + ns.length
  [[], requestHeader opcode requestId keylen 0 keylen 0, ns, key]

/-- `binary_delete`. -/
def binaryDelete (k : Nat) (key : Bytes) (reply isBuffering : Bool) : Query κ ReturnT := do
  let c ← get
  let requestId ← onServer k initializeBinaryRequest
  let vector opcode := deleteRequest c.memc.keyNamespace key opcode requestId
  let rc ← onServer k
    (memcachedVdo K (!reply) (vector (if reply then .delete else .deleteq)) (!isBuffering))
  replicate K (vector .deleteq) (!isBuffering) c.memc.numberOfReplicas.toNat k
  return rc

/-- `memcached_delete_by_key` without a delete trigger. -/
def memcachedDelete (H : Hashkit.Hashes) (env : Env) (groupKey key : Bytes) (expiration : Int) :
    Query κ ReturnT := do
  let rc ← initializeQuery
  if rc.isFatal then return rc
  else
    let rc ← onClient fun memc => memc.keyTest key
    if rc.isFatal then lastError
    else if expiration ≠ 0 then
      onClient fun memc => memc.setError .invalidArguments
        "Memcached server version does not allow expiration of deleted items"
    else
      let k ← serverKey H env groupKey
      let c ← get
      let isBuffering := c.memc.flags.bufferRequests
      let isReplying := c.memc.flags.reply
      let rc ←
        (if c.memc.flags.binaryProtocol then binaryDelete K k key isReplying isBuffering
        else onServer k (asciiDelete K key isReplying isBuffering))
      if rc ≠ .success then return rc
      else if isBuffering then return .buffered
      else if !isReplying then return .success
      else
        let rc ← onServer k (memcachedResponse K defaultCommandSize)
        return if rc = .deleted then .success else rc

/-- What a deletion with a trigger returns: its code and the keys the trigger was called with. `answer` is
for statements: the answer that was read, if one could be read. -/
structure Deletion where
  rc : ReturnT
  triggered : List Bytes := []
  answer : Option (List InByte) := none

/-- `memcached_delete_by_key` with a delete trigger. -/
def memcachedDeleteTriggering (H : Hashkit.Hashes) (env : Env) (groupKey key : Bytes) (expiration : Int) :
    Query κ Deletion := do
  let refuse (message : String) : Query κ Deletion := do
    let rc ← onClient fun memc => memc.setError .invalidArguments message
    return ⟨rc, [], none⟩
  let rc ← initializeQuery
  if rc.isFatal then return ⟨rc, [], none⟩
  else
    let rc ← onClient fun memc => memc.keyTest key
    if rc.isFatal then return ⟨← lastError, [], none⟩
    else if expiration ≠ 0 then
      refuse "Memcached server version does not allow expiration of deleted items"
    else
      let k ← serverKey H env groupKey
      let c ← get
      if c.memc.flags.bufferRequests then
        refuse "Delete triggers cannot be used if buffering is enabled"
      else if !c.memc.flags.reply then
        refuse "Delete triggers cannot be used if MEMCACHED_BEHAVIOR_NOREPLY is set"
      else
        let rc ←
          (if c.memc.flags.binaryProtocol then binaryDelete K k key true false
          else onServer k (asciiDelete K key true false))
        if rc ≠ .success then return ⟨rc, [], none⟩
        else
          let rc ← onServer k (memcachedResponse K defaultCommandSize)
          let c ← get
          let answer := if rc.isFatal then none else c.answer
          return if rc = .deleted then ⟨.success, [key], answer⟩ else ⟨rc, [], answer⟩

/-! ## Increment and decrement -/

/-- `text_incr_decr`. -/
def textIncrDecr (isIncr : Bool) (key : Bytes) (offset : UInt64) (reply : Bool) : Act κ ReturnT := do
  let s ← get
  memcachedVdo K (!reply)
    [[], ascii (if isIncr then "incr " else "decr "), s.memc.keyNamespace, key,
      spaced offset.toNat, noreply reply, ascii "\r\n"] true

/-- `binary_incr_decr`. -/
def binaryIncrDecr (isIncr : Bool) (key : Bytes) (offset initial : UInt64) (expiration : UInt32)
    (reply : Bool) : Act κ ReturnT := do
  let opcode : Opcode :=
    if reply then if isIncr then .increment else .decrement
    else if isIncr then .incrementq else .decrementq
  let requestId ← initializeBinaryRequest
  let s ← get
  let keylen := key.length + s.memc.keyNamespace.length
  memcachedVdo K (!reply)
    [[], requestHeader opcode requestId keylen 20 (keylen + 20) 0 ++ toBigEndian 8 offset.toNat ++
        toBigEndian 8 initial.toNat ++ toBigEndian 4 expiration.toNat,
      s.memc.keyNamespace, key] true

/-- `auto_response`: the code and the value. -/
def autoResponse (reply : Bool) (rc : ReturnT) : Act κ (ReturnT × Option Nat) := do
  if rc.isSuccess && !reply then return (rc, some (2 ^ 64 - 1))
  else
    let rc ← (if rc.isSuccess then memcachedResponse K smallStringLen else pure rc)
    let s ← get
    return (rc, some (if rc.isFatal || rc.isFailed then 2 ^ 64 - 1 else s.result.numericValue))

/-- `MEMCACHED_EXPIRATION_NOT_ADD`. -/
def expirationNotAdd : UInt32 := 0xffffffff

/-- `increment_decrement_by_key` and `increment_decrement_with_initial_by_key`: the latter is given
the initial value and its expiration, and is refused in the text protocol. The value is `none` if it
was not written. -/
def incrementDecrement (H : Hashkit.Hashes) (env : Env) (isIncr : Bool) (groupKey key : Bytes)
    (offset : UInt64) (initial : Option (UInt64 × UInt32)) : Query κ (ReturnT × Option Nat) := do
  let rc ← initializeQuery
  if rc.isFailed then return (rc, none)
  else
    let c ← get
    if c.memc.hashkit.key.isSome then
      let rc ← onClient fun memc => memc.setError .notSupported
        (match initial with
        | none => "Operation not allowed while encyrption is enabled"
        | some _ => "Operation not allowed while encryption is enabled")
      return (rc, none)
    else
      let rc ← onClient fun memc => memc.keyTest key
      if rc.isFailed then
        let rc ← lastError
        return (rc, none)
      else
        let k ← serverKey H env groupKey
        let c ← get
        let reply := c.memc.flags.reply
        let rc ←
          (match initial with
          | none =>
            if c.memc.flags.binaryProtocol then
              onServer k (binaryIncrDecr K isIncr key offset 0 expirationNotAdd reply)
            else onServer k (textIncrDecr K isIncr key offset reply)
          | some (initial, expiration) =>
            if c.memc.flags.binaryProtocol then
              onServer k (binaryIncrDecr K isIncr key offset initial expiration reply)
            else onClient fun memc => memc.setError .invalidArguments
              "memcached_increment_with_initial_by_key() is not supported via the ASCII protocol")
        onServer k (autoResponse K reply rc)

/-! ## Touch -/

/-- `ascii_touch`. -/
def asciiTouch (key : Bytes) (expiration : Int) : Act κ ReturnT := do
  let s ← get
  let rc ← memcachedVdo K false
    [[], ascii "touch ", s.memc.keyNamespace, key, spaced expiration, ascii "\r\n"] true
  if rc.isFailed then setError .writeFailure else return rc

/-- `binary_touch`. -/
def binaryTouch (key : Bytes) (expiration : Int) : Act κ ReturnT := do
  let requestId ← initializeBinaryRequest
  let s ← get
  let keylen := key.length + s.memc.keyNamespace.length
  let rc ← memcachedVdo K false
    [[], requestHeader .touch requestId keylen 4 (keylen + 4) 0 ++
        toBigEndian 4 (expiration % 2 ^ 32).toNat, s.memc.keyNamespace, key] true
  if rc.isFailed then setError .writeFailure else return rc

/-- `memcached_touch_by_key`, once a server is chosen. -/
def touchOn (key : Bytes) (expiration : Int) : Act κ ReturnT := do
  let s ← get
  let rc ←
    (if s.memc.flags.binaryProtocol then binaryTouch K key expiration else asciiTouch K key expiration)
  if rc.isFailed then
    setErrorText rc "Error occcured while writing touch command to server"
  else
    let rc ← memcachedResponse K defaultCommandSize
    if rc = .success ∨ rc = .notFound then return rc
    else setErrorText rc "Error occcured while reading response"

/-- `memcached_touch_by_key`. -/
def memcachedTouch (H : Hashkit.Hashes) (env : Env) (groupKey key : Bytes) (expiration : Int) :
    Query κ ReturnT := do
  let rc ← initializeQuery
  if rc.isFailed then return rc
  else
    let rc ← onClient fun memc => memc.keyTest key
    if rc.isFailed then onClient fun memc => memc.setError rc ""
    else
      let k ← serverKey H env groupKey
      onServer k (touchOn K key expiration)

/-! ## Existence -/

/-- `ascii_exist`. -/
def asciiExist (key : Bytes) : Act κ ReturnT := do
  let s ← get
  let rc ← memcachedVdo K false
    [[], ascii "add ", s.memc.keyNamespace, key, ascii " 0", ascii " 2678400", ascii " 0",
      ascii "\r\n", ascii "\r\n"] true
  if rc.isFatal then return rc
  else
    let rc ← memcachedResponse K defaultCommandSize
    return if rc = .notStored then .success else if rc = .stored then .notFound else rc

/-- `binary_exist`. -/
def binaryExist (key : Bytes) : Act κ ReturnT := do
  let requestId ← initializeBinaryRequest
  let s ← get
  let keylen := key.length + s.memc.keyNamespace.length
  let rc ← memcachedVdo K false
    [[], requestHeader .add requestId keylen 8 (keylen + 8) 0 ++ toBigEndian 4 0 ++
        toBigEndian 4 2678400, s.memc.keyNamespace, key] true
  if rc.isFatal then return rc
  else
    let rc ← memcachedResponse K 0
    return if rc = .success then .notFound else if rc = .dataExists then .success else rc

/-- `memcached_exist_by_key`. The key is not tested. -/
def memcachedExist (H : Hashkit.Hashes) (env : Env) (groupKey key : Bytes) : Query κ ReturnT := do
  let rc ← initializeQuery
  if rc.isFailed then return rc
  else
    let c ← get
    if c.memc.flags.useUdp then onClient fun memc => memc.setError .notSupported ""
    else
      let k ← serverKey H env groupKey
      if c.memc.flags.binaryProtocol then onServer k (binaryExist K key)
      else onServer k (asciiExist K key)

/-! ## All of them -/

/-- A call of one of the functions above, with its arguments. -/
inductive ItemCall where
  | store (verb : Verb) (groupKey : Bytes) (item : Item)
  | delete (groupKey key : Bytes) (expiration : Int)
  | arith (isIncr : Bool) (groupKey key : Bytes) (offset : UInt64)
      (initial : Option (UInt64 × UInt32))
  | touch (groupKey key : Bytes) (expiration : Int)
  | exist (groupKey key : Bytes)

/-- The code a call returns and the number it writes, if it writes one. -/
def ItemCall.run (H : Hashkit.Hashes) (env : Env) : ItemCall → Query κ (ReturnT × Option Nat)
  | store verb groupKey item => (·, none) <$> memcachedSend K H env groupKey item verb
  | delete groupKey key expiration => (·, none) <$> memcachedDelete K H env groupKey key expiration
  | arith isIncr groupKey key offset initial =>
    incrementDecrement K H env isIncr groupKey key offset initial
  | touch groupKey key expiration => (·, none) <$> memcachedTouch K H env groupKey key expiration
  | exist groupKey key => (·, none) <$> memcachedExist K H env groupKey key

end LM
