import LibMemcached.Impl.Commands

/-!
# Getting items

`get.cc`, `memcached_flush_buffers`, `memcached_io_get_readable_server` from `io.cc`, and
`memcached_fetch` and `memcached_fetch_result` from `fetch.cc`, without callbacks.

A `get` of the text protocol is written in pieces, among those of other servers. Its last byte
carries the command as everywhere, with the bytes that were written since the last command ended.
-/

namespace LM

variable {κ α : Type} (K : Kernel κ)

/-- `memcached_server_response_reset`. -/
def responseReset : Act κ Unit := modify fun s => { s with cursorActive := 0 }

/-- A loop over servers, with the variables it changes. -/
def foldServers (f : α → Act κ α) : List Nat → α → Query κ α
  | [], a => return a
  | k :: ks, a => do
    let a ← onServer k (f a)
    foldServers f ks a

/-- The numbers of the servers. -/
def servers : Query κ (List Nat) := do
  let c ← get
  return List.range c.memc.serverCount

/-- `memcached_key_test` of several keys. -/
def keyTests : List Bytes → Memcached → ReturnT × Memcached
  | [], memc => (.success, memc)
  | key :: keys, memc =>
    match memc.keyTest key with
    | (rc, memc) => if rc.isFailed then (rc, memc) else keyTests keys memc

/-! ## What is left of earlier calls -/

/-- The loop that reads the answers of earlier calls on one server. -/
def drainResponses : Nat → Act κ Unit
  | 0 => failure
  | fuel + 1 => do
    let s ← get
    if s.cursorActive = 0 then return ()
    else
      let _ ← memcachedResponse K defaultCommandSize
      drainResponses fuel

/-- The body of the loop of `mget_by_key_real` over the servers that removes what is in the queue. A
response takes a byte from the stream or closes the connection. -/
def clearQueue : Act κ Unit := do
  let s ← get
  if s.cursorActive = 0 then return ()
  else
    let _ ← (if s.memc.flags.noBlock || s.memc.flags.bufferRequests then memcachedIoWrite K [] true
      else pure true)
    let s ← get
    drainResponses K (s.readBuffer.length + K.supply s.net + s.cursorActive + 1)

/-! ## The text protocol -/

/-- Bytes that do not end a command. -/
def untagged (bytes : Bytes) : List OutByte := bytes.map fun b => ⟨b, none⟩

/-- The bytes that were written since the last command ended. -/
def openBytes (copied : List OutByte) : Bytes :=
  (copied.reverse.takeWhile (·.ends.isNone)).reverse.map (·.byte)

/-- The local variables of `mget_by_key_real`. -/
structure Mget where
  rc : ReturnT := .success
  hostsConnected : Nat := 0
  failuresOccuredInSending : Bool := false

/-- The beginning of a `get` command, if the server has none yet: whether to go on with the key. -/
def startGet (getCommand : Bytes) (m : Mget) : Act κ (Bool × Mget) := do
  let s ← get
  if s.cursorActive = 0 then
    let rc ← memcachedConnect K
    if rc.isFailed then
      let _ ← setError rc
      return (false, { m with rc := rc })
    else
      let m := { m with rc := rc, hostsConnected := m.hostsConnected + 1 }
      if ← memcachedIoWritev K [untagged getCommand] false then
        responseIncrement
        return (true, m)
      else return (false, { m with failuresOccuredInSending := true })
  else return (true, m)

/-- The loop body for one key, on the server it was routed to. -/
def addKey (getCommand key : Bytes) (m : Mget) : Act κ Mget := do
  let (started, m) ← startGet K getCommand m
  if started then
    let s ← get
    if ← memcachedIoWritev K
        [untagged (ascii " "), untagged s.memc.keyNamespace, untagged key] false then
      return m
    else
      responseReset
      return { m with failuresOccuredInSending := true }
  else return m

/-- The server of the key number `x`. -/
def keyServer (H : Hashkit.Hashes) (env : Nat → Env) (master : Option Nat) (x : Nat) (key : Bytes) :
    Query κ Nat :=
  match master with
  | some k => return k
  | none => serverKey H (env x) key

/-- The loop over the keys, from number `x` on. -/
def sendKeys (H : Hashkit.Hashes) (env : Nat → Env) (master : Option Nat) (getCommand : Bytes) :
    Nat → List Bytes → Mget → Query κ Mget
  | _, [], m => return m
  | x, key :: keys, m => do
    let k ← keyServer H env master x key
    let m ← onServer k (addKey K getCommand key m)
    sendKeys H env master getCommand (x + 1) keys m

/-- The end of the command, on a server that has one: whether one was sent, and whether one was
not. -/
def endGet (done : Bool × Bool) : Act κ (Bool × Bool) := do
  let s ← get
  if s.cursorActive = 0 then return done
  else
    set { s with issued := s.issued + 1 }
    if ← memcachedIoWrite K
        [⟨13, none⟩, ⟨10, some ⟨s.issued, false, openBytes s.copied ++ [13, 10]⟩⟩] true then
      return (true, done.2)
    else return (done.1, true)

/-- The rest of `mget_by_key_real` for the text protocol. -/
def asciiMget (H : Hashkit.Hashes) (env : Nat → Env) (master : Option Nat) (keys : List Bytes) :
    Query κ ReturnT := do
  let c ← get
  let getCommand := ascii (if c.memc.flags.supportCas then "gets" else "get")
  let m ← sendKeys K H env master getCommand 0 keys {}
  if m.hostsConnected = 0 then
    if m.rc.isFailed then return m.rc else onClient fun memc => memc.setError .noServers ""
  else
    let (success, failures) ← foldServers (endGet K) (← servers) (false, false)
    if (m.failuresOccuredInSending || failures) && success then return .someErrors
    else if success then return .success
    else return .failure

/-! ## The binary protocol -/

/-- The loop body of `memcached_flush_buffers`: the return code, and whether it was returned. -/
def flushBuffer (ret : ReturnT × Bool) : Act κ (ReturnT × Bool) := do
  let s ← get
  if ret.2 ∨ s.writeBuffer = [] then return ret
  else
    let rc ← (if !s.valid then memcachedConnect K else pure ret.1)
    if !s.valid ∧ rc ≠ .success then return (rc, true)
    else if ← memcachedIoWrite K [] true then return (rc, false)
    else return (.someErrors, false)

/-- `memcached_flush_buffers`. -/
def memcachedFlushBuffers : Query κ ReturnT := do
  let ret ← foldServers (flushBuffer K) (← servers) (.success, false)
  return ret.1

/-- A request for one key. -/
def getRequest (ns key : Bytes) (opcode : Opcode) (requestId : UInt32) : List Bytes :=
  let keylen := key.length + ns.length
  [requestHeader opcode requestId keylen 0 keylen 0, ns, key]

/-- A request is written, and is from then on the last one. -/
def writeRequest (quiet : Bool) (vector : List Bytes) (withFlush : Bool) : Act κ Bool := do
  let s ← get
  set { s with issued := s.issued + 1 }
  memcachedIoWritev K (pieces vector (command ⟨s.issued, quiet, vector.flatten⟩)) withFlush

/-- The loop body of `simple_binary_mget` for one key: the return code, and whether the loop goes
on to flush. -/
def binaryAddKey (mgetMode flush : Bool) (key : Bytes) (rc : ReturnT) : Act κ (ReturnT × Bool) := do
  let s ← get
  let rc ← (if s.cursorActive = 0 then memcachedConnect K else pure rc)
  if s.cursorActive = 0 ∧ rc.isFailed then return (rc, false)
  else
    let requestId ← initializeBinaryRequest
    let vector :=
      getRequest s.memc.keyNamespace key (if mgetMode then .getkq else .getk) requestId
    if ← writeRequest K mgetMode vector flush then
      responseReset
      responseIncrement
      return (rc, true)
    else
      responseReset
      return (.someErrors, false)

/-- The loop over the keys, from number `x` on. -/
def binarySendKeys (H : Hashkit.Hashes) (env : Nat → Env) (master : Option Nat)
    (mgetMode flush : Bool) : Nat → List Bytes → ReturnT → Query κ ReturnT
  | _, [], rc => return rc
  | x, key :: keys, rc => do
    let k ← keyServer H env master x key
    let (rc, sent) ← onServer k (binaryAddKey K mgetMode flush key rc)
    let c ← get
    let flushed ←
      (if sent ∧ 0 < x ∧ x = c.memc.ioKeyPrefetch.toNat then memcachedFlushBuffers K
      else pure .success)
    binarySendKeys H env master mgetMode flush (x + 1) keys
      (if flushed = .success then rc else .someErrors)

/-- The `NOOP` behind the requests of one server. -/
def sendNoop (rc : ReturnT) : Act κ ReturnT := do
  let s ← get
  if s.cursorActive = 0 then return rc
  else
    let requestId ← initializeBinaryRequest
    let sent ← (do
      if ← memcachedIoWrite K [] true then
        writeRequest K false [requestHeader .noop requestId 0 0 0 0] true
      else return false)
    if sent then return rc
    else
      closeSocket K
      return .someErrors

/-- `simple_binary_mget`. -/
def simpleBinaryMget (H : Hashkit.Hashes) (env : Nat → Env) (master : Option Nat)
    (keys : List Bytes) (mgetMode : Bool) : Query κ ReturnT := do
  let rc ← onClient (keyTests keys)
  if rc.isFailed then return rc
  else
    let rc ← binarySendKeys K H env master mgetMode (keys.length == 1) 0 keys rc
    if mgetMode then do
      foldServers (sendNoop K) (← servers) rc
    else return rc

/-- The variables of `replication_binary_mget`: where each key is still to be asked for (or the
number of servers, once it was), the servers that failed, and whether this round succeeded. -/
structure Replication where
  hash : List Nat
  dead : List Nat := []
  success : Bool := true

/-- The server that `replication_binary_mget` asks for a key in round `replica`. The sums are 32-bit ones. -/
def replicaServer (count replicas start : Nat) (randomizeRead : Bool) (home replica : Nat) : Nat :=
  let server := (home + replica) % 2 ^ 32
  let shifted := (server + start) % 2 ^ 32
  (if randomizeRead && shifted ≤ (home + replicas) % 2 ^ 32 then shifted else server) % count

/-- A key is asked for on one server: whether the request was sent. -/
def askReplica (key : Bytes) : Act κ Bool := do
  let s ← get
  let rc ← (if s.cursorActive = 0 then memcachedConnect K else pure .success)
  if rc.isFailed then
    closeSocket K
    return false
  else
    let requestId ← initializeBinaryRequest
    if ← writeRequest K false (getRequest s.memc.keyNamespace key .getk requestId) true then
      responseIncrement
      return true
    else
      closeSocket K
      return false

/-- One key in one round of `replication_binary_mget`. -/
def replicaKey (count replicas replica start : Nat) (randomizeRead : Bool) (x : Nat) (key : Bytes)
    (r : Replication) : Query κ Replication := do
  let home := r.hash.getD x count
  let server := replicaServer count replicas start randomizeRead home replica
  if home = count ∨ server ∈ r.dead then return r
  else if ← onServer server (askReplica K key) then return { r with hash := r.hash.set x count }
  else return { r with dead := server :: r.dead, success := false }

/-- The keys of one round. -/
def replicaKeys (count replicas replica start : Nat) (randomizeRead : Bool) :
    Nat → List Bytes → Replication → Query κ Replication
  | _, [], r => return r
  | x, key :: keys, r => do
    let r ← replicaKey K count replicas replica start randomizeRead x key r
    replicaKeys count replicas replica start randomizeRead (x + 1) keys r

/-- `replication_binary_mget`, with `n` rounds left. What it returns is not used. -/
def replicationBinaryMget (count replicas start : Nat) (randomizeRead : Bool) (keys : List Bytes) :
    Nat → Replication → Query κ Unit
  | 0, _ => return ()
  | n + 1, r => do
    let r ← replicaKeys K count replicas (replicas - n) start randomizeRead 0 keys
      { r with success := true }
    if r.success then return ()
    else replicationBinaryMget count replicas start randomizeRead keys n r

/-- The servers of the keys, from number `x` on. -/
def keyServers (H : Hashkit.Hashes) (env : Nat → Env) (master : Option Nat) :
    Nat → List Bytes → Query κ (List Nat)
  | _, [] => return []
  | x, key :: keys => do
    let k ← keyServer H env master x key
    let ks ← keyServers H env master (x + 1) keys
    return k :: ks

/-- `binary_mget_by_key`. -/
def binaryMgetByKey (H : Hashkit.Hashes) (env : Nat → Env) (master : Option Nat)
    (keys : List Bytes) (mgetMode : Bool) : Query κ ReturnT := do
  let c ← get
  if c.memc.numberOfReplicas = 0 then simpleBinaryMget K H env master keys mgetMode
  else
    let hash ← keyServers H env master 0 keys
    let replicas := c.memc.numberOfReplicas.toNat
    let randomizeRead := c.memc.flags.randomizeReplicaRead
    let start := if randomizeRead then (env keys.length).random % (replicas + 1) else 0
    replicationBinaryMget K c.memc.serverCount replicas start randomizeRead keys (replicas + 1)
      { hash := hash }
    return .success

/-! ## `memcached_mget` -/

/-- `mget_by_key_real`. The key number `x` finds the surroundings `env x`; a group key is only routed
by if it is not empty. -/
def mgetByKeyReal (H : Hashkit.Hashes) (env : Nat → Env) (groupKey : Bytes) (keys : List Bytes)
    (mgetMode : Bool) : Query κ ReturnT := do
  let rc ← initializeQuery
  if rc.isFailed then return rc
  else
    let c ← get
    if c.memc.flags.useUdp then onClient fun memc => memc.setError .notSupported ""
    else if keys = [] then
      onClient fun memc => memc.setError .invalidArguments "Numbers of keys provided was zero"
    else
      let rc ← onClient (keyTests keys)
      if rc.isFailed then return rc
      else
        let master ← (if groupKey = [] then pure none else some <$> serverKey H (env 0) groupKey)
        foldServers (fun _ => clearQueue K) (← servers) ()
        let c ← get
        if c.memc.flags.binaryProtocol then binaryMgetByKey K H env master keys mgetMode
        else asciiMget K H env master keys

/-- `memcached_mget_by_key`. -/
def memcachedMgetByKey (H : Hashkit.Hashes) (env : Nat → Env) (groupKey : Bytes)
    (keys : List Bytes) : Query κ ReturnT :=
  mgetByKeyReal K H env groupKey keys true

/-- `memcached_mget`. -/
def memcachedMget (H : Hashkit.Hashes) (env : Nat → Env) (keys : List Bytes) : Query κ ReturnT :=
  memcachedMgetByKey K H env [] keys

/-! ## Fetching -/

/-- `MAX_SERVERS_TO_POLL`. -/
def maxServersToPoll : Nat := 100

/-- What `poll` reports on several sockets, given by the numbers of their servers: those that are
ready for reading (none if the time is up), or an error. It may depend on all that happened. -/
abbrev Poller (κ : Type) : Type := Client κ → List Nat → Except Errno (List Nat)

/-- The first loop of `memcached_io_get_readable_server`, from server `x` on: a server with data in
its buffer, or the servers to poll. -/
def scanServers : Nat → List (Conn κ) → List Nat → Nat ⊕ List Nat
  | _, [], polled => .inr polled
  | x, conn :: conns, polled =>
    if maxServersToPoll ≤ polled.length then .inr polled
    else if conn.readBuffer ≠ [] then .inl x
    else scanServers (x + 1) conns (if 0 < conn.cursorActive then polled ++ [x] else polled)

/-- `memcached_io_get_readable_server`. -/
def memcachedIoGetReadableServer (poller : Poller κ) : Query κ (Option Nat) := do
  let c ← get
  match scanServers 0 c.conns [] with
  | .inl k => return some k
  | .inr polled =>
    if polled.length < 2 then
      return (c.conns.findIdx? fun conn => 0 < conn.cursorActive)
    else
      match poller c polled with
      | .error e =>
        set { c with memc := c.memc.errorSet e.toReturn "" }
        return none
      | .ok ready => return polled.find? (· ∈ ready)

/-- `memcached_response` into a result of the caller: the code and the result. -/
def responseInto (bufferLength : Nat) (result : Result) : Act κ (ReturnT × Result) := do
  let own ← get
  set { own with result := result }
  let rc ← memcachedResponse K bufferLength
  let s ← get
  set { s with result := own.result }
  return (rc, s.result)

/-- The variables of `memcached_fetch_result`. -/
structure Fetch where
  error : ReturnT := .maximumReturn
  connectionFailures : Bool := false
  timeouts : Bool := false
  result : Result

/-- The loop of `memcached_fetch_result`: true if it returns the result. -/
def fetchLoop (poller : Poller κ) : Nat → Fetch → Query κ (Bool × Fetch)
  | 0, _ => failure
  | fuel + 1, f => do
    match ← memcachedIoGetReadableServer poller with
    | none => return (false, f)
    | some k =>
      let (rc, result) ← onServer k (responseInto K defaultCommandSize f.result)
      let f := { f with error := rc, result := result }
      match rc with
      | .inProgress => fetchLoop poller fuel f
      | .connectionFailure => fetchLoop poller fuel { f with connectionFailures := true }
      | .timeout => fetchLoop poller fuel { f with timeouts := true }
      | .success => return (true, f)
      | .end_ => do
        onServer k responseReset
        fetchLoop poller fuel f
      | .notFound => fetchLoop poller fuel f
      | _ => return (false, f)

/-- The error of `memcached_fetch_result` when there is no result. -/
def Fetch.lastError (f : Fetch) (count : Nat) : ReturnT :=
  if f.error = .notFound ∧ count ≠ 0 then .end_
  else if f.error = .maximumReturn ∧ count ≠ 0 then .end_
  else if f.error = .maximumReturn then .notFound
  else if f.connectionFailures then .connectionFailure
  else if f.timeouts then .timeout
  else if f.error = .success then .end_
  else if count = 0 then .notFound
  else f.error

/-- `memcached_fetch_result` with a result of the caller that counts `count` items: the result if
there is one, the error, and the new count. A round of the loop reads a response or closes a
connection. -/
def memcachedFetchResult (poller : Poller κ) (result : Result) (count : Nat) :
    Query κ (Option Result × ReturnT × Nat) := do
  let c ← get
  let fuel := (c.conns.map fun conn =>
    conn.readBuffer.length + K.supply conn.net + conn.cursorActive).sum + 1
  let (found, f) ← fetchLoop K poller fuel { result := result }
  if found then return (some f.result, .success, count + 1)
  else return (none, f.lastError count, 0)

/-- `memcached_fetch` into the result of the client, which counts `count` items: the value and the flags
of an item, if there is one, and the error. The value is taken out of the result. -/
def memcachedFetch (poller : Poller κ) (count : Nat) : Query κ (Option (Bytes × Nat) × ReturnT) := do
  let c ← get
  if c.memc.flags.useUdp then return (none, .notSupported)
  else
    let (result, rc, _) ← memcachedFetchResult K poller c.result count
    match result with
    | none =>
      modify fun c => { c with result.value := [] }
      return (none, rc)
    | some result =>
      modify fun c => { c with result := { result with value := [] } }
      return (some (result.value, result.itemFlags), rc)

/-- `memcached_has_current_error`. -/
def Memcached.hasCurrentError (memc : Memcached) : Bool :=
  match memc.errorMessages with
  | e :: _ => e.queryId == memc.queryId && e.rc.isFailed
  | [] => false

/-- `memcached_get_by_key`: the value and the flags, if there are any, and the error. -/
def memcachedGetByKey (H : Hashkit.Hashes) (env : Nat → Env) (poller : Poller κ)
    (groupKey key : Bytes) : Query κ (Option (Bytes × Nat) × ReturnT) := do
  let rc ← mgetByKeyReal K H env groupKey [key] false
  if rc.isFailed then
    let c ← get
    return (none, if c.memc.hasCurrentError then c.memc.lastError else rc)
  else
    let (value, rc) ← memcachedFetch K poller 0
    return (value, if rc = .end_ then .notFound else rc)

/-- `memcached_get`. -/
def memcachedGet (H : Hashkit.Hashes) (env : Nat → Env) (poller : Poller κ) (key : Bytes) :
    Query κ (Option (Bytes × Nat) × ReturnT) :=
  memcachedGetByKey K H env poller [] key

/-- A caller that fetches until there is no more, and hands over the result `own` chooses from those
it got so far, with its count. -/
def fetchAll (poller : Poller κ) (own : List Result → Result × Nat) :
    Nat → List Result → Query κ (List Result)
  | 0, _ => failure
  | fuel + 1, fetched => do
    let (result, _) ← memcachedFetchResult K poller (own fetched).1 (own fetched).2
    match result with
    | none => return fetched
    | some result => fetchAll poller own fuel (fetched ++ [result])

/-- A caller that fetches with one result until there is no more: the error of the last call. -/
def fetchRest (poller : Poller κ) : Nat → Result → Nat → Query κ ReturnT
  | 0, _, _ => failure
  | fuel + 1, result, count => do
    let (found, rc, count) ← memcachedFetchResult K poller result count
    match found with
    | none => return rc
    | some result => fetchRest poller fuel result count

/-! ## All calls that send keys -/

/-- A call that sends keys, with its arguments. -/
inductive KeyCall where
  | item (call : ItemCall)
  | get (groupKey key : Bytes)
  | mget (groupKey : Bytes) (keys : List Bytes)

/-- The code a call returns. -/
def KeyCall.run (H : Hashkit.Hashes) (env : Nat → Env) (poller : Poller κ) : KeyCall → Query κ ReturnT
  | item call => Prod.fst <$> call.run K H (env 0)
  | get groupKey key => Prod.snd <$> memcachedGetByKey K H env poller groupKey key
  | mget groupKey keys => memcachedMgetByKey K H env groupKey keys

end LM
