import LibMemcached.Impl.Quit

/-!
# A get whose key is not there

`memcached_get_by_key` with a callback for keys that are not found. The callback supplies a value, which is
stored before it is returned; it may ask for the store to be buffered, and the client then works in the
buffering mode for the time of the store.

The assertions on the number of the query are evaluated where the source has them, and what follows a failed
one is what follows it in a build without assertions.
-/

namespace LM

variable {κ : Type} (K : Kernel κ) (shutdown : κ → κ)

/-- What a `memcached_trigger_key_fn` leaves: its code, and the value and the flags of the result. -/
structure KeyFailure where
  rc : ReturnT
  value : Bytes
  flags : UInt32 := 0

/-- `memcached_behavior_set` of `MEMCACHED_BEHAVIOR_BUFFER_REQUESTS`. -/
def setBufferRequests (H : Hashkit.Hashes) (env : Env) (data : UInt64) : Query κ ReturnT := do
  let rc ← onClient fun memc => memc.behaviorSet H env.now .bufferRequests data
  if rc.isSuccess then
    sendQuit K shutdown
    return rc
  else return rc

/-- `memcached_set`. -/
def memcachedSet (H : Hashkit.Hashes) (env : Env) (item : Item) : Query κ ReturnT :=
  memcachedSend K H env item.key item .set

/-- The value of a callback that succeeded is stored: the code of `memcached_set`. -/
def storeKeyFailure (H : Hashkit.Hashes) (env : Env) (key : Bytes) (result : KeyFailure) :
    Query κ ReturnT := do
  let item : Item := { key := key, value := result.value, flags := result.flags }
  if result.rc = .buffered then
    let c ← get
    let latch := c.memc.flags.bufferRequests
    let _ ← (if !latch then setBufferRequests K shutdown H env 1 else pure .success)
    let rc ← memcachedSet K H env item
    let _ ← (if rc = .buffered ∧ latch = false then setBufferRequests K shutdown H env 0
      else pure .success)
    return rc
  else memcachedSet K H env item

/-- What `memcached_get_by_key` returns. The fields after `error` are for statements: whether its assertions
have held, and the code of the nested `memcached_set`, if there was one. -/
structure GetOutcome where
  value : Option (Bytes × Nat)
  error : ReturnT
  asserted : Bool
  nested : Option ReturnT := none

/-- One of the assertions, after `asserted` of those before it. -/
def GetOutcome.assert (got : GetOutcome) (queryId : UInt64) : Query κ GetOutcome := do
  let c ← get
  return { got with asserted := got.asserted && c.memc.queryId == queryId + 1 }

/-- The end of `memcached_get_by_key` for a key that was not found, with the result of its callback. -/
def keyFailed (H : Hashkit.Hashes) (env : Env) (queryId : UInt64) (key : Bytes) (result : KeyFailure)
    (got : GetOutcome) : Query κ GetOutcome := do
  if result.rc = .success ∨ result.rc = .buffered then
    let rc ← storeKeyFailure K shutdown H env key result
    if rc = .success ∨ rc = .buffered then
      return { got with value := some (result.value, result.flags.toNat), error := rc, nested := some rc }
    else GetOutcome.assert { got with nested := some rc } queryId
  else got.assert queryId

/-- `memcached_get_by_key` of a client with a callback; the nested `memcached_set` has its own time. An empty
value that was found is returned as a null pointer as well. -/
def memcachedGetByKeyWith (getKeyFailure : Option (Bytes → KeyFailure)) (H : Hashkit.Hashes)
    (env : Nat → Env) (setEnv : Env) (poller : Poller κ) (groupKey key : Bytes) : Query κ GetOutcome := do
  let c ← get
  let queryId := c.memc.queryId
  let rc ← mgetByKeyReal K H env groupKey [key] false
  let got ← GetOutcome.assert ⟨none, rc, true, none⟩ queryId
  if rc.isFailed then
    let c ← get
    return { got with error := if c.memc.hasCurrentError then c.memc.lastError else rc }
  else
    let (value, rc) ← memcachedFetch K poller 0
    let got ← GetOutcome.assert { got with value := value, error := if rc = .end_ then .notFound else rc } queryId
    if got.value.any (·.1 ≠ []) then return got
    else
      match getKeyFailure with
      | some callback =>
        if got.error = .notFound then keyFailed K shutdown H setEnv queryId key (callback key) got
        else got.assert queryId
      | none => got.assert queryId

end LM
