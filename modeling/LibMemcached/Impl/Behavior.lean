import LibMemcached.Impl.Hash

/-!
# Behaviours, namespace and cloning

`libmemcached/behavior.cc`, `namespace.cc`, `key.cc`, `options.cc` and the rest
of `memcached.cc`. Closing the connections (`send_quit`) does not change the
part of the client that is modelled here.
-/

namespace LM

/-- `memcached_behavior_t`. -/
inductive Behavior
  | noBlock | tcpNodelay | hash | ketama | socketSendSize | socketRecvSize | cacheLookups
  | supportCas | pollTimeout | distribution | bufferRequests | userData | sortHosts | verifyKey
  | connectTimeout | retryTimeout | ketamaWeighted | ketamaHash | binaryProtocol | sndTimeout
  | rcvTimeout | serverFailureLimit | ioMsgWatermark | ioBytesWatermark | ioKeyPrefetch
  | hashWithPrefixKey | noreply | useUdp | autoEjectHosts | numberOfReplicas
  | randomizeReplicaRead | cork | tcpKeepalive | tcpKeepidle | loadFromFile
  | removeFailedServers | deadTimeout | serverTimeoutLimit | max
  deriving DecidableEq, Repr

/-- `bool(data)`. -/
def boolOfData (data : UInt64) : Bool := data ≠ 0

/-- `(int32_t) data`. -/
def int32OfData (data : UInt64) : Int32 := data.toUInt32.toInt32

namespace Memcached

/-- `memcached_behavior_set_distribution`. Only `CONSISTENT`, `CONSISTENT_KETAMA`
and `CONSISTENT_WEIGHTED` touch the weighted flag. -/
def behaviorSetDistribution (H : Hashkit.Hashes) (ptr : Memcached) (now : Nat)
    (type : Distribution) : ReturnT × Memcached :=
  match type with
  | .modula | .random | .consistentKetamaSpy | .virtualBucket =>
    { ptr with distribution := type }.runDistribution H now
  | .consistent | .consistentKetama =>
    { ptr.setWeightedKetama false with distribution := type }.runDistribution H now
  | .consistentWeighted =>
    { ptr.setWeightedKetama true with distribution := type }.runDistribution H now
  | .consistentMax => ptr.setError .invalidArguments "Invalid memcached_server_distribution_t"

/-- `memcached_behavior_set_key_hash`. -/
def behaviorSetKeyHash (H : Hashkit.Hashes) (ptr : Memcached)
    (type : Option Hashkit.Algorithm) : ReturnT × Memcached :=
  let (rc, function) := Hashkit.setFunction H ptr.hashkit.baseHash type
  let ptr := { ptr with hashkit := { ptr.hashkit with baseHash := function } }
  if rc = .success then (.success, ptr)
  else ptr.setError .invalidArguments "Invalid memcached_hash_t()"

/-- `memcached_behavior_set_distribution_hash`. -/
def behaviorSetDistributionHash (H : Hashkit.Hashes) (ptr : Memcached)
    (type : Option Hashkit.Algorithm) : ReturnT × Memcached :=
  let (rc, function) := Hashkit.setFunction H ptr.hashkit.distributionHash type
  let ptr := { ptr with hashkit := { ptr.hashkit with distributionHash := function } }
  if rc = .success then (.success, ptr)
  else ptr.setError .invalidArguments "Invalid memcached_hash_t()"

/-- The `MEMCACHED_BEHAVIOR_KETAMA` branch of `memcached_behavior_set`. -/
def behaviorSetKetama (H : Hashkit.Hashes) (ptr : Memcached) (now : Nat) (on : Bool) :
    ReturnT × Memcached :=
  ptr.behaviorSetDistribution H now (if on then .consistentKetama else .modula)

/-- The `MEMCACHED_BEHAVIOR_KETAMA_WEIGHTED` branch of `memcached_behavior_set`. -/
def behaviorSetKetamaWeighted (H : Hashkit.Hashes) (ptr : Memcached) (now : Nat) (on : Bool) :
    ReturnT × Memcached :=
  if on then
    let ptr := (ptr.behaviorSetKeyHash H (some .md5)).2
    let ptr := (ptr.behaviorSetDistributionHash H (some .md5)).2
    ptr.behaviorSetDistribution H now .consistentWeighted
  else ptr.behaviorSetKetama H now true

/-- `memcached_behavior_set`. -/
def behaviorSet (H : Hashkit.Hashes) (ptr : Memcached) (now : Nat) (flag : Behavior)
    (data : UInt64) : ReturnT × Memcached :=
  let on := boolOfData data
  match flag with
  | .numberOfReplicas => (.success, { ptr with numberOfReplicas := data.toUInt32 })
  | .ioMsgWatermark => (.success, { ptr with ioMsgWatermark := data.toUInt32 })
  | .ioBytesWatermark => (.success, { ptr with ioBytesWatermark := data.toUInt32 })
  | .ioKeyPrefetch => (.success, { ptr with ioKeyPrefetch := data.toUInt32 })
  | .sndTimeout => (.success, { ptr with sndTimeout := int32OfData data })
  | .rcvTimeout => (.success, { ptr with rcvTimeout := int32OfData data })
  | .removeFailedServers => (.success, { ptr with flags.autoEjectHosts := on })
  | .serverFailureLimit =>
    if data = 0 then
      ptr.setError .invalidArguments
        "MEMCACHED_BEHAVIOR_SERVER_FAILURE_LIMIT requires a value greater then zero."
    else (.success, { ptr with serverFailureLimit := data.toUInt32 })
  | .serverTimeoutLimit => (.success, { ptr with serverTimeoutLimit := data.toUInt32 })
  | .binaryProtocol =>
    let ptr := if on then { ptr with flags.verifyKey := false } else ptr
    (.success, { ptr with flags.binaryProtocol := on })
  | .supportCas => (.success, { ptr with flags.supportCas := on })
  | .noBlock => (.success, { ptr with flags.noBlock := on })
  | .bufferRequests =>
    if ptr.flags.useUdp then
      ptr.setError .invalidArguments
        "MEMCACHED_BEHAVIOR_BUFFER_REQUESTS cannot be set while MEMCACHED_BEHAVIOR_USE_UDP is enabled."
    else (.success, { ptr with flags.bufferRequests := on })
  | .useUdp =>
    let ptr := { ptr with flags.useUdp := on }
    (.success,
      if on then { ptr with flags := { ptr.flags with reply := false, bufferRequests := false } }
      else { ptr with flags.reply := true })
  | .tcpNodelay => (.success, { ptr with flags.tcpNodelay := on })
  | .tcpKeepalive => (.success, { ptr with flags.tcpKeepalive := on })
  | .distribution => ptr.behaviorSetDistribution H now (.ofData data.toUInt32.toNat)
  | .ketama => ptr.behaviorSetKetama H now on
  | .ketamaWeighted => ptr.behaviorSetKetamaWeighted H now on
  | .hash => ptr.behaviorSetKeyHash H (Hashkit.Algorithm.ofData? data.toUInt32.toNat)
  | .ketamaHash => ptr.behaviorSetDistributionHash H (Hashkit.Algorithm.ofData? data.toUInt32.toNat)
  | .cacheLookups =>
    ptr.setError .deprecated "MEMCACHED_BEHAVIOR_CACHE_LOOKUPS has been deprecated."
  | .verifyKey =>
    if ptr.flags.binaryProtocol then
      ptr.setError .invalidArguments
        "MEMCACHED_BEHAVIOR_VERIFY_KEY if the binary protocol has been enabled."
    else (.success, { ptr with flags.verifyKey := on })
  | .sortHosts => { ptr with flags.useSortHosts := on }.runDistribution H now
  | .pollTimeout => (.success, { ptr with pollTimeout := int32OfData data })
  | .connectTimeout => (.success, { ptr with connectTimeout := int32OfData data })
  | .retryTimeout => (.success, { ptr with retryTimeout := int32OfData data })
  | .deadTimeout => (.success, { ptr with deadTimeout := int32OfData data })
  | .socketSendSize => (.success, { ptr with sendSize := int32OfData data })
  | .socketRecvSize => (.success, { ptr with recvSize := int32OfData data })
  | .tcpKeepidle => (.success, { ptr with tcpKeepidle := data.toUInt32 })
  | .userData => ptr.setError .deprecated "MEMCACHED_BEHAVIOR_USER_DATA deprecated."
  | .hashWithPrefixKey => (.success, { ptr with flags.hashWithNamespace := on })
  | .noreply =>
    if ptr.flags.useUdp && !on then
      ptr.setError .invalidArguments
        "MEMCACHED_BEHAVIOR_NOREPLY cannot be disabled while MEMCACHED_BEHAVIOR_USE_UDP is enabled."
    else (.success, { ptr with flags.reply := !on })
  | .autoEjectHosts => (.success, { ptr with flags.autoEjectHosts := on })
  | .randomizeReplicaRead => (.success, { ptr with flags.randomizeReplicaRead := on })
  | .cork =>
    ptr.setError .deprecated
      "MEMCACHED_BEHAVIOR_CORK is now incorporated into the driver by default."
  | .loadFromFile =>
    ptr.setError .invalidArguments
      "MEMCACHED_BEHAVIOR_LOAD_FROM_FILE can not be set with memcached_behavior_set()"
  | .max =>
    ptr.setError .invalidArguments "Invalid behavior passed to memcached_behavior_set()"

/-- What `memcached_behavior_get` finds outside of the client: the sizes of the socket buffers that
the first host's connection has, and what the build has. -/
structure Outside where
  sndbuf : UInt64
  rcvbuf : UInt64
  haveMsgMore : Bool

/-- `memcached_behavior_get`, but for the errors it records and the connection it may open. -/
def behaviorGet (ptr : Memcached) (outside : Outside) (flag : Behavior) : UInt64 :=
  match flag with
  | .numberOfReplicas => ptr.numberOfReplicas.toUInt64
  | .ioMsgWatermark => ptr.ioMsgWatermark.toUInt64
  | .ioBytesWatermark => ptr.ioBytesWatermark.toUInt64
  | .ioKeyPrefetch => ptr.ioKeyPrefetch.toUInt64
  | .binaryProtocol => ptr.flags.binaryProtocol.toUInt64
  | .supportCas => ptr.flags.supportCas.toUInt64
  | .cacheLookups => 1
  | .noBlock => ptr.flags.noBlock.toUInt64
  | .bufferRequests => ptr.flags.bufferRequests.toUInt64
  | .useUdp => ptr.flags.useUdp.toUInt64
  | .tcpNodelay => ptr.flags.tcpNodelay.toUInt64
  | .verifyKey => ptr.flags.verifyKey.toUInt64
  | .ketamaWeighted => (ptr.isConsistentDistribution && ptr.ketama.weighted).toUInt64
  | .distribution => ptr.distribution.toData
  | .ketama => ptr.isConsistentDistribution.toUInt64
  | .hash => (Hashkit.getFunctionType ptr.hashkit.baseHash).toData
  | .ketamaHash => (Hashkit.getFunctionType ptr.hashkit.distributionHash).toData
  | .removeFailedServers => ptr.flags.autoEjectHosts.toUInt64
  | .serverFailureLimit => ptr.serverFailureLimit.toUInt64
  | .serverTimeoutLimit => ptr.serverTimeoutLimit.toUInt64
  | .sortHosts => ptr.flags.useSortHosts.toUInt64
  | .pollTimeout => ptr.pollTimeout.toInt64.toUInt64
  | .connectTimeout => ptr.connectTimeout.toInt64.toUInt64
  | .retryTimeout => ptr.retryTimeout.toInt64.toUInt64
  | .deadTimeout => ptr.deadTimeout.toInt64.toUInt64
  | .sndTimeout => ptr.sndTimeout.toInt64.toUInt64
  | .rcvTimeout => ptr.rcvTimeout.toInt64.toUInt64
  | .tcpKeepidle => ptr.tcpKeepidle.toUInt64
  | .socketSendSize =>
    if ptr.sendSize ≠ -1 then ptr.sendSize.toInt64.toUInt64
    else if ptr.serverCount ≠ 0 then outside.sndbuf else 0
  | .socketRecvSize =>
    if ptr.recvSize ≠ -1 then ptr.recvSize.toInt64.toUInt64
    else if ptr.serverCount ≠ 0 then outside.rcvbuf else 0
  | .userData => 0
  | .hashWithPrefixKey => ptr.flags.hashWithNamespace.toUInt64
  | .noreply => (!ptr.flags.reply).toUInt64
  | .autoEjectHosts => ptr.flags.autoEjectHosts.toUInt64
  | .randomizeReplicaRead => ptr.flags.randomizeReplicaRead.toUInt64
  | .cork => outside.haveMsgMore.toUInt64
  | .tcpKeepalive => ptr.flags.tcpKeepalive.toUInt64
  | .loadFromFile => ptr.filename.isSome.toUInt64
  | .max => 0

/-- `memcached_bucket_set`. The old distribution comes back when the map is
refused. A null host map, `none`, is refused at once. -/
def bucketSet (H : Hashkit.Hashes) (self : Memcached) (now : Nat)
    (hostMap : Option (Nat → UInt32)) (forwardMap : Option (Nat → UInt32))
    (buckets replicas : UInt32) : ReturnT × Memcached :=
  match hostMap with
  | none => (.invalidArguments, self)
  | some hostMap =>
    let old := self.distribution
    let (rc, self) := self.behaviorSetDistribution H now .virtualBucket
    if rc.isFailed then (rc, self) else
    let (rc, self) := self.virtualBucketCreate hostMap forwardMap buckets replicas
    if rc.isFailed then (rc, (self.behaviorSetDistribution H now old).2) else (rc, self)

/-- `memcached_virtual_bucket_create` where memory can be short: the old map is
freed before the new one is allocated. -/
def virtualBucketCreateIn (allocates : Bool) (self : Memcached) (hostMap : Nat → UInt32)
    (forwardMap : Option (Nat → UInt32)) (buckets replicas : UInt32) : ReturnT × Memcached :=
  if buckets = 0 then (.invalidArguments, self)
  else if allocates then self.virtualBucketCreate hostMap forwardMap buckets replicas
  else (.memoryAllocationFailure, { self with virtualBucket := none })

/-- `memcached_bucket_set` where memory can be short. -/
def bucketSetIn (allocates : Bool) (H : Hashkit.Hashes) (self : Memcached) (now : Nat)
    (hostMap : Option (Nat → UInt32)) (forwardMap : Option (Nat → UInt32))
    (buckets replicas : UInt32) : ReturnT × Memcached :=
  match hostMap with
  | none => (.invalidArguments, self)
  | some hostMap =>
    let old := self.distribution
    let (rc, self) := self.behaviorSetDistribution H now .virtualBucket
    if rc.isFailed then (rc, self) else
    let (rc, self) := self.virtualBucketCreateIn allocates hostMap forwardMap buckets replicas
    if rc.isFailed then (rc, (self.behaviorSetDistribution H now old).2) else (rc, self)

/-! ## Namespace and configuration file -/

/-- `isgraph` in the C locale. -/
def isGraph (c : UInt8) : Bool := 0x21 ≤ c && c ≤ 0x7e

/-- `memcached_key_test` of one key. -/
def keyTest (memc : Memcached) (key : Bytes) : ReturnT × Memcached :=
  if key.length = 0 ∨ key.length ≥ maxKey then
    memc.setError .badKeyProvided "Key provided was too long."
  else if memc.flags.verifyKey && !memc.flags.binaryProtocol && !key.all isGraph then
    memc.setError .badKeyProvided "Key provided had invalid character."
  else (.success, memc)

/-- `memcached_set_namespace`; a null pointer is `none`. A key of length zero
with a null pointer is the only other combination. -/
def setNamespace (memc : Memcached) (key : Option Bytes) : ReturnT × Memcached :=
  match key with
  | some [] =>
    memc.setError .invalidArguments
      "Invalid namespace, namespace string had value but length was 0"
  | some key =>
    let orig := memc.flags.verifyKey
    let (rc, memc) := { memc with flags.verifyKey := true }.keyTest key
    let memc := { memc with flags.verifyKey := orig }
    if rc.isFailed then (memc.lastError, memc)
    else if key.length > maxNamespace - 1 then memc.setError .keyTooBig ""
    else (.success, { memc with namespace_ := some key })
  | none => (.success, { memc with namespace_ := none })

/-- `memcached_set_configuration_file`, which asserts that the name is not
empty. -/
def setConfigurationFile (self : Memcached) (filename : Bytes) : Memcached :=
  { self with filename := some filename }

/-! ## Cloning -/

/-- The assignments at the beginning of `memcached_clone`, to a new client. The
bucket map and the weighted flag are not among them. -/
def copySettings (source : Memcached) : Memcached :=
  { create with
    flags := source.flags
    sendSize := source.sendSize
    recvSize := source.recvSize
    pollTimeout := source.pollTimeout
    connectTimeout := source.connectTimeout
    retryTimeout := source.retryTimeout
    deadTimeout := source.deadTimeout
    distribution := source.distribution
    hashkit := source.hashkit
    sndTimeout := source.sndTimeout
    rcvTimeout := source.rcvTimeout
    serverFailureLimit := source.serverFailureLimit
    serverTimeoutLimit := source.serverTimeoutLimit
    ioMsgWatermark := source.ioMsgWatermark
    ioBytesWatermark := source.ioBytesWatermark
    ioKeyPrefetch := source.ioKeyPrefetch
    numberOfReplicas := source.numberOfReplicas
    tcpKeepidle := source.tcpKeepidle }

/-- `memcached_clone` into a new client. The namespace is copied to two places: to
itself and to the name of the configuration file. -/
def clone (H : Hashkit.Hashes) (source : Memcached) (now : Nat) : Option Memcached :=
  let newClone := source.copySettings
  let (rc, newClone) :=
    if source.serverCount ≠ 0 then newClone.instancePush H now source.servers
    else (.success, newClone)
  if rc.isFailed then none else
  let newClone := { newClone with namespace_ := source.namespace_, filename := source.namespace_ }
  let (rc, newClone) := newClone.runDistribution H now
  if rc.isFailed then none else some newClone

end Memcached

end LM
