import LibMemcached.Impl.Hashkit
import LibMemcached.Impl.Return

/-!
# The client

`memcached_st` and the records it is made of (`libmemcached-1.0/struct/*.h`,
`libmemcached/memcached.cc`, `libmemcached/error.cc`), as far as the functions
modelled here read them. The part of `memcached_instance_st` that routing reads
is `Instance`; the part that belongs to a connection is modelled with the I/O
functions.
-/

namespace LM

/-- `memcached_server_distribution_t`. -/
inductive Distribution
  | modula | consistent | consistentKetama | random | consistentKetamaSpy | consistentWeighted
  | virtualBucket | consistentMax
  deriving DecidableEq, Repr

/-- The distribution that a number is cast to; every number beyond the
enumerators takes the same branch as `CONSISTENT_MAX` wherever it is tested. -/
def Distribution.ofData : Nat → Distribution
  | 0 => .modula
  | 1 => .consistent
  | 2 => .consistentKetama
  | 3 => .random
  | 4 => .consistentKetamaSpy
  | 5 => .consistentWeighted
  | 6 => .virtualBucket
  | _ => .consistentMax

/-- The number of a distribution. -/
def Distribution.toData : Distribution → UInt64
  | .modula => 0
  | .consistent => 1
  | .consistentKetama => 2
  | .random => 3
  | .consistentKetamaSpy => 4
  | .consistentWeighted => 5
  | .virtualBucket => 6
  | .consistentMax => 7

/-- `memcached_connection_t`. -/
inductive ConnectionType
  | tcp | udp | unixSocket
  deriving DecidableEq, Repr

/-! ## Limits and defaults -/

def niMaxHost : Nat := 1025
def niMaxServ : Nat := 32
def maxKey : Nat := 251
def maxNamespace : Nat := 128
def defaultPort : UInt16 := 11211
def pointsPerServer : Nat := 100
def pointsPerServerKetama : Nat := 160
def continuumAddition : Nat := 10
def serverFailureLimitDefault : UInt32 := 5
def serverTimeoutLimitDefault : UInt32 := 0
def serverFailureRetryTimeout : Int32 := 2
def serverFailureDeadTimeout : Int32 := 0
def defaultTimeout : Int32 := 5000
def defaultConnectTimeout : Int32 := 4000

/-- `memcached_is_valid_servername`. -/
def isValidServername (hostname : Bytes) : Bool := hostname.length < niMaxHost

/-- `memcached_is_valid_filename`. -/
def isValidFilename (filename : Bytes) : Bool := 0 < filename.length && filename.length < niMaxHost

/-- What `instance_create_with` and `server_create_with` make of a host: the
name fits its buffer and the weight is at least the default, 1. -/
structure Server where
  hostname : Bytes
  port : UInt16
  weight : UInt32
  type : ConnectionType
  hostname_valid : isValidServername hostname = true
  weight_ne_zero : weight ≠ 0
  deriving DecidableEq

/-- `instance_create_with`: fails on a name that does not fit. -/
def Server.create? (hostname : Bytes) (port : UInt16) (weight : UInt32) (type : ConnectionType) :
    Option Server :=
  if h : isValidServername hostname = true then
    some ⟨hostname, port, if weight = 0 then 1 else weight, type, h, by split <;> simp_all⟩
  else none

/-- A server in the host list of a client, with the time before which it is
not to be retried. -/
structure Instance extends Server where
  nextRetry : Nat
  deriving DecidableEq

/-- `_server_init`: a new entry of the host list may be tried at once. -/
def Instance.ofServer (server : Server) : Instance := { server with nextRetry := 0 }

/-- `memcached_continuum_item_st`. -/
structure ContinuumItem where
  index : Nat
  value : UInt32
  deriving DecidableEq, Repr

/-- `memcached_st::ketama`. The list is the first `continuum_points_counter`
items of the array, `continuumCount` the number of items it has room for. -/
structure Ketama where
  continuum : List ContinuumItem := []
  continuumCount : Nat := 0
  nextDistributionRebuild : Nat := 0
  weighted : Bool := false

/-- `bucket_t`. -/
structure Bucket where
  master : UInt32
  forward : UInt32
  deriving DecidableEq, Repr

/-- `memcached_virtual_bucket_t`: a map has at least one bucket. -/
structure VirtualBucket where
  size : UInt32
  replicas : UInt32
  buckets : List Bucket
  size_ne_zero : size ≠ 0
  length_buckets : buckets.length = size.toNat
  deriving DecidableEq

/-- `memcached_st::flags`. -/
structure Flags where
  autoEjectHosts : Bool := false
  binaryProtocol : Bool := false
  bufferRequests : Bool := false
  hashWithNamespace : Bool := false
  noBlock : Bool := false
  reply : Bool := true
  randomizeReplicaRead : Bool := false
  supportCas : Bool := false
  tcpNodelay : Bool := false
  useSortHosts : Bool := false
  useUdp : Bool := false
  verifyKey : Bool := false
  tcpKeepalive : Bool := false
  deriving DecidableEq, Repr

/-- `memcached_error_t`. -/
structure ErrorMessage where
  queryId : UInt64
  rc : ReturnT
  message : String
  deriving DecidableEq, Repr

/-- `memcached_st`. The defaults are those of `_memcached_init`. -/
structure Memcached where
  flags : Flags := {}
  distribution : Distribution := .modula
  hashkit : Hashkit := {}
  ketama : Ketama := {}
  servers : List Instance := []
  virtualBucket : Option VirtualBucket := none
  numberOfReplicas : UInt32 := 0
  sndTimeout : Int32 := 0
  rcvTimeout : Int32 := 0
  serverFailureLimit : UInt32 := serverFailureLimitDefault
  serverTimeoutLimit : UInt32 := serverTimeoutLimitDefault
  ioMsgWatermark : UInt32 := 500
  ioBytesWatermark : UInt32 := 65 * 1024
  ioKeyPrefetch : UInt32 := 0
  tcpKeepidle : UInt32 := 0
  pollTimeout : Int32 := defaultTimeout
  connectTimeout : Int32 := defaultConnectTimeout
  retryTimeout : Int32 := serverFailureRetryTimeout
  deadTimeout : Int32 := serverFailureDeadTimeout
  sendSize : Int32 := -1
  recvSize : Int32 := -1
  /-- `_namespace`; an array is never empty. -/
  namespace_ : Option Bytes := none
  /-- `configure.filename`. -/
  filename : Option Bytes := none
  queryId : UInt64 := 1
  errorMessages : List ErrorMessage := []

namespace Memcached

/-- `memcached_create`. -/
def create : Memcached := {}

/-- `memcached_server_count`. -/
def serverCount (ptr : Memcached) : Nat := ptr.servers.length

/-- `memcached_error_free`. -/
def errorFree (self : Memcached) : Memcached := { self with errorMessages := [] }

/-- `_set` of `error.cc`: errors of an earlier query are dropped, and only fatal
codes and `CLIENT_ERROR` are recorded. -/
def errorSet (memc : Memcached) (rc : ReturnT) (message : String) : Memcached :=
  let memc :=
    match memc.errorMessages with
    | e :: _ => if e.queryId ≠ memc.queryId then memc.errorFree else memc
    | [] => memc
  if rc.isFatal || rc == .clientError then
    { memc with errorMessages := ⟨memc.queryId, rc, message⟩ :: memc.errorMessages }
  else memc

/-- `memcached_set_error` on a client. -/
def setError (memc : Memcached) (rc : ReturnT) (message : String) : ReturnT × Memcached :=
  (rc, if rc.isFatal then memc.errorSet rc message else memc)

/-- `memcached_last_error`. -/
def lastError (memc : Memcached) : ReturnT :=
  match memc.errorMessages with
  | e :: _ => e.rc
  | [] => .success

end Memcached

end LM
