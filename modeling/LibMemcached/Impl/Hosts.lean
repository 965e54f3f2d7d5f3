import Mathlib.Data.List.Sort
import LibMemcached.Framework.Binary32
import LibMemcached.Impl.Memcached

/-!
# The host list and the continuum

`libmemcached/hosts.cc`. The clock is an argument, `now`. Allocation and
`gettimeofday` succeed. `qsort` is an insertion sort: the order of continuum
items is total, so any sort gives the same array, and hosts that compare equal
keep their order.
-/

namespace LM

/-- `strcmp`, by the unsigned values of the bytes. -/
def strcmp : Bytes → Bytes → Int
  | [], [] => 0
  | [], _ :: _ => -1
  | _ :: _, [] => 1
  | a :: s, b :: t => if a = b then strcmp s t else (a.toNat : Int) - b.toNat

/-- `compare_servers`. -/
def compareServers (a b : Instance) : Int :=
  let returnValue := strcmp a.hostname b.hostname
  if returnValue = 0 then (a.port.toNat : Int) - b.port.toNat else returnValue

/-- The decimal digits that `%u` prints. -/
def decimal (n : Nat) : Bytes := (Nat.toDigits 10 n).map Char.toUInt8

/-- The name of a point, as the loops of `update_continuum` print it. -/
def sortHost (distribution : Distribution) (server : Server) (pointerIndex : Nat) : Bytes :=
  if distribution = .consistentKetamaSpy then
    '/'.toUInt8 :: server.hostname ++ ':'.toUInt8 :: decimal server.port.toNat ++
      '-'.toUInt8 :: decimal pointerIndex
  else if server.port = defaultPort then
    server.hostname ++ '-'.toUInt8 :: decimal pointerIndex
  else
    server.hostname ++ ':'.toUInt8 :: decimal server.port.toNat ++
      '-'.toUInt8 :: decimal pointerIndex

/-- `ketama_server_hash`: four bytes of the MD5 digest. -/
def ketamaServerHash (H : Hashkit.Hashes) (key : Bytes) (alignment : Fin 4) : UInt32 :=
  let results := H.md5Signature key
  let byte (i : Fin 4) : UInt32 :=
    (results ⟨i + alignment * 4, by omega⟩).toUInt32
  byte 3 <<< 24 ||| byte 2 <<< 16 ||| byte 1 <<< 8 ||| byte 0

/-- `continuum_item_cmp`. -/
def continuumItemCmp (ct1 ct2 : ContinuumItem) : Int :=
  if ct1.value = ct2.value then
    if ct1.index = ct2.index then 0 else if ct1.index > ct2.index then 1 else -1
  else if ct1.value > ct2.value then 1 else -1

/-- The order that `qsort` sorts the continuum by. -/
def ContinuumItem.le (a b : ContinuumItem) : Prop := continuumItemCmp a b ≤ 0

instance : DecidableRel ContinuumItem.le := fun a b =>
  inferInstanceAs (Decidable (continuumItemCmp a b ≤ 0))

/-- The points of a server on a weighted continuum:
`floor(pct * 160 / 4 * live_servers + 0.0000000001F) * 4`, in `float`. -/
def weightedPoints (weight totalWeight liveServers : Nat) : Nat :=
  let pct := Binary32.div (Binary32.ofNat weight) (Binary32.ofNat totalWeight)
  let points := Binary32.div (Binary32.mul pct (Binary32.ofNat pointsPerServerKetama)) (Binary32.ofNat 4)
  let points := Binary32.mul points (Binary32.ofNat liveServers)
  ⌊Binary32.add points (Binary32.round (1 / 10 ^ 10))⌋₊ * 4

namespace Memcached

/-- `memcached_is_consistent_distribution`. -/
def isConsistentDistribution (memc : Memcached) : Bool :=
  match memc.distribution with
  | .consistent | .consistentKetama | .consistentKetamaSpy | .consistentWeighted => true
  | .modula | .random | .virtualBucket | .consistentMax => false

/-- `memcached_set_weighted_ketama`. -/
def setWeightedKetama (ptr : Memcached) (weighted : Bool) : Memcached :=
  { ptr with ketama := { ptr.ketama with weighted := weighted } }

/-- `sort_hosts`. -/
def sortHosts (ptr : Memcached) : Memcached :=
  { ptr with servers := ptr.servers.insertionSort fun a b => compareServers a b ≤ 0 }

/-- Whether `update_continuum` leaves a server out: hosts are ejected, and this
one is not to be retried yet. -/
def isEjected (ptr : Memcached) (now : Nat) (server : Instance) : Bool :=
  ptr.flags.autoEjectHosts && decide (now < server.nextRetry)

/-- `live_servers` of `update_continuum`. -/
def liveServers (ptr : Memcached) (now : Nat) : Nat :=
  if ptr.flags.autoEjectHosts then ptr.servers.countP fun s => s.nextRetry ≤ now
  else ptr.serverCount

/-- `ketama.next_distribution_rebuild`: the earliest retry time still to come,
or 0. It is kept as it is when hosts are not ejected. -/
def nextRebuild (ptr : Memcached) (now : Nat) : Nat :=
  if ptr.flags.autoEjectHosts then
    ptr.servers.foldl
      (fun rebuild s =>
        if s.nextRetry ≤ now then rebuild
        else if rebuild = 0 ∨ s.nextRetry < rebuild then s.nextRetry else rebuild) 0
  else ptr.ketama.nextDistributionRebuild

/-- `total_weight` of `update_continuum`. -/
def totalWeight (ptr : Memcached) (now : Nat) : Nat :=
  ((ptr.servers.filter fun s => !ptr.isEjected now s).map fun s => s.weight.toNat).sum

/-- The points that the body of the loop of `update_continuum` writes for one
server. -/
def hostPoints (H : Hashkit.Hashes) (ptr : Memcached) (now : Nat) (host : Instance × Nat) :
    List ContinuumItem :=
  if ptr.ketama.weighted then
    let pointerPerServer :=
      weightedPoints host.1.weight.toNat (ptr.totalWeight now) (ptr.liveServers now)
    (List.range (pointerPerServer / 4)).flatMap fun pointerIndex =>
      (List.finRange 4).map fun x =>
        ⟨host.2, ketamaServerHash H (sortHost ptr.distribution host.1.toServer pointerIndex) x⟩
  else
    (List.range pointsPerServer).map fun pointerIndex =>
      ⟨host.2, ptr.hashkit.digest H (sortHost ptr.distribution host.1.toServer pointerIndex)⟩

/-- The continuum before `qsort`: the loop of `update_continuum` over the hosts. -/
def continuumPoints (H : Hashkit.Hashes) (ptr : Memcached) (now : Nat) : List ContinuumItem :=
  (ptr.servers.zipIdx.filter fun host => !ptr.isEjected now host.1).flatMap (ptr.hostPoints H now)

/-- `update_continuum`. With no live server it returns before it touches the
continuum. The names of the points fit their buffer (`sortHost_length_lt`), so
the error after `snprintf` is not reached. -/
def updateContinuum (H : Hashkit.Hashes) (ptr : Memcached) (now : Nat) : ReturnT × Memcached :=
  let liveServers := ptr.liveServers now
  let rebuild := ptr.nextRebuild now
  if liveServers = 0 then
    (.success, { ptr with ketama := { ptr.ketama with nextDistributionRebuild := rebuild } })
  else
    let perServer := if ptr.ketama.weighted then pointsPerServerKetama else pointsPerServer
    let continuumLimit := liveServers * perServer % 2 ^ 32
    let continuumExtra := continuumAddition * perServer
    let count :=
      if continuumLimit > ptr.ketama.continuumCount then (continuumLimit + continuumExtra) % 2 ^ 32
      else ptr.ketama.continuumCount
    (.success,
      { ptr with
        ketama :=
          { ptr.ketama with
            continuum := (ptr.continuumPoints H now).insertionSort ContinuumItem.le
            continuumCount := count
            nextDistributionRebuild := rebuild } })

/-- `run_distribution`. -/
def runDistribution (H : Hashkit.Hashes) (ptr : Memcached) (now : Nat) : ReturnT × Memcached :=
  let ptr := if ptr.flags.useSortHosts then ptr.sortHosts else ptr
  match ptr.distribution with
  | .consistent | .consistentKetama | .consistentKetamaSpy | .consistentWeighted =>
    ptr.updateContinuum H now
  | .virtualBucket | .modula | .random | .consistentMax => (.success, ptr)

/-- `server_add`, for a host whose name has been checked. -/
def serverAdd (H : Hashkit.Hashes) (memc : Memcached) (now : Nat) (server : Server) :
    ReturnT × Memcached :=
  let memc := { memc with servers := memc.servers ++ [Instance.ofServer server] }
  let memc :=
    if server.weight > 1 && memc.isConsistentDistribution then memc.setWeightedKetama true else memc
  memc.runDistribution H now

/-- The common body of `memcached_server_push` and `memcached_instance_push`:
unlike `server_add`, they set the weighted flag whatever the distribution is. -/
def push (H : Hashkit.Hashes) (ptr : Memcached) (now : Nat) (list : List Server) :
    ReturnT × Memcached :=
  let ptr := { ptr with servers := ptr.servers ++ list.map Instance.ofServer }
  let ptr := if list.any (·.weight > 1) then ptr.setWeightedKetama true else ptr
  ptr.runDistribution H now

/-- `memcached_server_push`. -/
def serverPush (H : Hashkit.Hashes) (ptr : Memcached) (now : Nat) (list : List Server) :
    ReturnT × Memcached :=
  ptr.push H now list

/-- `memcached_instance_push`. -/
def instancePush (H : Hashkit.Hashes) (ptr : Memcached) (now : Nat) (list : List Instance) :
    ReturnT × Memcached :=
  ptr.push H now (list.map Instance.toServer)

/-- `memcached_server_add_with_weight`. -/
def serverAddWithWeight (H : Hashkit.Hashes) (ptr : Memcached) (now : Nat) (hostname : Bytes)
    (port : UInt16) (weight : UInt32) : ReturnT × Memcached :=
  let port := if port = 0 then defaultPort else port
  let hostname :=
    if hostname = [] then ['l', 'o', 'c', 'a', 'l', 'h', 'o', 's', 't'].map Char.toUInt8 else hostname
  let type := if hostname.head? = some '/'.toUInt8 then .unixSocket else .tcp
  match Server.create? hostname port weight type with
  | none => ptr.setError .invalidArguments "Invalid hostname provided"
  | some server => ptr.serverAdd H now server

/-- `memcached_server_add`. -/
def memcachedServerAdd (H : Hashkit.Hashes) (ptr : Memcached) (now : Nat) (hostname : Bytes)
    (port : UInt16) : ReturnT × Memcached :=
  ptr.serverAddWithWeight H now hostname port 0

/-- `memcached_server_add_unix_socket_with_weight`. -/
def serverAddUnixSocketWithWeight (H : Hashkit.Hashes) (ptr : Memcached) (now : Nat)
    (filename : Bytes) (weight : UInt32) : ReturnT × Memcached :=
  if isValidFilename filename then
    match Server.create? filename 0 weight .unixSocket with
    | none => ptr.setError .memoryAllocationFailure ""
    | some server => ptr.serverAdd H now server
  else ptr.setError .invalidArguments "Invalid filename for socket provided"

/-- A failed server is not to be retried before `nextRetry`, as `connect.cc` and
`quit.cc` note it. -/
def markForRetry (ptr : Memcached) (serverKey nextRetry : Nat) : Memcached :=
  { ptr with servers := ptr.servers.modify serverKey fun s => { s with nextRetry := nextRetry } }

/-- `memcached_servers_reset`. -/
def serversReset (self : Memcached) : Memcached :=
  { self with
    ketama := { self.ketama with continuum := [], continuumCount := 0 }
    servers := [] }

end Memcached

end LM
