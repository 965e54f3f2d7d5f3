import LibMemcached.Framework.Ring
import LibMemcached.Impl.Hosts

/-!
# From a key to a server

`libmemcached/hash.cc` and `libmemcached/virtual_bucket.cc`. A routing function
returns `none` where the source has undefined behaviour: the item of an empty
continuum is read, a bucket beyond the map is read, or a hash is divided by zero
hosts. The value of `random()` is an argument.
-/

namespace LM.Memcached

/-! ## Virtual buckets -/

/-- `memcached_virtual_bucket_create`. The maps are read at the numbers of the
buckets; no forward map, a null pointer in the source, is `none`. -/
def virtualBucketCreate (self : Memcached) (hostMap : Nat → UInt32)
    (forwardMap : Option (Nat → UInt32)) (buckets replicas : UInt32) : ReturnT × Memcached :=
  if h : buckets = 0 then (.invalidArguments, self) else
  let entries := (List.range buckets.toNat).map fun x =>
    { master := hostMap x, forward := forwardMap.elim 0 (· x) : Bucket }
  (.success, { self with virtualBucket := some ⟨buckets, replicas, entries, h, by simp [entries]⟩ })

/-- `memcached_virtual_bucket_get`. -/
def virtualBucketGet (self : Memcached) (digest : UInt32) : Option Nat :=
  match self.virtualBucket with
  | some virtualBucket =>
    let result := digest &&& (virtualBucket.size - 1)
    virtualBucket.buckets[result.toNat]?.map (·.master.toNat)
  | none => some (digest &&& (UInt32.ofNat self.serverCount - 1)).toNat

/-! ## Dispatch -/

/-- `middle->value < hash`. -/
def isBelow (continuum : List ContinuumItem) (hash : UInt32) (middle : Nat) : Bool :=
  match continuum[middle]? with
  | some item => item.value < hash
  | none => false

/-- The binary search of `dispatch_host` over the continuum, with the wrap-around
of its last step. -/
def continuumSearch (continuum : List ContinuumItem) (hash : UInt32) : Nat :=
  let num := continuum.length
  let right := Ring.lowerBound (isBelow continuum hash) num 0 num
  if right = num then 0 else right

/-- `dispatch_host`. -/
def dispatchHost (ptr : Memcached) (random : Nat) (hash : UInt32) : Option Nat :=
  match ptr.distribution with
  | .consistent | .consistentWeighted | .consistentKetama | .consistentKetamaSpy =>
    ptr.ketama.continuum[continuumSearch ptr.ketama.continuum hash]?.map (·.index)
  | .modula | .consistentMax =>
    if ptr.serverCount = 0 then none else some (hash.toNat % ptr.serverCount)
  | .random => if ptr.serverCount = 0 then none else some (random % ptr.serverCount)
  | .virtualBucket => ptr.virtualBucketGet hash

/-- What `strncpy` leaves of bytes in a buffer of their length: from the first null byte on, zeros. -/
def strncpy (s : Bytes) : Bytes :=
  s.takeWhile (· ≠ 0) ++ List.replicate (s.length - (s.takeWhile (· ≠ 0)).length) 0

/-- `_generate_hash_wrapper`. -/
def generateHashWrapper (H : Hashkit.Hashes) (ptr : Memcached) (key : Bytes) : UInt32 :=
  if ptr.serverCount = 1 then 0
  else if ptr.flags.hashWithNamespace then
    let temp := strncpy (ptr.namespace_.getD []) ++ strncpy key
    if temp.length > maxKey - 1 then 0 else ptr.hashkit.digest H temp
  else ptr.hashkit.digest H key

/-- `_regen_for_auto_eject`. -/
def regenForAutoEject (H : Hashkit.Hashes) (ptr : Memcached) (now : Nat) : Memcached :=
  if ptr.flags.autoEjectHosts && ptr.ketama.nextDistributionRebuild ≠ 0 then
    if now > ptr.ketama.nextDistributionRebuild then (ptr.runDistribution H now).2 else ptr
  else ptr

/-- `memcached_generate_hash_with_redistribution`. The key is hashed before the
continuum is rebuilt. -/
def generateHashWithRedistribution (H : Hashkit.Hashes) (ptr : Memcached) (now random : Nat)
    (key : Bytes) : Option Nat × Memcached :=
  let hash := ptr.generateHashWrapper H key
  let ptr := ptr.regenForAutoEject H now
  (ptr.dispatchHost random hash, ptr)

/-- `memcached_generate_hash`. -/
def generateHash (H : Hashkit.Hashes) (ptr : Memcached) (random : Nat) (key : Bytes) : Option Nat :=
  ptr.dispatchHost random (ptr.generateHashWrapper H key)

end LM.Memcached
