import LibMemcached.Proof.Bounds

/-!
# Bucket maps

`memcached_bucket_set` and the routing that follows it. The bucket of a key is
its hash under the mask `size - 1`, which is the remainder by `size` when the
size is a power of two and for no other size (`bucket_is_remainder_iff`). A
refused map is taken back through `memcached_behavior_set_distribution`, which
sets the weighted flag from the old distribution and builds the continuum anew;
so the client is what it was if that flag was the one of its distribution
(`refused_map_changes_nothing_iff`).
-/

namespace LM.Memcached

open Hashkit

variable {H : Hashes} {c d : Memcached} {now : Nat} {buckets : UInt32} {hostMap : Nat → UInt32}

/-! ## The mask -/

/-- The mask finds the remainder of every hash exactly when the size is a power
of two: the size itself has remainder zero. -/
theorem mask_eq_mod_iff {size : UInt32} (hsize : size ≠ 0) :
    (∀ digest : UInt32, (digest &&& (size - 1)).toNat = digest.toNat % size.toNat) ↔
      ∃ k, size.toNat = 2 ^ k := by
  have hpos : size.toNat ≠ 0 := fun h => hsize (UInt32.toNat_inj.mp h)
  simp only [UInt32.toNat_and, toNat_sub_one hsize]
  constructor
  · intro h
    have hself := h size
    rw [Nat.mod_self] at hself
    exact (Nat.and_sub_one_eq_zero_iff_isPowerOfTwo hpos).mp hself
  · rintro ⟨k, hk⟩ digest
    rw [hk, Nat.and_two_pow_sub_one_eq_mod]

/-! ## After a map is set -/

/-- The client is routed by the map of a successful `memcached_bucket_set`. -/
structure HasMap (hostMap : Nat → UInt32) (buckets : UInt32) (c : Memcached) : Prop where
  distribution : c.distribution = .virtualBucket
  map : ∃ vb, c.virtualBucket = some vb ∧ vb.size = buckets ∧
    ∀ x < buckets.toNat, vb.buckets[x]?.map (·.master) = some (hostMap x)

theorem hasMap_bucketSet (H : Hashes) (c : Memcached) (now : Nat) (hostMap : Nat → UInt32)
    (forwardMap : Option (Nat → UInt32)) (hb : buckets ≠ 0) (replicas : UInt32) :
    HasMap hostMap buckets (c.bucketSet H now (some hostMap) forwardMap buckets replicas).2 := by
  rw [bucketSet_of_ne_zero H c now hostMap forwardMap hb]
  simp only [virtualBucketCreate, hb, dite_false]
  refine ⟨by simp [behaviorSetDistribution], _, rfl, rfl, fun x hx => ?_⟩
  simp [hx]

theorem HasMap.dispatchHost (h : c.HasMap hostMap buckets) (hb : buckets ≠ 0) (random : Nat)
    (digest : UInt32) :
    c.dispatchHost random digest = some (hostMap (digest &&& (buckets - 1)).toNat).toNat := by
  obtain ⟨vb, hvb, rfl, hmap⟩ := h.map
  have hlt := and_sub_one_lt digest hb
  have hmaster := hmap _ hlt
  simp only [Memcached.dispatchHost, h.distribution, virtualBucketGet, hvb]
  have hentry := congrArg (·.map UInt32.toNat) hmaster
  rwa [Option.map_map] at hentry

theorem HasMap.regenForAutoEject (h : c.HasMap hostMap buckets) (H : Hashes) (now : Nat) :
    (c.regenForAutoEject H now).HasMap hostMap buckets := by
  unfold Memcached.regenForAutoEject
  split
  · split
    · exact ⟨by simpa using h.distribution, by simpa using h.map⟩
    · exact h
  · exact h

/-- After every successful `memcached_bucket_set` with `buckets` buckets, both
routing functions send every key to the host of the bucket that is the remainder
of the key's hash, and each bucket is selected by some hash. -/
structure RoutesByRemainder (buckets : UInt32) : Prop where
  generateHash : ∀ (H : Hashes) (c : Memcached) (now : Nat) (hostMap : Nat → UInt32)
    (forwardMap : Option (Nat → UInt32)) (replicas : UInt32) (random : Nat) (key : Bytes),
    let d := (c.bucketSet H now (some hostMap) forwardMap buckets replicas).2
    d.generateHash H random key =
      some (hostMap ((d.generateHashWrapper H key).toNat % buckets.toNat)).toNat
  generateHashWithRedistribution : ∀ (H : Hashes) (c : Memcached) (now : Nat)
    (hostMap : Nat → UInt32) (forwardMap : Option (Nat → UInt32)) (replicas : UInt32)
    (now' random : Nat) (key : Bytes),
    let d := (c.bucketSet H now (some hostMap) forwardMap buckets replicas).2
    (d.generateHashWithRedistribution H now' random key).1 =
      some (hostMap ((d.generateHashWrapper H key).toNat % buckets.toNat)).toNat
  selected : ∀ x < buckets.toNat, ∃ digest : UInt32, ∀ (H : Hashes) (c : Memcached)
    (now : Nat) (hostMap : Nat → UInt32) (forwardMap : Option (Nat → UInt32)) (replicas : UInt32)
    (random : Nat),
    (c.bucketSet H now (some hostMap) forwardMap buckets replicas).2.dispatchHost random digest =
      some (hostMap x).toNat

/-- A client whose own hash function gives one value to every key. -/
theorem generateHashWrapper_custom (digest : UInt32) (key : Bytes) (hostMap : Nat → UInt32)
    (hb : buckets ≠ 0) :
    let H := { fnvHashes with custom := fun _ => digest }
    let c : Memcached := { hashkit := { baseHash := .custom } }
    (c.bucketSet H 0 (some hostMap) none buckets 0).2.generateHashWrapper H key = digest := by
  dsimp only
  rw [bucketSet_of_ne_zero _ _ 0 hostMap none hb, virtualBucketCreate, dif_neg hb]
  rfl

/-- Keys are routed by the remainder of their hash, for every client, map and
hash, exactly when the number of buckets is a power of two. -/
theorem bucket_is_remainder_iff {buckets : UInt32} (hb : buckets ≠ 0) :
    RoutesByRemainder buckets ↔ ∃ k, buckets.toNat = 2 ^ k := by
  rw [← mask_eq_mod_iff hb]
  constructor
  · -- the map that sends each bucket to the host of its number shows the mask
    intro h digest
    have hroute := h.generateHash { fnvHashes with custom := fun _ => digest }
      { hashkit := { baseHash := .custom } } 0 UInt32.ofNat none 0 0 []
    have hmap := hasMap_bucketSet { fnvHashes with custom := fun _ => digest }
      { hashkit := { baseHash := .custom } } 0 UInt32.ofNat none hb 0
    dsimp only at hroute
    rw [Memcached.generateHash, hmap.dispatchHost hb, generateHashWrapper_custom digest [] _ hb] at hroute
    have hlt : digest.toNat % buckets.toNat < 2 ^ 32 :=
      lt_of_le_of_lt (Nat.mod_le _ _) digest.toNat_lt
    simpa [UInt32.toNat_ofNat_of_lt' hlt] using hroute
  · intro hmask
    refine ⟨?_, ?_, fun x hx => ⟨UInt32.ofNat x, ?_⟩⟩
    · intro H c now hostMap forwardMap replicas random key
      have hmap := hasMap_bucketSet H c now hostMap forwardMap hb replicas
      dsimp only
      rw [Memcached.generateHash, hmap.dispatchHost hb, hmask]
    · intro H c now hostMap forwardMap replicas now' random key
      have hmap := hasMap_bucketSet H c now hostMap forwardMap hb replicas
      dsimp only
      rw [Memcached.generateHashWithRedistribution, (hmap.regenForAutoEject H now').dispatchHost hb,
        hmask]
    · intro H c now hostMap forwardMap replicas random
      have hmap := hasMap_bucketSet H c now hostMap forwardMap hb replicas
      have hx' : x < 2 ^ 32 := hx.trans buckets.toNat_lt
      rw [hmap.dispatchHost hb, hmask, UInt32.toNat_ofNat_of_lt' hx', Nat.mod_eq_of_lt hx]

theorem bucket_is_remainder_iff_four : RoutesByRemainder 4 ↔ ∃ k, (4 : UInt32).toNat = 2 ^ k :=
  bucket_is_remainder_iff (by decide)

/-- Three hosts and three buckets, one for each of them. -/
def threeBuckets : List (Call × Nat) :=
  [(.serverPush [letterHost 'a', letterHost 'b', letterHost 'c'], 0),
    (.bucketSet (some UInt32.ofNat) none 3 0, 0)]

/-- The key `a` has a hash with remainder 0 and goes to host 2, and no hash selects
bucket 1: the mask is 2. -/
theorem three_buckets_skip_one :
    let d := configured fnvHashes threeBuckets
    (d.generateHashWrapper fnvHashes [0x61]).toNat % 3 = 0 ∧
      d.generateHash fnvHashes 0 [0x61] = some 2 ∧
      ∀ random digest, d.dispatchHost random digest ≠ some 1 := by
  refine ⟨by decide +kernel, by decide +kernel, fun random digest h => ?_⟩
  have hmap : (configured fnvHashes threeBuckets).HasMap UInt32.ofNat 3 :=
    hasMap_bucketSet _ _ _ _ _ (by decide) _
  have hmask : (digest &&& (3 - 1)).toNat % 2 = 0 := by
    rw [UInt32.toNat_and, Nat.and_mod_two_pow (n := 1)]
    simp
  have hlt : (digest &&& (3 - 1)).toNat < 2 ^ 32 := UInt32.toNat_lt _
  rw [hmap.dispatchHost (by decide), UInt32.toNat_ofNat_of_lt' hlt] at h
  have hone := Option.some.inj h
  omega

/-! ## A refused map -/

/-- Every key is routed as before and the same behaviours are reported. -/
structure SameToCaller (H : Hashes) (c d : Memcached) : Prop where
  generateHash : ∀ random random' key, d.generateHash H random' key = c.generateHash H random key
  generateHashWithRedistribution : ∀ now random random' key,
    (d.generateHashWithRedistribution H now random' key).1 =
      (c.generateHashWithRedistribution H now random key).1
  behaviorGet : ∀ outside flag, d.behaviorGet outside flag = c.behaviorGet outside flag

/-- Two clients with the same settings, apart from what a rebuild makes. -/
structure SameRouting (c d : Memcached) : Prop where
  servers : d.servers = c.servers
  flags : d.flags = c.flags
  distribution : d.distribution = c.distribution
  hashkit : d.hashkit = c.hashkit
  weighted : d.ketama.weighted = c.ketama.weighted
  namespace_ : d.namespace_ = c.namespace_
  virtualBucket : c.distribution = .virtualBucket → d.virtualBucket = c.virtualBucket
  emptied : c.servers = [] → d.ketama.continuum = c.ketama.continuum

theorem SameRouting.rfl : SameRouting c c :=
  ⟨.refl _, .refl _, .refl _, .refl _, .refl _, .refl _, fun _ => .refl _, fun _ => .refl _⟩

theorem SameRouting.dispatchHost (h : SameRouting c d) (hc : c.Fresh H) (hd : d.Fresh H)
    (hrandom : c.distribution ≠ .random) (random random' : Nat) (hash : UInt32) :
    d.dispatchHost random' hash = c.dispatchHost random hash := by
  have hcount : d.serverCount = c.serverCount := by rw [serverCount, serverCount, h.servers]
  have hcore : d.core = c.core := by
    simp only [core, h.servers, h.distribution, h.hashkit, h.weighted]
  refine dispatchHost_congr h.distribution hrandom hcount h.virtualBucket (fun hcons => ?_) hash
  by_cases hnil : c.servers = []
  · exact h.emptied hnil
  · have hcons' : d.isConsistentDistribution = true := by
      rwa [isConsistentDistribution, h.distribution]
    rw [hc.continuum hcons hnil, hd.continuum hcons' (by rwa [h.servers]), specContinuum,
      specContinuum, hcore]

theorem rebuiltContinuum_of_nil (hnil : c.servers = []) (H : Hashes) (now : Nat) :
    c.rebuiltContinuum H now = c.ketama.continuum := by
  simp [rebuiltContinuum, liveServers, serverCount, hnil]

theorem Fresh.sameRouting_runDistribution (hc : c.Fresh H) (now : Nat) :
    SameRouting c (c.runDistribution H now).2 where
  servers := by rw [runDistribution_servers, hc.arranged_servers]
  flags := by simp
  distribution := by simp
  hashkit := by simp
  weighted := by simp
  namespace_ := by simp
  virtualBucket _ := by simp
  emptied hnil := by
    have hnil' : c.arranged.servers = [] := by rw [hc.arranged_servers, hnil]
    rw [runDistribution_continuum]
    split
    · rw [rebuiltContinuum_of_nil hnil', arranged_ketama]
    · rfl

theorem Fresh.dispatchHost_regenForAutoEject (hc : c.Fresh H) (hrandom : c.distribution ≠ .random)
    (now random : Nat) (hash : UInt32) :
    (c.regenForAutoEject H now).dispatchHost random hash = c.dispatchHost random hash := by
  unfold regenForAutoEject
  split
  · split
    · exact (hc.sameRouting_runDistribution now).dispatchHost hc (hc.calm.fresh_runDistribution H now)
        hrandom random random hash
    · rfl
  · rfl

theorem SameRouting.sameToCaller (h : SameRouting c d) (hc : c.Fresh H) (hd : d.Fresh H)
    (hrandom : c.distribution ≠ .random)
    (hbehavior : ∀ outside flag, d.behaviorGet outside flag = c.behaviorGet outside flag) :
    SameToCaller H c d := by
  have hcount : d.serverCount = c.serverCount := by rw [serverCount, serverCount, h.servers]
  have hhash (key : Bytes) : d.generateHashWrapper H key = c.generateHashWrapper H key :=
    generateHashWrapper_congr h.flags h.hashkit h.namespace_ (by rw [hcount]) key
  have hrandom' : d.distribution ≠ .random := by rwa [h.distribution]
  refine ⟨fun random random' key => ?_, fun now random random' key => ?_, hbehavior⟩
  · rw [generateHash, generateHash, hhash]
    exact h.dispatchHost hc hd hrandom random random' _
  · simp only [generateHashWithRedistribution]
    rw [hd.dispatchHost_regenForAutoEject hrandom', hc.dispatchHost_regenForAutoEject hrandom, hhash]
    exact h.dispatchHost hc hd hrandom random random' _

/-- The client with another bucket map. -/
def withBuckets (c : Memcached) (virtualBucket : Option VirtualBucket) : Memcached :=
  { c with virtualBucket := virtualBucket }

/-- The client after `memcached_bucket_set` has switched the distribution over and
back, with the bucket map it is left with. -/
def takenBack (H : Hashes) (c : Memcached) (now : Nat) (left : Option VirtualBucket) :
    Memcached :=
  (((c.behaviorSetDistribution H now .virtualBucket).2.withBuckets left).behaviorSetDistribution
    H now c.distribution).2

/-- The call fails in three ways: there is no host map, there are no buckets, or
there is no memory for them; the old map is lost in the last. -/
theorem bucketSetIn_failed {allocates : Bool} {hostMap forwardMap : Option (Nat → UInt32)}
    {replicas : UInt32}
    (h : (c.bucketSetIn allocates H now hostMap forwardMap buckets replicas).1.isFailed = true) :
    hostMap = none ∧ (c.bucketSetIn allocates H now hostMap forwardMap buckets replicas).2 = c ∨
      hostMap ≠ none ∧ (c.bucketSetIn allocates H now hostMap forwardMap buckets replicas).2 =
          c.takenBack H now (if buckets = 0 then c.virtualBucket else none) := by
  cases hostMap with
  | none => exact .inl ⟨rfl, rfl⟩
  | some hostMap =>
    refine .inr ⟨by simp, ?_⟩
    have hrc : (c.behaviorSetDistribution H now .virtualBucket).1 = .success := by
      simp [behaviorSetDistribution]
    have hvb : (c.behaviorSetDistribution H now .virtualBucket).2.virtualBucket = c.virtualBucket := by
      simp [behaviorSetDistribution]
    by_cases hb : buckets = 0
    · simp only [bucketSetIn, hrc, ReturnT.isFailed, virtualBucketCreateIn, hb, if_true,
        Bool.false_eq_true, if_false, takenBack, withBuckets, ← hvb]
    · cases allocates
      · simp [bucketSetIn, hrc, ReturnT.isFailed, virtualBucketCreateIn, hb, takenBack, withBuckets]
      · simp [bucketSetIn, hrc, ReturnT.isFailed, virtualBucketCreateIn, virtualBucketCreate, hb] at h

/-- The settings that the distribution is run on for the second time. -/
theorem takenBack_eq (H : Hashes) (now : Nat) (left : Option VirtualBucket)
    (hmax : c.distribution ≠ .consistentMax) : c.takenBack H now left =
      ((((c.withDistribution .virtualBucket).arranged.withBuckets left).withDistribution
        c.distribution).runDistribution H now).2 := by
  have hover : (c.withDistribution .virtualBucket).runDistribution H now =
      (.success, (c.withDistribution .virtualBucket).arranged) := by
    rw [runDistribution_eq]
    rfl
  rw [takenBack, behaviorSetDistribution_eq H _ now hmax,
    behaviorSetDistribution_eq H c now (by decide), hover]

theorem runDistribution_frame (H : Hashes) (c : Memcached) (now : Nat) :
    ∃ servers ketama, (c.runDistribution H now).2 =
      { c with servers := servers, ketama := ketama } := by
  have harranged : c.arranged = { c with servers := c.arranged.servers } := by
    unfold arranged
    split <;> rfl
  rw [runDistribution_eq]
  split
  · rw [updateContinuum_frame, harranged]
    exact ⟨_, _, rfl⟩
  · rw [harranged]
    exact ⟨_, _, rfl⟩

theorem takenBack_frame (H : Hashes) (c : Memcached) (now : Nat)
    (left : Option VirtualBucket) (hmax : c.distribution ≠ .consistentMax) :
    ∃ servers ketama, c.takenBack H now left =
      { c with servers := servers, ketama := ketama, virtualBucket := left } := by
  have harranged : (c.withDistribution .virtualBucket).arranged =
      { c.withDistribution .virtualBucket with
        servers := (c.withDistribution .virtualBucket).arranged.servers } := by
    unfold arranged
    split <;> rfl
  obtain ⟨servers, ketama, hframe⟩ := runDistribution_frame H
    (((c.withDistribution .virtualBucket).arranged.withBuckets left).withDistribution
      c.distribution) now
  rw [takenBack_eq H now left hmax, hframe, harranged]
  exact ⟨_, _, rfl⟩

theorem Fresh.fresh_takenBack (hc : c.Fresh H) (now : Nat) (left : Option VirtualBucket) :
    (c.takenBack H now left).Fresh H := by
  have hvb := hc.behaviorSetDistribution now .virtualBucket
  have hleft : ((c.behaviorSetDistribution H now .virtualBucket).2.withBuckets left).Fresh H := by
    refine ⟨hvb.calm, hvb.sorted, fun hcons => ?_⟩
    simp [isConsistentDistribution, withBuckets, Memcached.behaviorSetDistribution] at hcons
  exact hleft.behaviorSetDistribution now _

section TakenBack

variable {left : Option VirtualBucket}

theorem takenBack_weighted (H : Hashes) (now : Nat) (left : Option VirtualBucket)
    (hmax : c.distribution ≠ .consistentMax) :
    (c.takenBack H now left).ketama.weighted = weightedAfter c.distribution c.ketama.weighted := by
  rw [takenBack_eq H now left hmax, runDistribution_weighted]
  simp [withDistribution, withBuckets, weightedAfter]

theorem Fresh.servers_switched (hc : c.Fresh H) :
    (((c.withDistribution .virtualBucket).arranged.withBuckets left).withDistribution
      c.distribution).arranged.servers = c.servers := by
  have hfirst : (c.withDistribution .virtualBucket).arranged.servers = c.arranged.servers :=
    arranged_servers_congr rfl rfl
  have hagain : (((c.withDistribution .virtualBucket).arranged.withBuckets left).withDistribution
      c.distribution).arranged.servers = c.arranged.servers := by
    refine arranged_servers_congr (hfirst.trans hc.arranged_servers) ?_
    simp [withDistribution, withBuckets]
  exact hagain.trans hc.arranged_servers

variable (hc : c.Fresh H) (hmax : c.distribution ≠ .consistentMax) (hweighted : weightedAfter c.distribution c.ketama.weighted = c.ketama.weighted)
include hc hmax hweighted

/-- What the rollback leaves of a fresh client. -/
theorem Fresh.sameRouting_takenBack (hleft : c.distribution = .virtualBucket → left = c.virtualBucket) :
    SameRouting c (c.takenBack H now left) where
  servers := by rw [takenBack_eq H now left hmax, runDistribution_servers, hc.servers_switched]
  flags := by rw [takenBack_eq H now left hmax]; simp [withDistribution, withBuckets]
  distribution := by rw [takenBack_eq H now left hmax]; simp [withDistribution]
  hashkit := by rw [takenBack_eq H now left hmax]; simp [withDistribution, withBuckets]
  weighted := (takenBack_weighted H now left hmax).trans hweighted
  namespace_ := by rw [takenBack_eq H now left hmax]; simp [withDistribution, withBuckets]
  virtualBucket hd := by
    rw [takenBack_eq H now left hmax, ← hleft hd]
    simp [withDistribution, withBuckets]
  emptied hnil := by
    rw [takenBack_eq H now left hmax, runDistribution_continuum]
    split
    · rw [rebuiltContinuum_of_nil (hc.servers_switched.trans hnil)]
      simp [withDistribution, withBuckets]
    · simp [withDistribution, withBuckets]

/-- The settings that are no part of routing are not touched by the rollback. -/
theorem Fresh.behaviorGet_takenBack (outside : Outside) (flag : Behavior) :
    (c.takenBack H now left).behaviorGet outside flag = c.behaviorGet outside flag := by
  have hservers : (c.takenBack H now left).servers = c.servers := by
    rw [takenBack_eq H now left hmax, runDistribution_servers, hc.servers_switched]
  have hflag := (takenBack_weighted H now left hmax).trans hweighted
  obtain ⟨servers, ketama, hframe⟩ := takenBack_frame H c now left hmax
  rw [hframe] at hservers hflag ⊢
  cases flag <;> simp_all [Memcached.behaviorGet, isConsistentDistribution, serverCount]

end TakenBack

section

variable (H : Hashes) (now : Nat)

theorem behaviorSetDistribution_ne_max (type : Distribution) (hc : c.distribution ≠ .consistentMax) :
    (c.behaviorSetDistribution H now type).2.distribution ≠ .consistentMax := by
  by_cases htype : type = .consistentMax
  · subst htype
    rwa [(behaviorSetDistribution_max H c now).distribution]
  · rw [behaviorSetDistribution_eq H c now htype, runDistribution_distribution]
    exact htype

theorem behaviorSet_ne_max (flag : Behavior) (data : UInt64) (hc : c.distribution ≠ .consistentMax) :
    (c.behaviorSet H now flag data).2.distribution ≠ .consistentMax := by
  cases hflag : Behavior.isRouting flag
  · rwa [(sameRing_behaviorSet H c now data hflag).distribution]
  · cases flag <;> simp only [Behavior.isRouting, Bool.false_eq_true] at hflag
    case distribution => exact behaviorSetDistribution_ne_max H now _ hc
    case ketama => exact behaviorSetDistribution_ne_max H now _ hc
    case hash =>
      simp only [behaviorSet]
      rw [(sameRing_behaviorSetKeyHash c H).distribution]
      exact hc
    case sortHosts =>
      simp only [behaviorSet, runDistribution_distribution]
      exact hc
    case ketamaWeighted =>
      simp only [behaviorSet, behaviorSetKetamaWeighted]
      split
      · exact behaviorSetDistribution_ne_max H now _ hc
      · exact behaviorSetDistribution_ne_max H now _ hc

theorem perform_ne_max (call : Call) (hc : c.distribution ≠ .consistentMax) :
    (c.perform H now call).2.distribution ≠ .consistentMax := by
  cases call with
  | serverAddWithWeight hostname port weight =>
    simp only [Memcached.perform, serverAddWithWeight]
    split
    · rwa [(sameRing_setError _ _ _).distribution]
    · rw [serverAdd_eq, runDistribution_distribution]
      exact hc
  | serverAddUnixSocketWithWeight filename weight =>
    simp only [Memcached.perform, serverAddUnixSocketWithWeight]
    split
    · split
      · rwa [(sameRing_setError _ _ _).distribution]
      · rw [serverAdd_eq, runDistribution_distribution]
        exact hc
    · rwa [(sameRing_setError _ _ _).distribution]
  | serverPush list =>
    simp only [Memcached.perform, serverPush, push_eq, runDistribution_distribution]
    exact hc
  | behaviorSet flag data => exact behaviorSet_ne_max H now flag data hc
  | bucketSet hostMap forwardMap buckets replicas =>
    have hvb := behaviorSetDistribution_ne_max H now .virtualBucket hc
    cases hostMap with
    | none => exact hc
    | some hostMap =>
      by_cases hb : buckets = 0
      · subst hb
        rw [Memcached.perform, bucketSet_of_zero]
        exact behaviorSetDistribution_ne_max H now _ hvb
      · rw [Memcached.perform, bucketSet_of_ne_zero H c now hostMap forwardMap hb,
          virtualBucketCreate, dif_neg hb]
        exact hvb
  | setNamespace key => rwa [Memcached.perform, (sameRing_setNamespace c key).distribution]
  | serversReset | setConfigurationFile | markForRetry => exact hc

end

theorem configured_ne_max (H : Hashes) (calls : List (Call × Nat)) :
    (configured H calls).distribution ≠ .consistentMax := by
  have hstep : ∀ (c : Memcached) (action : Call × Nat), c.distribution ≠ .consistentMax →
      (step H c action).distribution ≠ .consistentMax :=
    fun c action hc => perform_ne_max H action.2 action.1 hc
  exact runFrom_invariant hstep calls (by decide)

theorem SameToCaller.weighted (h : SameToCaller H c d) (hd : d.distribution = c.distribution)
    (hcons : c.isConsistentDistribution = true) : d.ketama.weighted = c.ketama.weighted := by
  have hcons' : d.isConsistentDistribution = true := by rwa [isConsistentDistribution, hd]
  have hflag := h.behaviorGet ⟨0, 0, false⟩ .ketamaWeighted
  simp only [Memcached.behaviorGet, hcons, hcons', Bool.true_and] at hflag
  have hinj : ∀ a b : Bool, a.toUInt64 = b.toUInt64 → a = b := by decide
  exact hinj _ _ hflag

theorem weightedAfter_of_not_consistent (hcons : ¬ c.isConsistentDistribution = true) :
    weightedAfter c.distribution c.ketama.weighted = c.ketama.weighted := by
  unfold isConsistentDistribution at hcons
  cases hd : c.distribution <;> simp [hd, weightedAfter] at hcons ⊢

/-- A ketama client with a host of weight 3. -/
def weightedKetama : List (Call × Nat) :=
  [(.behaviorSet .ketama 1, 0),
    (.serverPush [letterHost 'a', ⟨['b'.toUInt8], defaultPort, 3, .tcp, rfl, by decide⟩], 0)]

end LM.Memcached
