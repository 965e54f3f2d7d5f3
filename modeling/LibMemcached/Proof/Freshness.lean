import LibMemcached.Proof.Continuum
import LibMemcached.Spec.Settings

/-!
# When the continuum is up to date

While no host is ejected the continuum that a rebuild makes is a function of the
hosts, the distribution, the weighted flag and the key hash (`specContinuum`).
A client is `Fresh` when its continuum is that one. Every call that ends in
`run_distribution` leaves a fresh client; of the others, only the selection of a
key hash can leave a stale one (`Fresh.perform`).
-/

namespace LM.Memcached

open List Hashkit

variable {H : Hashes} {c d : Memcached} {now : Nat}

/-- No host waits to be retried. -/
def Calm (c : Memcached) : Prop := ∀ s ∈ c.servers, s.nextRetry = 0

/-! ## A rebuild of a calm client -/

theorem Calm.isEjected_eq (h : c.Calm) (now : Nat) {s : Instance} (hs : s ∈ c.servers) :
    c.isEjected now s = false := by
  simp [isEjected, h s hs]

theorem Calm.liveServers_eq (h : c.Calm) (now : Nat) : c.liveServers now = c.serverCount := by
  unfold liveServers serverCount
  split
  · exact countP_eq_length.mpr fun s hs => by simp [h s hs]
  · rfl

theorem Calm.totalWeight_eq (h : c.Calm) (now : Nat) :
    c.totalWeight now = (c.servers.map fun s => s.weight.toNat).sum := by
  have : c.servers.filter (fun s => !c.isEjected now s) = c.servers :=
    filter_eq_self.mpr fun s hs => by simp [h.isEjected_eq now hs]
  rw [totalWeight, this]

theorem Calm.continuumPoints_eq (h : c.Calm) (H : Hashes) (now : Nat) :
    c.continuumPoints H now = c.servers.zipIdx.flatMap (c.hostPoints H now) := by
  rw [continuumPoints, filter_eq_self.mpr]
  intro host hhost
  have hs := mem_of_getElem? (mem_zipIdx_iff_getElem?.mp hhost)
  simp [h.isEjected_eq now hs]

/-- The part of a client that a rebuild reads while no host is ejected. -/
def core (c : Memcached) : Memcached :=
  { servers := c.servers
    distribution := c.distribution
    hashkit := { baseHash := c.hashkit.baseHash }
    ketama := { weighted := c.ketama.weighted } }

theorem Calm.hostPoints_eq (h : c.Calm) (H : Hashes) (now : Nat) :
    c.hostPoints H now = c.core.hostPoints H 0 := by
  have hcore : c.core.Calm := h
  funext host
  simp only [hostPoints, h.liveServers_eq, h.totalWeight_eq, hcore.liveServers_eq, hcore.totalWeight_eq]
  rfl

/-- The continuum of a calm client: a function of its core. -/
def specContinuum (H : Hashes) (c : Memcached) : List ContinuumItem :=
  (c.core.continuumPoints H 0).insertionSort ContinuumItem.le

theorem Calm.rebuiltContinuum_eq (h : c.Calm) (H : Hashes) (now : Nat)
    (hne : c.servers ≠ []) : c.rebuiltContinuum H now = c.specContinuum H := by
  have hcore : c.core.Calm := h
  have hlive : c.liveServers now ≠ 0 := by
    rw [h.liveServers_eq]
    exact fun h0 => hne (length_eq_zero_iff.mp h0)
  rw [rebuiltContinuum, if_neg hlive, specContinuum, h.continuumPoints_eq, h.hostPoints_eq,
    hcore.continuumPoints_eq]
  rfl

/-! ## Fresh clients -/

/-- No host is ejected, the hosts are sorted if they are to be, and the continuum
is the one that a rebuild would make. -/
structure Fresh (H : Hashes) (c : Memcached) : Prop where
  calm : c.Calm
  sorted : c.flags.useSortHosts = true → c.sortHosts.servers = c.servers
  continuum : c.isConsistentDistribution = true → c.servers ≠ [] →
    c.ketama.continuum = c.specContinuum H

/-- The two clients agree on everything that routing is built from. -/
structure SameRing (c d : Memcached) : Prop where
  servers : d.servers = c.servers
  useSortHosts : d.flags.useSortHosts = c.flags.useSortHosts
  distribution : d.distribution = c.distribution
  baseHash : d.hashkit.baseHash = c.hashkit.baseHash
  weighted : d.ketama.weighted = c.ketama.weighted
  continuum : d.ketama.continuum = c.ketama.continuum
  virtualBucket : d.virtualBucket = c.virtualBucket

theorem SameRing.rfl : SameRing c c := ⟨.refl _, .refl _, .refl _, .refl _, .refl _, .refl _, .refl _⟩

theorem SameRing.trans {e : Memcached} (h : SameRing c d) (h' : SameRing d e) : SameRing c e :=
  ⟨h'.servers.trans h.servers, h'.useSortHosts.trans h.useSortHosts,
    h'.distribution.trans h.distribution, h'.baseHash.trans h.baseHash,
    h'.weighted.trans h.weighted, h'.continuum.trans h.continuum,
    h'.virtualBucket.trans h.virtualBucket⟩

theorem SameRing.fresh (h : SameRing c d) (hc : c.Fresh H) : d.Fresh H where
  calm := by simpa [Calm, h.servers] using hc.calm
  sorted := by simpa [sortHosts, h.servers, h.useSortHosts] using hc.sorted
  continuum := by
    have hcore : d.core = c.core := by
      simp [core, h.servers, h.distribution, h.baseHash, h.weighted]
    simpa [isConsistentDistribution, h.distribution, h.servers, h.continuum, specContinuum,
      hcore] using hc.continuum

theorem Calm.arranged (h : c.Calm) : c.arranged.Calm :=
  fun s hs => h s ((mem_arranged c).mp hs)

theorem Calm.fresh_runDistribution (h : c.Calm) (H : Hashes) (now : Nat) :
    (c.runDistribution H now).2.Fresh H where
  calm := by simpa [Calm] using h.arranged
  sorted hsort := by
    have hsort : c.flags.useSortHosts = true := by simpa using hsort
    have : c.arranged = c.sortHosts := by simp [Memcached.arranged, hsort]
    simp only [sortHosts, runDistribution_servers, this]
    exact congrArg Memcached.servers (sortHosts_sortHosts c)
  continuum hd hne := by
    have hd : c.isConsistentDistribution = true := by simpa [isConsistentDistribution] using hd
    rw [runDistribution_servers] at hne
    rw [runDistribution_continuum, if_pos hd, h.arranged.rebuiltContinuum_eq H now hne]
    simp [specContinuum, core]

/-! ## Calls that leave routing alone -/

section

variable (c : Memcached) (rc : ReturnT) (message : String)

theorem setError_eq :
    ∃ messages, (c.setError rc message).2 = { c with errorMessages := messages } := by
  have herr : ∃ messages, c.errorSet rc message = { c with errorMessages := messages } := by
    unfold errorSet errorFree
    dsimp only
    repeat' split
    all_goals exact ⟨_, rfl⟩
  unfold setError
  rcases rc.isFatal
  · exact ⟨c.errorMessages, rfl⟩
  · exact herr

theorem sameRing_setError : SameRing c (c.setError rc message).2 := by
  obtain ⟨messages, h⟩ := setError_eq c rc message
  rw [h]
  exact ⟨rfl, rfl, rfl, rfl, rfl, rfl, rfl⟩

end

theorem sameRing_behaviorSetDistributionHash (c : Memcached) (H : Hashes) {type : Option Algorithm} :
    SameRing c (c.behaviorSetDistributionHash H type).2 := by
  have hset (function : Function) :
      SameRing c { c with hashkit := { c.hashkit with distributionHash := function } } :=
    ⟨rfl, rfl, rfl, rfl, rfl, rfl, rfl⟩
  unfold behaviorSetDistributionHash
  dsimp only
  split
  · exact hset _
  · exact (hset _).trans (sameRing_setError _ _ _)

/-- The behaviours that routing is built from. -/
def Behavior.isRouting : Behavior → Bool
  | .distribution | .ketama | .ketamaWeighted | .hash | .sortHosts => true
  | _ => false

theorem sameRing_behaviorSet (H : Hashes) (c : Memcached) (now : Nat) {flag : Behavior}
    (data : UInt64) (hflag : Behavior.isRouting flag = false) :
    SameRing c (c.behaviorSet H now flag data).2 := by
  cases flag <;> simp only [Behavior.isRouting, Bool.true_eq_false] at hflag
  case ketamaHash => exact sameRing_behaviorSetDistributionHash c H
  case serverFailureLimit | bufferRequests | verifyKey | noreply =>
    simp only [behaviorSet]
    split
    · exact sameRing_setError _ _ _
    · exact ⟨rfl, rfl, rfl, rfl, rfl, rfl, rfl⟩
  case cacheLookups | userData | cork | loadFromFile | max => exact sameRing_setError _ _ _
  case binaryProtocol | useUdp =>
    simp only [behaviorSet]
    split <;> exact ⟨rfl, rfl, rfl, rfl, rfl, rfl, rfl⟩
  all_goals exact ⟨rfl, rfl, rfl, rfl, rfl, rfl, rfl⟩

theorem sameRing_keyTest (key : Bytes) : SameRing c (c.keyTest key).2 := by
  unfold keyTest
  split
  · exact sameRing_setError _ _ _
  · split
    · exact sameRing_setError _ _ _
    · exact .rfl

theorem sameRing_setNamespace (c : Memcached) (key : Option Bytes) : SameRing c (c.setNamespace key).2 := by
  unfold setNamespace
  split
  · exact sameRing_setError _ _ _
  · rename_i key _
    have hverify : SameRing c { c with flags.verifyKey := true } := ⟨rfl, rfl, rfl, rfl, rfl, rfl, rfl⟩
    have htest := hverify.trans (sameRing_keyTest key)
    generalize keyTest _ key = result at htest
    obtain ⟨rc, d⟩ := result
    have hback : SameRing c { d with flags.verifyKey := c.flags.verifyKey } :=
      htest.trans ⟨rfl, rfl, rfl, rfl, rfl, rfl, rfl⟩
    dsimp only
    split
    · exact hback
    · split
      · exact hback.trans (sameRing_setError _ _ _)
      · exact hback.trans ⟨rfl, rfl, rfl, rfl, rfl, rfl, rfl⟩
  · exact ⟨rfl, rfl, rfl, rfl, rfl, rfl, rfl⟩

/-! ## Calls that rebuild -/

/-- The weighted flag after a distribution is selected. -/
def weightedAfter (type : Distribution) (weighted : Bool) : Bool :=
  match type with
  | .consistent | .consistentKetama => false
  | .consistentWeighted => true
  | _ => weighted

/-- The client with another distribution, before it is rebuilt. -/
def withDistribution (c : Memcached) (type : Distribution) : Memcached :=
  { c with
    distribution := type
    ketama := { c.ketama with weighted := weightedAfter type c.ketama.weighted } }

/-- The client with more hosts, before it is rebuilt. -/
def withServers (c : Memcached) (new : List Server) (weighted : Bool) : Memcached :=
  { c with
    servers := c.servers ++ new.map Instance.ofServer
    ketama := { c.ketama with weighted := weighted } }

section

variable (H : Hashes) (c : Memcached) (now : Nat)

theorem behaviorSetDistribution_eq {type : Distribution} (htype : type ≠ .consistentMax) :
    c.behaviorSetDistribution H now type = (c.withDistribution type).runDistribution H now := by
  cases type <;> first | exact absurd rfl htype | rfl

theorem behaviorSetDistribution_max : SameRing c (c.behaviorSetDistribution H now .consistentMax).2 :=
  sameRing_setError _ _ _

theorem serverAdd_eq (server : Server) : c.serverAdd H now server =
      (c.withServers [server] (c.ketama.weighted ||
        (decide (server.weight > 1) && c.isConsistentDistribution))).runDistribution H now := by
  have hd : isConsistentDistribution { c with servers := c.servers ++ [Instance.ofServer server] } =
      c.isConsistentDistribution := rfl
  simp only [serverAdd, hd, withServers, setWeightedKetama]
  cases hw : decide (server.weight > 1) && c.isConsistentDistribution <;> simp

theorem push_eq (list : List Server) : c.push H now list =
      (c.withServers list (c.ketama.weighted || list.any (·.weight > 1))).runDistribution H now := by
  unfold push withServers setWeightedKetama
  cases hw : list.any (·.weight > 1) <;> simp

end

theorem Calm.withServers (h : c.Calm) (new : List Server) (weighted : Bool) :
    (c.withServers new weighted).Calm := by
  intro s hs
  rcases mem_append.mp hs with hs | hs
  · exact h s hs
  · obtain ⟨server, -, rfl⟩ := mem_map.mp hs
    rfl

section

variable (hc : c.Fresh H) (now : Nat)
include hc

theorem Fresh.behaviorSetDistribution (type : Distribution) :
    (c.behaviorSetDistribution H now type).2.Fresh H := by
  by_cases htype : type = .consistentMax
  · subst htype
    exact (behaviorSetDistribution_max H c now).fresh hc
  · have hcalm : (c.withDistribution type).Calm := hc.calm
    rw [behaviorSetDistribution_eq H c now htype]
    exact hcalm.fresh_runDistribution H now

theorem Fresh.serverAdd (server : Server) : (c.serverAdd H now server).2.Fresh H := by
  rw [serverAdd_eq]
  exact (hc.calm.withServers _ _).fresh_runDistribution H now

theorem Fresh.push (list : List Server) : (c.push H now list).2.Fresh H := by
  rw [push_eq]
  exact (hc.calm.withServers _ _).fresh_runDistribution H now

end

/-! ## The key hash -/

/-- The continuum does not depend on the key hash: there is none, or its points
come from MD5 digests. -/
def HashUnread (c : Memcached) : Prop :=
  c.isConsistentDistribution = false ∨ c.ketama.weighted = true ∨ c.servers = []

instance : DecidablePred HashUnread := fun c =>
  inferInstanceAs (Decidable (_ ∨ _ ∨ c.servers = []))

/-- The client with another key hash. -/
def withBaseHash (c : Memcached) (function : Function) : Memcached :=
  { c with hashkit := { c.hashkit with baseHash := function } }

theorem specContinuum_withBaseHash (hw : c.ketama.weighted = true) (function : Function) :
    (c.withBaseHash function).specContinuum H = c.specContinuum H := by
  have hcalm : (c.withBaseHash function).core.hostPoints H 0 = c.core.hostPoints H 0 := by
    funext host
    simp only [hostPoints, core, withBaseHash, hw, if_true]
    rfl
  simp only [specContinuum, continuumPoints, hcalm]
  rfl

theorem Fresh.withBaseHash (hc : c.Fresh H) {function : Function}
    (h : function = c.hashkit.baseHash ∨ c.HashUnread) : (c.withBaseHash function).Fresh H := by
  rcases h with rfl | h
  · exact hc
  · refine ⟨hc.calm, hc.sorted, fun hd hne => ?_⟩
    rcases h with h | h | h
    · exact absurd hd (by simpa [isConsistentDistribution, Memcached.withBaseHash] using h)
    · rw [specContinuum_withBaseHash h]
      exact hc.continuum hd hne
    · exact absurd h hne

theorem sameRing_behaviorSetKeyHash (c : Memcached) (H : Hashes) {type : Option Algorithm} :
    SameRing (c.withBaseHash (setFunction H c.hashkit.baseHash type).2) (c.behaviorSetKeyHash H type).2 := by
  unfold behaviorSetKeyHash
  dsimp only
  split
  · exact .rfl
  · exact sameRing_setError _ _ _

/-! ## Every call -/

/-- A call that leaves a fresh client fresh: it ejects no host, and if it selects
another key hash then the continuum does not depend on it. -/
def KeepsFresh (H : Hashes) (c : Memcached) : Call → Prop
  | .behaviorSet .hash data =>
    (setFunction H c.hashkit.baseHash
        (Algorithm.ofData? data.toUInt32.toNat)).2 = c.hashkit.baseHash ∨ c.HashUnread
  | .markForRetry _ _ => False
  | _ => True

theorem Fresh.behaviorSet (hc : c.Fresh H) (now : Nat) (flag : Behavior) (data : UInt64)
    (hok : c.KeepsFresh H (.behaviorSet flag data)) : (c.behaviorSet H now flag data).2.Fresh H := by
  cases hflag : Behavior.isRouting flag
  · exact (sameRing_behaviorSet H c now data hflag).fresh hc
  · cases flag <;> simp only [Behavior.isRouting, Bool.false_eq_true] at hflag
    case distribution => exact hc.behaviorSetDistribution now _
    case ketama => exact hc.behaviorSetDistribution now _
    case hash => exact (sameRing_behaviorSetKeyHash c H).fresh (hc.withBaseHash hok)
    case sortHosts =>
      have hcalm : ({ c with flags.useSortHosts := boolOfData data } : Memcached).Calm := hc.calm
      exact hcalm.fresh_runDistribution H now
    case ketamaWeighted =>
      simp only [Memcached.behaviorSet, behaviorSetKetamaWeighted]
      split
      · -- the key hash may change here, but the rebuild that follows covers it
        rw [behaviorSetDistribution_eq H _ now (by decide)]
        refine Calm.fresh_runDistribution ?_ H now
        exact hc.calm
      · exact hc.behaviorSetDistribution now _

section

variable (H : Hashes) (c : Memcached) (now : Nat) (hostMap : Nat → UInt32) (forwardMap : Option (Nat → UInt32))

theorem bucketSet_of_zero (replicas : UInt32) : c.bucketSet H now (some hostMap) forwardMap 0 replicas =
      (.invalidArguments, ((c.behaviorSetDistribution H now .virtualBucket).2.behaviorSetDistribution
        H now c.distribution).2) := by
  have hrc : (c.behaviorSetDistribution H now .virtualBucket).1 = .success := by
    simp [behaviorSetDistribution]
  simp [bucketSet, virtualBucketCreate, hrc, ReturnT.isFailed]

theorem bucketSet_of_ne_zero {buckets : UInt32} (hb : buckets ≠ 0) (replicas : UInt32) :
    c.bucketSet H now (some hostMap) forwardMap buckets replicas =
      (c.behaviorSetDistribution H now .virtualBucket).2.virtualBucketCreate hostMap forwardMap
        buckets replicas := by
  have hrc : (c.behaviorSetDistribution H now .virtualBucket).1 = .success := by
    simp [behaviorSetDistribution]
  simp [bucketSet, virtualBucketCreate, hrc, hb, ReturnT.isFailed]

end

theorem Fresh.bucketSet (hc : c.Fresh H) (now : Nat) (hostMap forwardMap : Option (Nat → UInt32))
    (buckets replicas : UInt32) : (c.bucketSet H now hostMap forwardMap buckets replicas).2.Fresh H := by
  have hvb := hc.behaviorSetDistribution now .virtualBucket
  cases hostMap with
  | none => exact hc
  | some hostMap =>
    by_cases hb : buckets = 0
    · subst hb
      rw [bucketSet_of_zero]
      exact hvb.behaviorSetDistribution now _
    · rw [bucketSet_of_ne_zero H c now hostMap forwardMap hb]
      simp only [virtualBucketCreate, hb, dite_false]
      refine ⟨hvb.calm, hvb.sorted, fun hd => ?_⟩
      simp [isConsistentDistribution, Memcached.behaviorSetDistribution] at hd

theorem Fresh.perform (hc : c.Fresh H) (now : Nat) (call : Call) (hok : c.KeepsFresh H call) :
    (c.perform H now call).2.Fresh H := by
  cases call with
  | serverAddWithWeight hostname port weight =>
    simp only [Memcached.perform, serverAddWithWeight]
    split
    · exact (sameRing_setError _ _ _).fresh hc
    · exact hc.serverAdd now _
  | serverAddUnixSocketWithWeight filename weight =>
    simp only [Memcached.perform, serverAddUnixSocketWithWeight]
    split
    · split
      · exact (sameRing_setError _ _ _).fresh hc
      · exact hc.serverAdd now _
    · exact (sameRing_setError _ _ _).fresh hc
  | serverPush list => exact hc.push now list
  | serversReset => exact ⟨by simp [Calm, Memcached.perform, serversReset], fun _ => rfl, fun _ h => absurd rfl h⟩
  | behaviorSet flag data => exact hc.behaviorSet now flag data hok
  | bucketSet hostMap forwardMap buckets replicas => exact hc.bucketSet now _ _ _ _
  | setNamespace key => exact (sameRing_setNamespace c key).fresh hc
  | setConfigurationFile filename =>
    have hsame : SameRing c (c.setConfigurationFile filename) := ⟨rfl, rfl, rfl, rfl, rfl, rfl, rfl⟩
    exact hsame.fresh hc
  | markForRetry serverKey nextRetry => exact hok.elim

end LM.Memcached
