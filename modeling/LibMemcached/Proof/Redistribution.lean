import LibMemcached.Proof.Continuum

/-!
# What a change of the host list moves

On an unweighted continuum a host's points depend on the host alone. So a new
host adds points and an ejected one takes points off, and by `Ring.lookup_filter`
no key moves but those of the points that come or go.
-/

namespace LM.Memcached

open List Hashkit

variable {H : Hashes} {ptr : Memcached} {now : Nat} {now' hash : Nat} {points : List ContinuumItem}
  {x : ContinuumItem} {server : Server} {nextRetry k : Nat}

/-- A client with an unweighted continuum that keeps its hosts in the order they
were added. -/
structure PlainKetama (ptr : Memcached) : Prop where
  consistent : ptr.isConsistentDistribution = true
  unweighted : ptr.ketama.weighted = false
  unsorted : ptr.flags.useSortHosts = false

theorem PlainKetama.runDistribution_eq (hp : ptr.PlainKetama) :
    ptr.runDistribution H now = ptr.updateContinuum H now := by
  have hd := hp.consistent
  unfold isConsistentDistribution at hd
  unfold runDistribution
  rw [hp.unsorted]
  split at hd <;> simp_all

theorem PlainKetama.updateContinuum (hp : ptr.PlainKetama) (H : Hashes) (now : Nat) :
    (ptr.updateContinuum H now).2.PlainKetama where
  consistent := by simpa [isConsistentDistribution] using hp.consistent
  unweighted := by simpa using hp.unweighted
  unsorted := by simpa using hp.unsorted

/-! ## Points of a host -/

/-- The points of a host on an unweighted continuum. -/
def plainPoints (H : Hashes) (hashkit : Hashkit) (distribution : Distribution)
    (host : Instance × Nat) : List ContinuumItem :=
  (List.range pointsPerServer).map fun pointerIndex =>
    ⟨host.2, hashkit.digest H (sortHost distribution host.1.toServer pointerIndex)⟩

theorem filter_plainPoints (hashkit : Hashkit) (distribution : Distribution)
    (host : Instance × Nat) (p : Nat → Bool) :
    (plainPoints H hashkit distribution host).filter (fun item => p item.index) =
      if p host.2 then plainPoints H hashkit distribution host else [] := by
  rcases hp : p host.2 <;> simp [plainPoints, hp, filter_map, Function.comp_def]

theorem continuumPoints_of_unweighted (hw : ptr.ketama.weighted = false) :
    ptr.continuumPoints H now = ptr.servers.zipIdx.flatMap fun host =>
        if ptr.isEjected now host.1 then [] else plainPoints H ptr.hashkit ptr.distribution host := by
  have hpts : ptr.hostPoints H now = plainPoints H ptr.hashkit ptr.distribution := by
    funext host
    simp [hostPoints, hw, plainPoints]
  rw [continuumPoints, hpts]
  induction ptr.servers.zipIdx with
  | nil => rfl
  | cons host hosts ih =>
    rcases hej : ptr.isEjected now host.1 <;> simp [hej, ih]

/-- The continuum after a rebuild that finds points to put on it. -/
theorem rebuiltContinuum_eq (h : ptr.continuumPoints H now ≠ []) :
    ptr.rebuiltContinuum H now = (ptr.continuumPoints H now).insertionSort ContinuumItem.le := by
  obtain ⟨item, hitem⟩ := exists_mem_of_ne_nil _ h
  obtain ⟨server, hget, hej⟩ := host_of_mem_continuumPoints H ptr now hitem
  have hlive := (liveServers_ne_zero_iff ptr now).mpr ⟨server, mem_of_getElem? hget, hej⟩
  rw [rebuiltContinuum, if_neg hlive]

theorem continuumPoints_ne_nil (hw : ptr.ketama.weighted = false) {i : Nat} {server : Instance}
    (hget : ptr.servers[i]? = some server) (hej : ptr.isEjected now server = false) :
    ptr.continuumPoints H now ≠ [] := by
  rw [continuumPoints_of_unweighted hw]
  intro hnil
  have := flatMap_eq_nil_iff.mp hnil (server, i) (mem_zipIdx_iff_getElem?.mpr hget)
  simp [hej, plainPoints, pointsPerServer] at this

/-! ## Routing -/

/-- The route of a hash after a rebuild: a lookup among the points. -/
theorem PlainKetama.dispatchHost_rebuilt (hp : ptr.PlainKetama)
    (h : ptr.continuumPoints H now ≠ []) (random : Nat) (hash : UInt32) :
    (ptr.updateContinuum H now).2.dispatchHost random hash = (Ring.lookup ContinuumItem.position
        ((ptr.continuumPoints H now).insertionSort ContinuumItem.le) hash.toNat).map (·.index) := by
  rw [dispatchHost_of_sorted (hp.updateContinuum H now).consistent] <;>
    rw [updateContinuum_continuum, rebuiltContinuum_eq h]
  exact sorted_insertionSort _

section

variable (hx : Ring.lookup ContinuumItem.position (points.insertionSort ContinuumItem.le) hash = some x)
include hx

/-- The point of a hash that stays on the ring when points are taken off. -/
theorem lookup_of_filter {p : ContinuumItem → Bool} (hpx : p x = true) :
    Ring.lookup ContinuumItem.position ((points.filter p).insertionSort ContinuumItem.le) hash = some x := by
  rw [← Ring.insertionSort_filter]
  exact Ring.lookup_filter hx hpx

theorem mem_points_of_lookup : x ∈ points :=
  (mem_insertionSort _).mp (Ring.mem_of_lookup hx)

end

theorem exists_lookup_of_ne_nil (h : points ≠ []) (hash : Nat) :
    ∃ x, Ring.lookup ContinuumItem.position (points.insertionSort ContinuumItem.le) hash = some x := by
  refine Option.ne_none_iff_exists'.mp fun hnone => h ?_
  have := Ring.lookup_eq_none_iff.mp hnone
  simpa using congrArg List.length this

/-! ## A new host -/

/-- The client with one host more, before the continuum is rebuilt. -/
def withServer (ptr : Memcached) (server : Server) : Memcached :=
  { ptr with servers := ptr.servers ++ [Instance.ofServer server] }

section

variable (server : Server)

@[simp] theorem servers_withServer :
    (ptr.withServer server).servers = ptr.servers ++ [Instance.ofServer server] := rfl

@[simp] theorem withServer_keeps : (ptr.withServer server).isEjected = ptr.isEjected ∧
    (ptr.withServer server).hashkit = ptr.hashkit ∧ (ptr.withServer server).distribution = ptr.distribution :=
  ⟨rfl, rfl, rfl⟩

end

theorem PlainKetama.withServer (hp : ptr.PlainKetama) (server : Server) :
    (ptr.withServer server).PlainKetama :=
  ⟨hp.consistent, hp.unweighted, hp.unsorted⟩

theorem PlainKetama.serverAdd_eq (hp : ptr.PlainKetama) (hweight : server.weight ≤ 1) :
    ptr.serverAdd H now server = (ptr.withServer server).updateContinuum H now := by
  have hlight : ¬ server.weight > 1 := by simpa using hweight
  rw [← (hp.withServer server).runDistribution_eq]
  simp [serverAdd, hlight, Memcached.withServer]

section

variable (hw : ptr.ketama.weighted = false) (server : Server)
include hw

/-- The new host's points come after those of the hosts that were there. -/
theorem continuumPoints_withServer :
    (ptr.withServer server).continuumPoints H now = ptr.continuumPoints H now ++
        plainPoints H ptr.hashkit ptr.distribution (Instance.ofServer server, ptr.serverCount) := by
  have hnew : ptr.isEjected now (Instance.ofServer server) = false := by
    simp [isEjected, Instance.ofServer]
  rw [continuumPoints_of_unweighted hw, continuumPoints_of_unweighted (by exact hw)]
  rw [servers_withServer, zipIdx_append, flatMap_append]
  congr 1
  simp [hnew, serverCount]

/-- The points that do not belong to the new host are those of the old hosts. -/
theorem filter_continuumPoints_withServer : ((ptr.withServer server).continuumPoints H now).filter
        (fun item => decide (item.index ≠ ptr.serverCount)) = ptr.continuumPoints H now := by
  rw [continuumPoints_withServer hw, filter_append]
  have hnew := filter_plainPoints (H := H) ptr.hashkit ptr.distribution
    (Instance.ofServer server, ptr.serverCount) (fun i => decide (i ≠ ptr.serverCount))
  rw [hnew, filter_eq_self.mpr]
  · simp
  · intro item hitem
    obtain ⟨_, hget, -⟩ := host_of_mem_continuumPoints H ptr now hitem
    have := (List.getElem?_eq_some_iff.mp hget).1
    exact decide_eq_true (Nat.ne_of_lt this)

end

theorem route_eq_zero_of_single (h1 : ptr.serverCount = 1)
    (hx : Ring.lookup ContinuumItem.position ((ptr.continuumPoints H now).insertionSort ContinuumItem.le) hash = some x) :
    x.index = 0 := by
  obtain ⟨_, hget, -⟩ := host_of_mem_continuumPoints H ptr now (mem_points_of_lookup hx)
  have := (List.getElem?_eq_some_iff.mp hget).1
  unfold serverCount at h1
  omega

/-- The hash of a key is the same in two clients with the same settings that both
have, or both do not have, a single host. -/
theorem generateHashWrapper_congr {ptr' : Memcached} (hflags : ptr'.flags = ptr.flags)
    (hhash : ptr'.hashkit = ptr.hashkit) (hns : ptr'.namespace_ = ptr.namespace_)
    (hcount : ptr'.serverCount = 1 ↔ ptr.serverCount = 1) (key : Bytes) :
    ptr'.generateHashWrapper H key = ptr.generateHashWrapper H key := by
  simp only [generateHashWrapper, hflags, hhash, hns, hcount]

@[simp] theorem isEjected_updateContinuum (now' : Nat) (server : Instance) :
    (ptr.updateContinuum H now).2.isEjected now' server = ptr.isEjected now' server := by
  simp [isEjected]

theorem continuumPoints_updateContinuum (now' : Nat) :
    (ptr.updateContinuum H now).2.continuumPoints H now' = ptr.continuumPoints H now' := by
  rw [updateContinuum_frame]
  rfl

theorem continuumPoints_of_isEjected_eq (hw : ptr.ketama.weighted = false)
    (hlive : ∀ s ∈ ptr.servers, ptr.isEjected now' s = ptr.isEjected now s) :
    ptr.continuumPoints H now' = ptr.continuumPoints H now := by
  rw [continuumPoints_of_unweighted hw, continuumPoints_of_unweighted hw]
  refine flatMap_congr fun host hhost => ?_
  rw [hlive host.1 (mem_of_getElem? (mem_zipIdx_iff_getElem?.mp hhost))]

/-- After a host is added every key goes where it went before or to the new
host. -/
theorem PlainKetama.generateHash_serverAdd (hp : ptr.PlainKetama) (hweight : server.weight ≤ 1)
    (hlive : ∀ s ∈ ptr.servers, ptr.isEjected now' s = ptr.isEjected now s) (random : Nat) (key : Bytes) :
    ∃ i, ((ptr.updateContinuum H now).2.serverAdd H now' server).2.generateHash H random key = some i ∧
      (i = ptr.serverCount ∨ (ptr.updateContinuum H now).2.generateHash H random key = some i) := by
  have hp₀ := hp.updateContinuum H now
  rw [hp₀.serverAdd_eq hweight]
  generalize hold : (ptr.updateContinuum H now).2 = old at hp₀ ⊢
  have hcount : old.serverCount = ptr.serverCount := by simp [← hold, serverCount]
  have hpts : old.continuumPoints H now' = ptr.continuumPoints H now := by
    rw [← hold, continuumPoints_updateContinuum, continuumPoints_of_isEjected_eq hp.unweighted hlive]
  have hne : (old.withServer server).continuumPoints H now' ≠ [] := by
    rw [continuumPoints_withServer hp₀.unweighted]
    simp [plainPoints, pointsPerServer]
  obtain ⟨x, hx⟩ := exists_lookup_of_ne_nil hne
    (((old.withServer server).updateContinuum H now').2.generateHashWrapper H key).toNat
  refine ⟨x.index, ?_, ?_⟩
  · rw [generateHash, (hp₀.withServer server).dispatchHost_rebuilt hne, hx]
    rfl
  rw [← hcount]
  refine Classical.or_iff_not_imp_left.mpr fun hindex => ?_
  -- the point of the key is one of the old hosts', so it was on the ring before
  have hx₀ := lookup_of_filter (p := fun item => decide (item.index ≠ old.serverCount)) hx
    (decide_eq_true hindex)
  rw [filter_continuumPoints_withServer hp₀.unweighted, hpts] at hx₀
  have hne₀ : ptr.continuumPoints H now ≠ [] := ne_nil_of_mem (mem_points_of_lookup hx₀)
  rw [generateHash, ← hold, hp.dispatchHost_rebuilt hne₀, hold]
  by_cases h1 : old.serverCount = 1
  · obtain ⟨y, hy⟩ := exists_lookup_of_ne_nil hne₀ (old.generateHashWrapper H key).toNat
    rw [hcount] at h1
    rw [hy, Option.map_some, route_eq_zero_of_single h1 hy, route_eq_zero_of_single h1 hx₀]
  · -- with an empty list before there is no old host for the point to belong to
    have hpos : old.serverCount ≠ 0 := by
      obtain ⟨_, hget, -⟩ := host_of_mem_continuumPoints H ptr now (mem_points_of_lookup hx₀)
      have := (List.getElem?_eq_some_iff.mp hget).1
      unfold serverCount at hcount ⊢
      omega
    have hhash : ((old.withServer server).updateContinuum H now').2.generateHashWrapper H key =
        old.generateHashWrapper H key := by
      refine generateHashWrapper_congr ?_ ?_ ?_ ?_ key
      · simp [Memcached.withServer]
      · simp
      · simp [Memcached.withServer]
      · have : ((old.withServer server).updateContinuum H now').2.serverCount =
            old.serverCount + 1 := by simp [serverCount]
        omega
    rw [← hhash, hx₀]
    rfl

/-! ## An ejected host -/

theorem PlainKetama.markForRetry (hp : ptr.PlainKetama) (k nextRetry : Nat) :
    (ptr.markForRetry k nextRetry).PlainKetama :=
  ⟨hp.consistent, hp.unweighted, hp.unsorted⟩

@[simp] theorem servers_markForRetry (k nextRetry : Nat) :
    (ptr.markForRetry k nextRetry).servers =
      ptr.servers.modify k fun s => { s with nextRetry := nextRetry } := rfl

@[simp] theorem isEjected_markForRetry (k nextRetry : Nat) :
    (ptr.markForRetry k nextRetry).isEjected = ptr.isEjected := rfl

theorem zipIdx_modify {α : Type*} (f : α → α) (l : List α) (k : Nat) :
    (l.modify k f).zipIdx = l.zipIdx.map fun x => (if x.2 = k then f x.1 else x.1, x.2) := by
  refine ext_getElem? fun i => ?_
  rw [List.getElem?_zipIdx, List.getElem?_modify, List.getElem?_map, List.getElem?_zipIdx]
  rcases l[i]? with _ | a
  · rfl
  · by_cases h : k = i <;> simp [h, eq_comm]

/-- The points after host `k` is ejected: those of before without its own. -/
theorem continuumPoints_markForRetry (hw : ptr.ketama.weighted = false)
    (hauto : ptr.flags.autoEjectHosts = true) (hfuture : now' < nextRetry)
    (hlive : ∀ i s, i ≠ k → ptr.servers[i]? = some s → ptr.isEjected now' s = ptr.isEjected now s) :
    (ptr.markForRetry k nextRetry).continuumPoints H now' =
      (ptr.continuumPoints H now).filter fun item => decide (item.index ≠ k) := by
  rw [continuumPoints_of_unweighted hw, continuumPoints_of_unweighted (by exact hw),
    filter_flatMap, servers_markForRetry, zipIdx_modify, flatMap_map]
  refine flatMap_congr fun host hhost => ?_
  have hget := mem_zipIdx_iff_getElem?.mp hhost
  have hfilter := filter_plainPoints (H := H) ptr.hashkit ptr.distribution host
    (fun i => decide (i ≠ k))
  rw [apply_ite (List.filter _), hfilter, filter_nil, isEjected_markForRetry]
  by_cases hk : host.2 = k
  · -- the marked host has no points left
    have hmarked : ptr.isEjected now' { host.1 with nextRetry := nextRetry } = true := by
      simp [isEjected, hauto, hfuture]
    simp [hk, hmarked]
  · have hsame := hlive host.2 host.1 hk hget
    simp only [hk, hsame, if_false, ne_eq, not_false_eq_true, decide_true, if_true]
    rfl

/-- After a host is ejected the keys of the others stay where they are, and the
ejected host gets none. -/
theorem PlainKetama.generateHash_markForRetry (hp : ptr.PlainKetama)
    (hauto : ptr.flags.autoEjectHosts = true) {j : Nat} {other : Instance} (hfuture : now' < nextRetry)
    (hj : j ≠ k) (hother : ptr.servers[j]? = some other) (hotherLive : ptr.isEjected now' other = false)
    (hlive : ∀ i s, i ≠ k → ptr.servers[i]? = some s → ptr.isEjected now' s = ptr.isEjected now s)
    (random : Nat) (key : Bytes) :
    let before := (ptr.updateContinuum H now).2
    let after := ((before.markForRetry k nextRetry).updateContinuum H now').2
    (∃ i, after.generateHash H random key = some i ∧ i ≠ k) ∧
      ∀ i, before.generateHash H random key = some i → i ≠ k →
        after.generateHash H random key = some i := by
  intro before after
  have hp₀ := (hp.updateContinuum H now).markForRetry k nextRetry
  have hpts : (before.markForRetry k nextRetry).continuumPoints H now' =
      (ptr.continuumPoints H now).filter fun item => decide (item.index ≠ k) := by
    rw [← continuumPoints_updateContinuum now]
    refine continuumPoints_markForRetry (hp.updateContinuum H now).unweighted (by simpa [before])
      hfuture ?_
    simpa [before] using hlive
  have hgetj : (before.markForRetry k nextRetry).servers[j]? = some other := by
    simp [before, hother, hj.symm]
  have hne : (before.markForRetry k nextRetry).continuumPoints H now' ≠ [] := by
    refine continuumPoints_ne_nil hp₀.unweighted hgetj ?_
    simpa [before] using hotherLive
  have hne₀ : ptr.continuumPoints H now ≠ [] :=
    continuumPoints_ne_nil hp.unweighted hother (by rw [← hlive j other hj hother, hotherLive])
  have hhash : after.generateHashWrapper H key = before.generateHashWrapper H key :=
    generateHashWrapper_congr (by simp [after, before, Memcached.markForRetry])
      (by simp [after, before, Memcached.markForRetry])
      (by simp [after, before, Memcached.markForRetry])
      (by simp [after, before, Memcached.markForRetry, serverCount]) key
  have hroute : ∀ hash, after.dispatchHost random hash = _ := hp₀.dispatchHost_rebuilt hne random
  simp only [generateHash, hhash, hroute]
  constructor
  · obtain ⟨x, hx⟩ := exists_lookup_of_ne_nil hne (before.generateHashWrapper H key).toNat
    have hmem := mem_points_of_lookup hx
    rw [hpts] at hmem
    exact ⟨x.index, by rw [hx]; rfl, by simpa using (mem_filter.mp hmem).2⟩
  · intro i hi hik
    rw [hp.dispatchHost_rebuilt hne₀] at hi
    obtain ⟨x, hx, rfl⟩ := Option.map_eq_some_iff.mp hi
    rw [hpts, lookup_of_filter hx (decide_eq_true hik)]
    rfl

/-! ## Both together -/

/-- Consistent hashing moves only the keys it must. Whatever the hash functions,
the hosts and the key: adding a host leaves the key where it was or takes it to
the new host, and ejecting host `k` leaves every key that was not on `k` where
it was and gives `k` none. The hosts that are ejected for another reason are the
same before and after. -/
theorem ketama_moves_only_what_it_must (H : Hashes) (ptr : Memcached)
    (hp : ptr.PlainKetama) (now now' random : Nat) (key : Bytes) :
    let before := (ptr.runDistribution H now).2
    (∀ server : Server, server.weight ≤ 1 →
      (∀ s ∈ ptr.servers, ptr.isEjected now' s = ptr.isEjected now s) →
      ∃ i, (before.serverAdd H now' server).2.generateHash H random key = some i ∧
        (i = ptr.serverCount ∨ before.generateHash H random key = some i)) ∧
    (∀ k nextRetry : Nat, ptr.flags.autoEjectHosts = true → now' < nextRetry →
      (∃ j other, j ≠ k ∧ ptr.servers[j]? = some other ∧ ptr.isEjected now' other = false) →
      (∀ i s, i ≠ k → ptr.servers[i]? = some s → ptr.isEjected now' s = ptr.isEjected now s) →
      let after := ((before.markForRetry k nextRetry).runDistribution H now').2
      (∃ i, after.generateHash H random key = some i ∧ i ≠ k) ∧
        ∀ i, before.generateHash H random key = some i → i ≠ k →
          after.generateHash H random key = some i) := by
  intro before
  have hbefore : before = (ptr.updateContinuum H now).2 := by simp only [before, hp.runDistribution_eq]
  rw [hbefore]
  constructor
  · intro server hweight hlive
    exact hp.generateHash_serverAdd hweight hlive random key
  · intro k nextRetry hauto hfuture ⟨j, other, hj, hother, hotherLive⟩ hlive
    rw [((hp.updateContinuum H now).markForRetry k nextRetry).runDistribution_eq]
    exact hp.generateHash_markForRetry hauto hfuture hj hother hotherLive hlive random key

/-- A build in which every algorithm that is not embedded is FNV-1. -/
def fnvHashes : Hashes where
  md5 := fnv1_32
  crc32 := fnv1_32
  hsieh := fnv1_32
  murmur := fnv1_32
  murmur3 := fnv1_32
  jenkins := fnv1_32
  custom := fnv1_32
  md5Signature := fun key i => ((fnv1_32 key) >>> (8 * (i.val % 4)).toUInt32).toUInt8
  haveFnv64 := true
  haveHsieh := true
  haveMurmur := true

/-- A host with a name of one letter, on the default port. -/
def letterHost (letter : Char) : Server :=
  ⟨[letter.toUInt8], defaultPort, 1, .tcp, rfl, by decide⟩

/-- A client with two hosts, ketama and automatic ejection. -/
def twoHosts : Memcached :=
  { distribution := .consistentKetama
    flags := { autoEjectHosts := true }
    servers := [Instance.ofServer (letterHost 'a'), Instance.ofServer (letterHost 'b')] }

theorem ketama_moves_only_what_it_must_two_hosts :
    let before := (twoHosts.runDistribution fnvHashes 5).2
    (∃ i, (before.serverAdd fnvHashes 6 (letterHost 'c')).2.generateHash fnvHashes 0 [] = some i ∧
      (i = 2 ∨ before.generateHash fnvHashes 0 [] = some i)) ∧
    let after := ((before.markForRetry 1 9).runDistribution fnvHashes 6).2
    (∃ i, after.generateHash fnvHashes 0 [] = some i ∧ i ≠ 1) ∧
      ∀ i, before.generateHash fnvHashes 0 [] = some i → i ≠ 1 →
        after.generateHash fnvHashes 0 [] = some i := by
  obtain ⟨hadd, heject⟩ := ketama_moves_only_what_it_must fnvHashes twoHosts
    ⟨rfl, rfl, rfl⟩ 5 6 0 []
  refine ⟨hadd (letterHost 'c') (by decide) (by decide), heject 1 9 rfl (by decide) ?_ ?_⟩
  · exact ⟨0, Instance.ofServer (letterHost 'a'), by decide, rfl, rfl⟩
  · have hlive : ∀ s ∈ twoHosts.servers, twoHosts.isEjected 6 s = twoHosts.isEjected 5 s := by
      decide
    exact fun i s _ hs => hlive s (mem_of_getElem? hs)

end LM.Memcached
