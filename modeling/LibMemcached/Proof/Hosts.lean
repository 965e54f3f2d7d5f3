import LibMemcached.Proof.Clone

/-!
# The continuum of a host list

What `update_continuum` leaves on an unweighted continuum and what `dispatch_host` reads off it
(`updateContinuum_builds_ring`): a hundred points for every host that is not ejected, in order, and
the time at which the next of the ejected hosts comes back.

With `SORT_HOSTS` the host list is a function of the set of hosts, so the order in which they were
added does not show in the routing (`sorted_hosts_route_alike`).
-/

namespace LM.Memcached

open List

variable {H : Hashkit.Hashes} {c d : Memcached} {now : Nat} {server : Server}

/-! ## Counting -/

/-- The hosts that `update_continuum` puts on the continuum. -/
def live (c : Memcached) (now : Nat) : List Instance := c.servers.filter fun s => !c.isEjected now s

/-- The hosts that it leaves out. -/
def ejected (c : Memcached) (now : Nat) : List Instance := c.servers.filter (c.isEjected now)

theorem liveServers_eq_length_live (c : Memcached) (now : Nat) : c.liveServers now = (c.live now).length := by
  rw [live, ← countP_eq_length_filter, liveServers]
  split
  · rename_i hej
    refine countP_congr fun s _ => ?_
    simp [isEjected, hej]
  · rename_i hej
    have hall : ∀ s ∈ c.servers, (!c.isEjected now s) = true := fun s _ => by simp [isEjected, hej]
    rw [countP_eq_length.mpr hall, serverCount]

theorem length_continuumPoints (hw : c.ketama.weighted = false) :
    (c.continuumPoints H now).length = pointsPerServer * (c.live now).length := by
  have hlive : ((c.servers.zipIdx.filter fun host => !c.isEjected now host.1).map Prod.fst) =
      c.live now := by
    rw [live, ← zipIdx_map_fst 0 c.servers, filter_map, zipIdx_map_fst]
    rfl
  have hpoints : ∀ host, (c.hostPoints H now host).length = pointsPerServer := fun host => by
    simp [hostPoints, hw]
  rw [continuumPoints, length_flatMap, ← hlive, length_map]
  simp [hpoints, Nat.mul_comm]

theorem continuumLimit_le_continuumCount (hw : c.ketama.weighted = false)
    (hlive : c.liveServers now ≠ 0) (hsmall : c.liveServers now < 2 ^ 24) :
    pointsPerServer * c.liveServers now ≤ (c.updateContinuum H now).2.ketama.continuumCount := by
  have hlimit : c.liveServers now * pointsPerServer % 2 ^ 32 = c.liveServers now * pointsPerServer :=
    Nat.mod_eq_of_lt (by simp only [pointsPerServer]; omega)
  simp only [updateContinuum, if_neg hlive, hw, Bool.false_eq_true, if_false, hlimit]
  split
  · rw [Nat.mod_eq_of_lt (by simp only [pointsPerServer, continuumAddition]; omega)]
    simp only [pointsPerServer]
    omega
  · simp only [pointsPerServer] at *
    omega

/-! ## The next rebuild -/

/-- The loop, once it has found an ejected host. -/
theorem foldl_nextRebuild (servers : List Instance) (rebuild : Nat) (hne : rebuild ≠ 0) :
    servers.foldl (fun rebuild s => if s.nextRetry ≤ now then rebuild
        else if rebuild = 0 ∨ s.nextRetry < rebuild then s.nextRetry else rebuild) rebuild =
      ((servers.filter fun s => decide (now < s.nextRetry)).map (·.nextRetry)).foldl min rebuild := by
  induction servers generalizing rebuild with
  | nil => rfl
  | cons s servers ih =>
    rw [foldl_cons]
    by_cases hs : s.nextRetry ≤ now
    · rw [if_pos hs, ih rebuild hne, filter_cons_of_neg (by simpa using hs)]
    · have hmin : (if rebuild = 0 ∨ s.nextRetry < rebuild then s.nextRetry else rebuild) =
          min rebuild s.nextRetry := by
        split <;> omega
      rw [if_neg hs, hmin, ih _ (by omega), filter_cons_of_pos (by simpa using hs),
        map_cons, foldl_cons]

/-- The next rebuild is due when the first of the ejected hosts may be tried again. -/
theorem nextRebuild_eq (hej : c.flags.autoEjectHosts = true) :
    c.nextRebuild now = (((c.ejected now).map (·.nextRetry)).min?).getD 0 := by
  have hejected : c.ejected now = c.servers.filter fun s => decide (now < s.nextRetry) := by
    refine filter_congr fun s _ => ?_
    simp [isEjected, hej]
  rw [nextRebuild, if_pos hej, hejected]
  induction c.servers with
  | nil => rfl
  | cons s servers ih =>
    rw [foldl_cons]
    by_cases hs : s.nextRetry ≤ now
    · rw [if_pos hs, ih, filter_cons_of_neg (by simpa using hs)]
    · rw [if_neg hs, if_pos (.inl rfl), foldl_nextRebuild _ _ (by omega),
        filter_cons_of_pos (by simpa using hs), map_cons, List.min?_cons', Option.getD_some]

/-! ## The ring -/

/-- The first entry that is not below a hash, or the first of all. -/
def entryFor (continuum : List ContinuumItem) (hash : UInt32) : Option ContinuumItem :=
  (continuum.find? fun item => decide (hash ≤ item.value)).or continuum.head?

theorem updateContinuum_builds_ring (H : Hashkit.Hashes) (c : Memcached) (now : Nat)
    (hw : c.ketama.weighted = false) (hcount : c.servers.length < 2 ^ 24)
    (hlive : ∃ s ∈ c.servers, c.isEjected now s = false) :
    let c' := (c.updateContinuum H now).2
    (c.updateContinuum H now).1 = .success ∧
      c'.ketama.continuum.length = 100 * (c.live now).length ∧
      c'.ketama.continuum.length ≤ c'.ketama.continuumCount ∧
      c'.ketama.continuum.Pairwise
        (fun a b => a.value < b.value ∨ a.value = b.value ∧ a.index ≤ b.index) ∧
      c'.ketama.continuum.Perm (c.servers.zipIdx.flatMap fun host =>
        if c.isEjected now host.1 then []
        else (List.range 100).map fun i =>
          ⟨host.2, c.hashkit.digest H (sortHost c.distribution host.1.toServer i)⟩) ∧
      (c.flags.autoEjectHosts = true →
        c'.ketama.nextDistributionRebuild = (((c.ejected now).map (·.nextRetry)).min?).getD 0) ∧
      (c.isConsistentDistribution = true → ∀ random hash, ∃ item,
        entryFor c'.ketama.continuum hash = some item ∧
          c'.dispatchHost random hash = some item.index) := by
  intro c'
  have hne := (liveServers_ne_zero_iff c now).mpr hlive
  have hcontinuum : c'.ketama.continuum =
      (c.continuumPoints H now).insertionSort ContinuumItem.le := by
    rw [updateContinuum_continuum, rebuiltContinuum, if_neg hne]
  have hsorted : Sorted c'.ketama.continuum := hcontinuum ▸ sorted_insertionSort _
  have hlength : c'.ketama.continuum.length = 100 * (c.live now).length := by
    rw [hcontinuum, length_insertionSort, length_continuumPoints hw]
    rfl
  have hle : (c.live now).length ≤ c.servers.length := length_filter_le _ _
  refine ⟨updateContinuum_fst H c now, hlength, ?_, ?_, ?_, ?_, ?_⟩
  · rw [hlength, ← liveServers_eq_length_live]
    refine continuumLimit_le_continuumCount hw hne ?_
    rw [liveServers_eq_length_live]
    omega
  · refine hsorted.imp fun h => ?_
    rw [UInt32.lt_iff_toNat_lt]
    exact ContinuumItem.le_iff.mp h
  · rw [hcontinuum]
    refine (perm_insertionSort _ _).trans (List.Perm.of_eq ?_)
    exact continuumPoints_of_unweighted hw
  · intro hej
    rw [← nextRebuild_eq hej]
    exact congrArg (fun r => r.2.ketama.nextDistributionRebuild) (updateContinuum_frame H c now)
  · intro hd random hash
    have hpoints : c'.ketama.continuum ≠ [] := by
      have := length_pos_iff.mpr (show c.live now ≠ [] by
        obtain ⟨s, hs, hej⟩ := hlive
        exact ne_nil_of_mem (mem_filter.mpr ⟨hs, by rw [hej]; rfl⟩))
      exact ne_nil_of_length_pos (by omega)
    have hconsistent : c'.isConsistentDistribution = true := by
      rw [isConsistentDistribution, updateContinuum_distribution]
      exact hd
    have hsome : Ring.lookup ContinuumItem.position c'.ketama.continuum hash.toNat ≠ none :=
      mt Ring.lookup_eq_none_iff.mp hpoints
    obtain ⟨item, hitem⟩ := Option.ne_none_iff_exists'.mp hsome
    refine ⟨item, hitem, ?_⟩
    rw [dispatchHost_of_sorted hconsistent hsorted, hitem, Option.map_some]

theorem updateContinuum_builds_ring_ejected :
    let c : Memcached := { twoHosts.markForRetry 1 9 with flags.autoEjectHosts := true }
    let c' := (c.updateContinuum fnvHashes 5).2
    c'.ketama.continuum.length = 100 ∧ c'.ketama.nextDistributionRebuild = 9 ∧
      ∃ item, entryFor c'.ketama.continuum 7 = some item ∧ c'.dispatchHost 0 7 = some item.index := by
  intro c c'
  obtain ⟨-, hlength, -, -, -, hrebuild, hdispatch⟩ :=
    updateContinuum_builds_ring fnvHashes c 5 rfl (by decide)
      ⟨Instance.ofServer (letterHost 'a'), by decide, by decide⟩
  exact ⟨hlength, hrebuild rfl, hdispatch rfl 0 7⟩

end LM.Memcached

namespace LM

open List

variable {server : Server}

/-! ## Hosts that are added one by one -/

/-- The host that a call adds, if its name is valid. -/
def Call.host? : Call → Option Server
  | .serverAddWithWeight hostname port weight =>
    let port := if port = 0 then defaultPort else port
    let hostname :=
      if hostname = [] then ['l', 'o', 'c', 'a', 'l', 'h', 'o', 's', 't'].map Char.toUInt8 else hostname
    let type := if hostname.head? = some '/'.toUInt8 then .unixSocket else .tcp
    Server.create? hostname port weight type
  | .serverAddUnixSocketWithWeight filename weight =>
    if isValidFilename filename then Server.create? filename 0 weight .unixSocket else none
  | _ => none

/-- The call adds one host, of weight at most 1. -/
def Call.AddsHost : Call → Prop
  | .serverAddWithWeight _ _ weight | .serverAddUnixSocketWithWeight _ weight => weight ≤ 1
  | _ => False

/-- What such a host is made of, but for its name and port. -/
structure Server.Light (server : Server) : Prop where
  weight : server.weight = 1
  type : server.type =
    if server.port = 0 ∨ server.hostname.head? = some '/'.toUInt8 then .unixSocket else .tcp

theorem Server.create?_eq_some {hostname : Bytes} {port : UInt16} {weight : UInt32} {type : ConnectionType}
    (h : create? hostname port weight type = some server) (hw : weight ≤ 1) :
    server.hostname = hostname ∧ server.port = port ∧ server.weight = 1 ∧ server.type = type := by
  unfold create? at h
  split at h
  · cases h
    refine ⟨rfl, rfl, ?_, rfl⟩
    split
    · rfl
    · rename_i hne
      rw [UInt32.le_iff_toNat_le] at hw
      rw [← UInt32.toNat_inj] at hne ⊢
      simp only [UInt32.toNat_zero, UInt32.toNat_one] at *
      omega
  · cases h

theorem Call.AddsHost.light {call : Call} (h : call.AddsHost) (hs : call.host? = some server) :
    server.Light := by
  cases call with
  | serverAddWithWeight hostname port weight =>
    obtain ⟨hname, hport, hweight, htype⟩ := Server.create?_eq_some hs h
    refine ⟨hweight, ?_⟩
    have hne : server.port ≠ 0 := by
      rw [hport]
      split
      · decide
      · assumption
    rw [htype, hname]
    simp [hne]
  | serverAddUnixSocketWithWeight filename weight =>
    simp only [Call.host?] at hs
    split at hs
    · obtain ⟨-, hport, hweight, htype⟩ := Server.create?_eq_some hs h
      exact ⟨hweight, by rw [htype, if_pos (.inl hport)]⟩
    · cases hs
  | _ => exact h.elim

theorem Server.Light.ext {a b : Server} (ha : a.Light) (hb : b.Light)
    (hname : a.hostname = b.hostname) (hport : a.port = b.port) : a = b := by
  have htype : a.type = b.type := by rw [ha.type, hb.type, hname, hport]
  have hweight : a.weight = b.weight := ha.weight.trans hb.weight.symm
  cases a
  cases b
  cases hname
  cases hport
  cases htype
  cases hweight
  rfl

namespace Memcached

variable {H : Hashkit.Hashes} {c d e : Memcached} {now : Nat} {hosts hosts' : List Server}

/-- The client `d` is `c` with hosts added. -/
structure Added (H : Hashkit.Hashes) (c : Memcached) (hosts : List Server) (d : Memcached) : Prop where
  fresh : d.Fresh H
  servers : d.servers.Perm (hosts.map Instance.ofServer)
  flags : d.flags = c.flags
  distribution : d.distribution = c.distribution
  hashkit : d.hashkit = c.hashkit
  weighted : d.ketama.weighted = c.ketama.weighted
  namespace_ : d.namespace_ = c.namespace_

theorem Added.start (hempty : c.servers = []) : Added H c [] c where
  fresh := ⟨by simp [Calm, hempty], by simp [sortHosts, hempty], by simp [hempty]⟩
  servers := by rw [hempty]; rfl
  flags := rfl
  distribution := rfl
  hashkit := rfl
  weighted := rfl
  namespace_ := rfl

theorem Added.setError (h : Added H c hosts d) (rc : ReturnT) (message : String) :
    Added H c hosts (d.setError rc message).2 := by
  have hfresh := (sameRing_setError d rc message).fresh h.fresh
  obtain ⟨messages, he⟩ := setError_eq d rc message
  rw [he] at hfresh ⊢
  exact ⟨hfresh, h.servers, h.flags, h.distribution, h.hashkit, h.weighted, h.namespace_⟩

theorem perm_arranged {c : Memcached} : c.arranged.servers.Perm c.servers := by
  unfold arranged
  split
  · exact perm_insertionSort _ _
  · rfl

theorem Added.serverAdd (h : Added H c hosts d) (now : Nat) (hw : server.weight = 1) :
    Added H c (hosts ++ [server]) (d.serverAdd H now server).2 := by
  have hfresh := h.fresh.serverAdd now server
  have hlight : decide (server.weight > 1) = false := by rw [hw]; rfl
  rw [serverAdd_eq, hlight, Bool.false_and, Bool.or_false] at hfresh ⊢
  refine ⟨hfresh, ?_, ?_, ?_, ?_, ?_, ?_⟩
  · rw [runDistribution_servers, map_append]
    exact perm_arranged.trans (h.servers.append_right _)
  · rw [runDistribution_flags]
    exact h.flags
  · rw [runDistribution_distribution]
    exact h.distribution
  · rw [runDistribution_hashkit]
    exact h.hashkit
  · rw [runDistribution_weighted]
    exact h.weighted
  · rw [runDistribution_namespace]
    exact h.namespace_

theorem Added.step (h : Added H c hosts d) {action : Call × Nat} (hadds : action.1.AddsHost) :
    Added H c (hosts ++ action.1.host?.toList) (d.step H action) := by
  obtain ⟨call, now⟩ := action
  cases hhost : call.host? with
  | some server =>
    have hlight := hadds.light hhost
    have hstep : d.step H (call, now) = (d.serverAdd H now server).2 := by
      cases call with
      | serverAddWithWeight hostname port weight =>
        simp only [Call.host?] at hhost
        simp only [Memcached.step, perform, serverAddWithWeight, hhost]
      | serverAddUnixSocketWithWeight filename weight =>
        simp only [Call.host?] at hhost
        split at hhost
        · simp only [Memcached.step, perform, serverAddUnixSocketWithWeight, *, if_true]
        · cases hhost
      | _ => exact hadds.elim
    rw [hstep]
    exact h.serverAdd now hlight.weight
  | none =>
    rw [Option.toList_none, append_nil]
    cases call with
    | serverAddWithWeight hostname port weight =>
      simp only [Call.host?] at hhost
      simp only [Memcached.step, perform, serverAddWithWeight, hhost]
      exact h.setError _ _
    | serverAddUnixSocketWithWeight filename weight =>
      simp only [Call.host?] at hhost
      simp only [Memcached.step, perform, serverAddUnixSocketWithWeight]
      split at hhost
      · simp only [*, if_true]
        exact h.setError _ _
      · simp only [*, if_false, Bool.false_eq_true]
        exact h.setError _ _
    | _ => exact hadds.elim

theorem Added.run (h : Added H c hosts d) {calls : List (Call × Nat)}
    (hadds : ∀ action ∈ calls, action.1.AddsHost) :
    Added H c (hosts ++ (calls.map Prod.fst).filterMap Call.host?) (runFrom (Memcached.step H) d calls) := by
  induction calls generalizing d hosts with
  | nil => simpa using h
  | cons action calls ih =>
    have hnext := ih (h.step (hadds action mem_cons_self)) fun a ha => hadds a (mem_cons_of_mem _ ha)
    rw [append_assoc] at hnext
    have hhosts : (List.map Prod.fst (action :: calls)).filterMap Call.host? =
        action.1.host?.toList ++ (calls.map Prod.fst).filterMap Call.host? := by
      cases hhost : action.1.host? <;> simp [hhost]
    rw [runFrom_cons, hhosts]
    exact hnext

/-! ## The order of the calls -/

theorem compareServers_antisymm {a b : Instance} (hab : compareServers a b ≤ 0)
    (hba : compareServers b a ≤ 0) : a.hostname = b.hostname ∧ a.port = b.port := by
  rw [compareServers_le_iff] at hab hba
  rcases hab with hlt | ⟨hname, hab⟩
  · rcases hba with hgt | ⟨hname, -⟩
    · rw [strcmp_neg_iff] at hgt
      omega
    · rw [hname, strcmp_self] at hlt
      omega
  · refine ⟨hname, UInt16.toNat_inj.mp ?_⟩
    rcases hba with hgt | ⟨-, hba⟩
    · rw [hname, strcmp_self] at hgt
      omega
    · omega

theorem Added.servers_eq (hd : Added H c hosts d) (he : Added H c hosts' e)
    (hsort : c.flags.useSortHosts = true) (hperm : hosts.Perm hosts')
    (hlight : ∀ server ∈ hosts, server.Light) : d.servers = e.servers := by
  have hpairwise : ∀ {d : Memcached} {hosts : List Server}, Added H c hosts d →
      d.servers.Pairwise fun a b => compareServers a b ≤ 0 := by
    intro d hosts hd
    rw [← hd.fresh.sorted (by rw [hd.flags]; exact hsort)]
    exact pairwise_insertionSort _ _
  refine List.Perm.eq_of_pairwise ?_ (hpairwise hd) (hpairwise he)
    (hd.servers.trans ((hperm.map _).trans he.servers.symm))
  intro a b ha hb hab hba
  obtain ⟨x, hx, rfl⟩ := mem_map.mp (hd.servers.mem_iff.mp ha)
  obtain ⟨y, hy, rfl⟩ := mem_map.mp (he.servers.mem_iff.mp hb)
  obtain ⟨hname, hport⟩ := compareServers_antisymm hab hba
  exact congrArg _ ((hlight x hx).ext (hlight y (hperm.mem_iff.mpr hy)) hname hport)

theorem Fresh.target_some (h : c.Fresh H)
    (hd : c.distribution = .modula ∨ c.isConsistentDistribution = true ∧ c.ketama.weighted = false)
    (hne : c.servers ≠ []) (random : Nat) (key : Bytes) : ∃ host, c.target H random key = some host := by
  have hsome : ∃ k s, c.generateHash H random key = some k ∧ c.servers[k]? = some s := by
    rcases hd with hd | ⟨hd, hw⟩
    · have hpos : 0 < c.serverCount := length_pos_iff.mpr hne
      have hlt : (c.generateHashWrapper H key).toNat % c.serverCount < c.servers.length :=
        Nat.mod_lt _ hpos
      refine ⟨_, _, ?_, List.getElem?_eq_getElem hlt⟩
      rw [generateHash, dispatchHost, hd, if_neg (by omega)]
    · have hcont := h.continuum hd hne
      have hsorted : Sorted c.ketama.continuum := hcont ▸ sorted_insertionSort _
      obtain ⟨s, servers, hs⟩ := exists_cons_of_ne_nil hne
      have hget : c.core.servers[0]? = some s := by
        show c.servers[0]? = some s
        rw [hs]
        rfl
      have hpoints : c.core.continuumPoints H 0 ≠ [] := continuumPoints_ne_nil hw hget rfl
      obtain ⟨item, hitem⟩ := exists_lookup_of_ne_nil hpoints (c.generateHashWrapper H key).toNat
      obtain ⟨s', hs', -⟩ :=
        host_of_mem_continuumPoints H c.core 0 (mem_points_of_lookup hitem)
      refine ⟨item.index, s', ?_, hs'⟩
      rw [generateHash, dispatchHost_of_sorted hd hsorted, hcont, specContinuum, hitem, Option.map_some]
  obtain ⟨k, s, hk, hs⟩ := hsome
  exact ⟨(s.hostname, s.port), by simp [target, hk, hs]⟩

theorem Added.target_eq (hd : Added H c hosts d) (he : Added H c hosts' e)
    (hservers : d.servers = e.servers) (hrandom : c.distribution ≠ .random)
    (hbucket : c.distribution ≠ .virtualBucket) (random random' : Nat) (key : Bytes) :
    d.target H random key = e.target H random' key := by
  by_cases hne : e.servers = []
  · simp [target, hservers, hne]
  · have hcount : d.serverCount = e.serverCount := congrArg List.length hservers
    have hhash : d.generateHashWrapper H key = e.generateHashWrapper H key := by
      simp only [generateHashWrapper, hcount, hd.flags, he.flags, hd.namespace_, he.namespace_,
        hd.hashkit, he.hashkit]
    have hdistribution : d.distribution = e.distribution := hd.distribution.trans he.distribution.symm
    rw [target, target, hservers, generateHash, generateHash, hhash]
    congr 1
    refine dispatchHost_congr hdistribution (by rwa [he.distribution]) hcount
      (fun h => absurd (he.distribution.symm.trans h) hbucket) (fun hcons => ?_) _
    have hcore : d.core = e.core := by
      simp only [core, hservers, hdistribution, hd.hashkit, he.hashkit, hd.weighted, he.weighted]
    have hcons' : d.isConsistentDistribution = true := by
      rwa [isConsistentDistribution, hdistribution]
    rw [hd.fresh.continuum hcons' (hservers ▸ hne), he.fresh.continuum hcons hne, specContinuum,
      specContinuum, hcore]

theorem sorted_hosts_route_alike (H : Hashkit.Hashes) (c : Memcached) (hempty : c.servers = [])
    (hsort : c.flags.useSortHosts = true)
    (hdist : c.distribution = .modula ∨
      c.isConsistentDistribution = true ∧ c.ketama.weighted = false)
    (calls calls' : List (Call × Nat)) (hadds : ∀ action ∈ calls, action.1.AddsHost)
    (hperm : (calls.map Prod.fst).Perm (calls'.map Prod.fst)) (random random' : Nat) (key : Bytes) :
    let d := runFrom (step H) c calls
    d.target H random key = (runFrom (step H) c calls').target H random' key ∧
      (d.servers ≠ [] → ∃ host, d.target H random key = some host) := by
  intro d
  have hadds' : ∀ action ∈ calls', action.1.AddsHost := by
    intro action haction
    have hmem := hperm.mem_iff.mpr (mem_map_of_mem haction)
    obtain ⟨action', haction', heq⟩ := mem_map.mp hmem
    rw [← heq]
    exact hadds action' haction'
  have hlight : ∀ server ∈ (calls.map Prod.fst).filterMap Call.host?, server.Light := by
    intro server hserver
    obtain ⟨call, hcall, hhost⟩ := mem_filterMap.mp hserver
    obtain ⟨action, haction, rfl⟩ := mem_map.mp hcall
    exact (hadds action haction).light hhost
  have hd := (Added.start (H := H) hempty).run hadds
  have he := (Added.start (H := H) hempty).run hadds'
  have hservers := hd.servers_eq he hsort (hperm.filterMap _) hlight
  refine ⟨hd.target_eq he hservers ?_ ?_ random random' key, fun hne => ?_⟩
  · rcases hdist with h | ⟨h, -⟩ <;> intro hr <;> simp [isConsistentDistribution, hr] at h
  · rcases hdist with h | ⟨h, -⟩ <;> intro hr <;> simp [isConsistentDistribution, hr] at h
  · refine hd.fresh.target_some ?_ hne random key
    rw [hd.distribution, hd.weighted, isConsistentDistribution, hd.distribution]
    exact hdist

theorem sorted_hosts_route_alike_two :
    let c : Memcached := { distribution := .consistentKetama, flags := { useSortHosts := true } }
    let a : Call := .serverAddWithWeight [97] 0 0
    let b : Call := .serverAddWithWeight [98] 5 1
    ∃ host, (runFrom (step fnvHashes) c [(a, 1), (b, 2)]).target fnvHashes 0 [107] = some host ∧
      (runFrom (step fnvHashes) c [(b, 3), (a, 4)]).target fnvHashes 0 [107] = some host := by
  intro c a b
  obtain ⟨heq, hsome⟩ := sorted_hosts_route_alike fnvHashes c rfl rfl (.inr ⟨rfl, rfl⟩)
    [(a, 1), (b, 2)] [(b, 3), (a, 4)] (by simp [a, b, Call.AddsHost]) (List.Perm.swap _ _ _) 0 0 [107]
  obtain ⟨host, hhost⟩ := hsome (by decide +kernel)
  exact ⟨host, hhost, heq ▸ hhost⟩

end Memcached

end LM
