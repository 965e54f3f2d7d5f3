import LibMemcached.Proof.Freshness
import LibMemcached.Proof.Redistribution

/-!
# Routing refines the settings

`Realises H c s`: the client `c` routes as the settings `s` say. The calls of
`Settles` keep the relation; the others are the ones after which the continuum
or the weighted flag is left over from an earlier configuration.
-/

namespace LM.Memcached

open Hashkit

variable {H : Hashes} {c d : Memcached} {s : Settings} {now : Nat} {data : UInt64}

/-- The client has the settings, and its continuum and its weighted flag are
those of the settings. -/
structure Realises (H : Hashes) (c : Memcached) (s : Settings) : Prop where
  fresh : c.Fresh H
  servers : c.servers = s.servers.map Instance.ofServer
  distribution : c.distribution = s.distribution
  hash : c.hashkit.baseHash = s.hash
  weighted : c.isConsistentDistribution = true → c.ketama.weighted = s.weighted
  emptied : c.servers = [] → c.ketama.continuum = []
  flags : c.flags = {}
  namespace_ : c.namespace_ = none
  virtualBucket : c.virtualBucket = none

theorem realises_create (H : Hashes) : Realises H create {} where
  fresh := ⟨by simp [Calm, create], by simp [create], by simp [create, isConsistentDistribution]⟩
  servers := rfl
  distribution := rfl
  hash := rfl
  weighted := by simp [create, isConsistentDistribution]
  emptied _ := rfl
  flags := rfl
  namespace_ := rfl
  virtualBucket := rfl

/-! ## Routing -/

theorem dispatchHost_congr {random random' : Nat} (hd : d.distribution = c.distribution)
    (hrandom : c.distribution ≠ .random) (hcount : d.serverCount = c.serverCount)
    (hvb : c.distribution = .virtualBucket → d.virtualBucket = c.virtualBucket)
    (hcont : c.isConsistentDistribution = true → d.ketama.continuum = c.ketama.continuum)
    (hash : UInt32) : d.dispatchHost random' hash = c.dispatchHost random hash := by
  unfold dispatchHost
  rw [hd]
  unfold isConsistentDistribution at hcont
  cases hc : c.distribution <;> simp_all [virtualBucketGet]

theorem Realises.generateHash_eq (h : Realises H c s) (hrandom : s.distribution ≠ .random)
    (random random' : Nat) (key : Bytes) : c.generateHash H random key = s.route H random' key := by
  have hcalm : s.client.Calm := by
    intro i hi
    obtain ⟨server, -, rfl⟩ := List.mem_map.mp hi
    rfl
  have hservers : (s.client.runDistribution H 0).2.servers = c.servers := by
    rw [runDistribution_servers, h.servers]
    rfl
  have hcount : c.serverCount = (s.client.runDistribution H 0).2.serverCount := by
    rw [serverCount, serverCount, hservers]
  have hhash : c.generateHashWrapper H key =
      (s.client.runDistribution H 0).2.generateHashWrapper H key := by
    have hdigest : c.hashkit.digest H = s.client.hashkit.digest H := by
      funext key
      simp [digest, h.hash, Settings.client]
    simp only [generateHashWrapper, hcount, runDistribution_flags, runDistribution_hashkit,
      runDistribution_namespace, h.flags, h.namespace_, hdigest]
    rfl
  rw [Settings.route, generateHash, generateHash, hhash]
  refine dispatchHost_congr ?_ ?_ hcount ?_ ?_ _
  · rw [runDistribution_distribution, h.distribution]
    rfl
  · rw [runDistribution_distribution]
    exact hrandom
  · intro _
    rw [runDistribution_virtualBucket, h.virtualBucket]
    rfl
  · intro hd'
    have hd : c.isConsistentDistribution = true := by
      simpa [isConsistentDistribution, h.distribution, Settings.client] using hd'
    by_cases hne : c.servers = []
    · have hnil : s.client.servers = [] := by rw [← hne, h.servers]; rfl
      have hlive : s.client.arranged.liveServers 0 = 0 := by
        rw [hcalm.arranged.liveServers_eq, serverCount, length_arranged, hnil, List.length_nil]
      rw [h.emptied hne, runDistribution_continuum, rebuiltContinuum, if_pos hlive, arranged_ketama,
        ite_self]
      rfl
    · have hfresh := hcalm.fresh_runDistribution H 0
      rw [h.fresh.continuum hd hne, hfresh.continuum hd' (by rw [hservers]; exact hne)]
      have hcore : (s.client.runDistribution H 0).2.core = c.core := by
        simp only [core, hservers, runDistribution_distribution, runDistribution_hashkit,
          runDistribution_weighted, h.distribution, h.hash, h.weighted hd]
        rfl
      rw [specContinuum, specContinuum, hcore]

/-! ## Steps -/

theorem realises_runDistribution {b : Memcached} (now : Nat)
    (hservers : b.servers = s.servers.map Instance.ofServer)
    (hdistribution : b.distribution = s.distribution) (hhash : b.hashkit.baseHash = s.hash)
    (hweighted : b.isConsistentDistribution = true → b.ketama.weighted = s.weighted)
    (hemptied : b.servers = [] → b.ketama.continuum = []) (hflags : b.flags = {})
    (hnamespace : b.namespace_ = none) (hvb : b.virtualBucket = none) :
    Realises H (b.runDistribution H now).2 s := by
  have harranged : b.arranged = b := by simp [arranged, hflags]
  have hcalm : b.Calm := by
    intro i hi
    rw [hservers] at hi
    obtain ⟨server, -, rfl⟩ := List.mem_map.mp hi
    rfl
  refine ⟨hcalm.fresh_runDistribution H now, ?_, ?_, ?_, ?_, ?_, ?_, ?_, ?_⟩
  · rw [runDistribution_servers, harranged, hservers]
  · rw [runDistribution_distribution, hdistribution]
  · rw [runDistribution_hashkit, hhash]
  · intro hd
    rw [runDistribution_weighted]
    exact hweighted (by simpa [isConsistentDistribution] using hd)
  · intro hnil
    rw [runDistribution_servers, harranged] at hnil
    have hlive : b.liveServers now = 0 := by
      rw [hcalm.liveServers_eq, serverCount, hnil, List.length_nil]
    rw [runDistribution_continuum, harranged, rebuiltContinuum, if_pos hlive, ite_self, hemptied hnil]
  · rw [runDistribution_flags, hflags]
  · rw [runDistribution_namespace, hnamespace]
  · rw [runDistribution_virtualBucket, hvb]

theorem Realises.setError (h : Realises H c s) (rc : ReturnT) (message : String) :
    Realises H (c.setError rc message).2 s := by
  have hfresh := (sameRing_setError c rc message).fresh h.fresh
  obtain ⟨messages, he⟩ := setError_eq c rc message
  rw [he] at hfresh ⊢
  exact ⟨hfresh, h.servers, h.distribution, h.hash, h.weighted, h.emptied, h.flags, h.namespace_,
    h.virtualBucket⟩

theorem Realises.serverAdd (h : Realises H c s) (now : Nat) (server : Server) :
    Realises H (c.serverAdd H now server).2 { s with servers := s.servers ++ [server] } := by
  rw [serverAdd_eq]
  refine realises_runDistribution now ?_ h.distribution h.hash ?_ ?_ h.flags h.namespace_
    h.virtualBucket
  · simp [withServers, h.servers]
  · intro hd
    have hd : c.isConsistentDistribution = true := hd
    simp [withServers, hd, h.weighted hd, Settings.weighted, Bool.or_assoc]
  · simp [withServers]

theorem Realises.push (h : Realises H c s) (now : Nat) (list : List Server) :
    Realises H (c.push H now list).2 { s with servers := s.servers ++ list } := by
  rw [push_eq]
  refine realises_runDistribution now ?_ h.distribution h.hash ?_ ?_ h.flags h.namespace_
    h.virtualBucket
  · simp [withServers, h.servers]
  · intro hd
    have hd : c.isConsistentDistribution = true := hd
    simp [withServers, h.weighted hd, Settings.weighted, Bool.or_assoc]
  · intro hnil
    exact h.emptied (List.append_eq_nil_iff.mp hnil).1

/-- A selected distribution finds the weighted flag as the hosts and the
distribution have it. -/
def SwitchSettles (c : Memcached) (type : Distribution) : Prop :=
  (c.withDistribution type).isConsistentDistribution = true →
    weightedAfter type c.ketama.weighted =
      (decide (type = .consistentWeighted) || c.servers.any (·.weight > 1))

instance (c : Memcached) (type : Distribution) : Decidable (c.SwitchSettles type) :=
  inferInstanceAs (Decidable (_ → _))

theorem Realises.behaviorSetDistribution (h : Realises H c s) (now : Nat) {type : Distribution}
    (hok : c.SwitchSettles type) : Realises H (c.behaviorSetDistribution H now type).2 (s.select type) := by
  by_cases htype : type = .consistentMax
  · subst htype
    exact h.setError _ _
  · have hselect : s.select type = { s with distribution := type } := by
      cases type <;> first | exact absurd rfl htype | rfl
    rw [behaviorSetDistribution_eq H c now htype, hselect]
    refine realises_runDistribution now h.servers rfl h.hash ?_ h.emptied h.flags h.namespace_
      h.virtualBucket
    intro hd
    simp only [withDistribution, hok hd, Settings.weighted, h.servers, List.any_map]
    rfl

/-- Only the number of `HASH_MAX` both fails and changes the function. -/
theorem select_eq_setFunction (function : Function)
    (hmax : Algorithm.ofData? data.toUInt32.toNat ≠ some .max) : select H function data =
      (setFunction H function (Algorithm.ofData? data.toUInt32.toNat)).2 := by
  unfold select
  generalize Algorithm.ofData? data.toUInt32.toNat = algorithm at hmax ⊢
  rcases algorithm with _ | algorithm
  · rfl
  · cases algorithm
    case max => exact absurd rfl hmax
    case fnv1_64 | fnv1a_64 | hsieh | murmur3 | murmur =>
      simp only [setFunction]
      split <;> rename_i heq <;> split at heq <;> simp_all
    all_goals rfl

/-- The calls that keep a client in step with its settings. A key hash is not
selected under a continuum that depends on it, nor by the number of `HASH_MAX`; a
distribution is selected, and the hosts are dropped, only where that leaves the
weighted flag as the hosts and the distribution have it. -/
def Settles (H : Hashes) (c : Memcached) : Call → Prop
  | .serverAddWithWeight _ _ _ => True
  | .serverPush _ => True
  | .serversReset =>
    c.isConsistentDistribution = true →
      c.ketama.weighted = decide (c.distribution = .consistentWeighted)
  | .behaviorSet .distribution data => c.SwitchSettles (.ofData data.toUInt32.toNat)
  | .behaviorSet .ketama data =>
    c.SwitchSettles (if boolOfData data then .consistentKetama else .modula)
  | .behaviorSet .ketamaWeighted data =>
    boolOfData data = false → c.SwitchSettles .consistentKetama
  | .behaviorSet .hash data =>
    c.KeepsFresh H (.behaviorSet .hash data) ∧
      Algorithm.ofData? data.toUInt32.toNat ≠ some .max
  | .behaviorSet .ketamaHash _ => True
  | _ => False

section

variable (h : Realises H c s)
include h

theorem Realises.behaviorSetKetamaWeighted (now : Nat)
    (hok : c.Settles H (.behaviorSet .ketamaWeighted data)) :
    Realises H (c.behaviorSet H now .ketamaWeighted data).2
      (s.step H (.behaviorSet .ketamaWeighted data)) := by
  simp only [behaviorSet, Memcached.behaviorSetKetamaWeighted, Settings.step]
  cases hon : boolOfData data
  · exact h.behaviorSetDistribution now (hok hon)
  · simp only [if_true]
    rw [behaviorSetDistribution_eq H _ now (by decide)]
    refine realises_runDistribution now h.servers rfl rfl ?_ h.emptied h.flags h.namespace_
      h.virtualBucket
    intro _
    simp [withDistribution, weightedAfter, Settings.weighted, Settings.select]

theorem Realises.behaviorSetDistributionHash (type : Option Algorithm) (function : Function) :
    Realises H (c.behaviorSetDistributionHash H type).2 { s with ketamaHash := function } := by
  have hset (other : Function) :
      Realises H { c with hashkit := { c.hashkit with distributionHash := other } }
        { s with ketamaHash := function } :=
    ⟨⟨h.fresh.calm, h.fresh.sorted, h.fresh.continuum⟩, h.servers, h.distribution, h.hash,
      h.weighted, h.emptied, h.flags, h.namespace_, h.virtualBucket⟩
  unfold Memcached.behaviorSetDistributionHash
  dsimp only
  split
  · exact hset _
  · exact (hset _).setError _ _

theorem Realises.behaviorSetKeyHash {type : Option Algorithm}
    (hok : (setFunction H c.hashkit.baseHash type).2 = c.hashkit.baseHash ∨ c.HashUnread) :
    Realises H (c.behaviorSetKeyHash H type).2
      { s with hash := (setFunction H c.hashkit.baseHash type).2 } := by
  have hset : Realises H (c.withBaseHash (setFunction H c.hashkit.baseHash type).2)
      { s with hash := (setFunction H c.hashkit.baseHash type).2 } :=
    ⟨h.fresh.withBaseHash hok, h.servers, h.distribution, rfl, h.weighted, h.emptied, h.flags,
      h.namespace_, h.virtualBucket⟩
  unfold Memcached.behaviorSetKeyHash
  dsimp only
  split
  · exact hset
  · exact hset.setError _ _

/-- One step: a call that settles keeps the client in step with the settings. -/
theorem Realises.step (action : Call × Nat) (hok : c.Settles H action.1) :
    Realises H (c.step H action) (s.step H action.1) := by
  obtain ⟨call, now⟩ := action
  cases call with
  | serverAddWithWeight hostname port weight =>
    simp only [Memcached.step, perform, serverAddWithWeight, Settings.step]
    split
    · rename_i hnone
      simp only [hnone, Option.toList_none, List.append_nil]
      exact h.setError _ _
    · rename_i server hsome
      simp only [hsome, Option.toList_some]
      exact h.serverAdd now server
  | serverPush list => exact h.push now list
  | serversReset =>
    refine ⟨h.fresh.perform now .serversReset trivial, rfl, h.distribution, h.hash, fun hd => ?_,
      fun _ => rfl, h.flags, h.namespace_, h.virtualBucket⟩
    have hreset : (s.step H .serversReset).weighted = decide (s.distribution = .consistentWeighted) :=
      Bool.or_false _
    rw [hreset]
    exact (hok hd).trans (decide_eq_decide.mpr (by rw [h.distribution]))
  | behaviorSet flag data =>
    cases flag
    case distribution => exact h.behaviorSetDistribution now hok
    case ketama => exact h.behaviorSetDistribution now hok
    case ketamaWeighted => exact h.behaviorSetKetamaWeighted now hok
    case ketamaHash => exact h.behaviorSetDistributionHash _ _
    case hash =>
      simp only [Settings.step, ← h.hash, select_eq_setFunction c.hashkit.baseHash hok.2]
      exact h.behaviorSetKeyHash hok.1
    all_goals exact hok.elim
  | serverAddUnixSocketWithWeight _ _ | bucketSet _ _ _ _ | setNamespace _
  | setConfigurationFile _ | markForRetry _ _ => exact hok.elim

end

/-- A run of settling calls ends in a client that realises its settings. -/
theorem realises_configured {calls : List (Call × Nat)}
    (h : Guarded (step H) (fun c action => c.Settles H action.1) create calls) :
    Realises H (configured H calls) (Settings.configured H calls) :=
  h.simulation (fun _ _ action hr hok => hr.step action hok) (realises_create H)

/-- Two clients configured by settling calls route alike when they end with the
same settings. -/
theorem generateHash_eq_of_settings_eq (H : Hashes) (calls calls' : List (Call × Nat))
    (h : Guarded (step H) (fun c action => c.Settles H action.1) create calls)
    (h' : Guarded (step H) (fun c action => c.Settles H action.1) create calls')
    (hsettings : Settings.configured H calls = Settings.configured H calls')
    (hrandom : (Settings.configured H calls).distribution ≠ .random) (random random' : Nat)
    (key : Bytes) :
    (configured H calls).generateHash H random key =
      (configured H calls').generateHash H random' key := by
  rw [(realises_configured h).generateHash_eq hrandom random 0,
    (realises_configured h').generateHash_eq (hsettings ▸ hrandom) random' 0, hsettings]

/-- `MEMCACHED_BEHAVIOR_DISTRIBUTION` is set to `CONSISTENT_KETAMA`. -/
def setKetama : Call × Nat := (.behaviorSet .distribution 2, 0)

/-- `MEMCACHED_BEHAVIOR_HASH` is set to `FNV1A_32`. -/
def setFnv1a : Call × Nat := (.behaviorSet .hash 6, 0)

/-- Hosts `a` and `b` are added. -/
def addTwoHosts : List (Call × Nat) :=
  [(.serverAddWithWeight ['a'.toUInt8] 0 0, 0), (.serverAddWithWeight ['b'.toUInt8] 0 0, 0)]

/-- The order of the two settings does not matter before the hosts are added. -/
theorem generateHash_eq_of_settings_eq_fnv1a :
    (configured fnvHashes (setFnv1a :: setKetama :: addTwoHosts)).generateHash fnvHashes 0 [] =
      (configured fnvHashes (setKetama :: setFnv1a :: addTwoHosts)).generateHash fnvHashes 1 [] :=
  generateHash_eq_of_settings_eq fnvHashes (setFnv1a :: setKetama :: addTwoHosts)
    (setKetama :: setFnv1a :: addTwoHosts)
    (.cons ⟨.inr (.inl rfl), by decide⟩ (.cons (fun _ => rfl) (.cons trivial (.cons trivial .nil))))
    (.cons (fun _ => rfl)
      (.cons ⟨.inr (.inr (.inr rfl)), by decide⟩ (.cons trivial (.cons trivial .nil))))
    rfl (by decide) 0 1 []

/-- With the hash set after the hosts, the points are still those of the default
hash while the key is hashed by the new one: the key `a` goes to the other host,
under the same settings. -/
theorem hash_set_after_hosts_reroutes :
    Settings.configured fnvHashes (setKetama :: setFnv1a :: addTwoHosts) =
        Settings.configured fnvHashes (setKetama :: addTwoHosts ++ [setFnv1a]) ∧
      (configured fnvHashes (setKetama :: setFnv1a :: addTwoHosts)).generateHash fnvHashes 0
          ['a'.toUInt8] = some 0 ∧
      (configured fnvHashes (setKetama :: addTwoHosts ++ [setFnv1a])).generateHash fnvHashes 0
          ['a'.toUInt8] = some 1 := by
  refine ⟨rfl, ?_, ?_⟩ <;> decide +kernel

end LM.Memcached
