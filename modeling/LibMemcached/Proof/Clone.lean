import LibMemcached.Proof.Settings

/-!
# Cloning

A clone gets its hosts through `memcached_instance_push`, which sets the weighted
flag from the weights and builds the continuum anew. So a clone routes like its
source when the source's continuum is fresh, its weighted flag is what the
weights say, and it has no bucket map to lose.
-/

namespace LM.Memcached

open Hashkit

variable {H : Hashes} {c d : Memcached} {now : Nat}

/-- The host and port that a key is sent to. -/
def target (H : Hashes) (c : Memcached) (random : Nat) (key : Bytes) :
    Option (Bytes × UInt16) :=
  (c.generateHash H random key).bind fun i => c.servers[i]?.map fun s => (s.hostname, s.port)

/-- What a clone of a fresh client is. -/
structure CloneOf (H : Hashes) (source d : Memcached) : Prop where
  fresh : d.Fresh H
  servers : d.servers = source.servers
  flags : d.flags = source.flags
  distribution : d.distribution = source.distribution
  hashkit : d.hashkit = source.hashkit
  weighted : d.ketama.weighted = source.servers.any (·.weight > 1)
  virtualBucket : d.virtualBucket = none
  namespace_ : d.namespace_ = source.namespace_
  filename : d.filename = source.namespace_

theorem Calm.map_ofServer (h : c.Calm) :
    (c.servers.map Instance.toServer).map Instance.ofServer = c.servers := by
  rw [List.map_map]
  refine (List.map_congr_left fun s hs => ?_).trans (List.map_id _)
  obtain ⟨server, nextRetry⟩ := s
  have : nextRetry = 0 := h _ hs
  simp [Instance.ofServer, this]

theorem Fresh.arranged_servers (hc : c.Fresh H) : c.arranged.servers = c.servers := by
  unfold arranged
  split
  · exact hc.sorted ‹_›
  · rfl

theorem arranged_servers_congr (hservers : d.servers = c.servers) (hflags : d.flags = c.flags) :
    d.arranged.servers = c.arranged.servers := by
  simp only [arranged, hflags]
  split <;> simp [sortHosts, hservers]

/-- The last part of `memcached_clone`: the hosts have been pushed, the names are
copied and the distribution is run once more. -/
theorem cloneOf_runDistribution {p : Memcached} (hc : c.Fresh H) (now : Nat)
    (hservers : p.servers = c.servers) (hflags : p.flags = c.flags)
    (hdistribution : p.distribution = c.distribution) (hhashkit : p.hashkit = c.hashkit)
    (hweighted : p.ketama.weighted = c.servers.any (·.weight > 1)) (hvb : p.virtualBucket = none) :
    CloneOf H c
      ({ p with namespace_ := c.namespace_, filename := c.namespace_ }.runDistribution H now).2 where
  fresh := by
    refine Calm.fresh_runDistribution ?_ H now
    intro s hs
    exact hc.calm s (hservers ▸ hs)
  servers := by
    rw [runDistribution_servers, ← hc.arranged_servers]
    exact arranged_servers_congr hservers hflags
  flags := by simp [hflags]
  distribution := by simp [hdistribution]
  hashkit := by simp [hhashkit]
  weighted := by simp [hweighted]
  virtualBucket := by simp [hvb]
  namespace_ := by simp
  filename := by simp

theorem Fresh.clone (hc : c.Fresh H) (now : Nat) : ∃ d, c.clone H now = some d ∧ CloneOf H c d := by
  unfold Memcached.clone
  by_cases hnil : c.serverCount = 0
  · have hempty : c.servers = [] := List.length_eq_zero_iff.mp hnil
    simp only [hnil, ne_eq, not_true_eq_false, if_false, ReturnT.isFailed, Bool.false_eq_true,
      runDistribution_fst]
    exact ⟨_, rfl, cloneOf_runDistribution (p := c.copySettings) hc now hempty.symm rfl rfl rfl
      (by rw [hempty]; rfl) rfl⟩
  · simp only [hnil, ne_eq, not_false_eq_true, if_true, instancePush, push_eq, runDistribution_fst,
      ReturnT.isFailed, Bool.false_eq_true, if_false]
    refine ⟨_, rfl, cloneOf_runDistribution hc now ?_ ?_ ?_ ?_ ?_ ?_⟩
    · rw [runDistribution_servers]
      refine Eq.trans (arranged_servers_congr ?_ ?_) hc.arranged_servers
      · exact hc.calm.map_ofServer
      · rfl
    · rw [runDistribution_flags]; rfl
    · rw [runDistribution_distribution]; rfl
    · rw [runDistribution_hashkit]; rfl
    · rw [runDistribution_weighted]
      simp [withServers, copySettings, create, List.any_map, Function.comp_def]
    · rw [runDistribution_virtualBucket]; rfl

theorem CloneOf.target_eq (h : CloneOf H c d) (hc : c.Fresh H) (hrandom : c.distribution ≠ .random)
    (hvb : c.distribution = .virtualBucket → c.virtualBucket = none)
    (hweighted : c.isConsistentDistribution = true →
      c.ketama.weighted = c.servers.any (·.weight > 1)) (random random' : Nat) (key : Bytes) :
    d.target H random' key = c.target H random key := by
  by_cases hnil : c.servers = []
  · simp [target, h.servers, hnil]
  have hcount : d.serverCount = c.serverCount := by rw [serverCount, serverCount, h.servers]
  have hhash : d.generateHashWrapper H key = c.generateHashWrapper H key :=
    generateHashWrapper_congr h.flags h.hashkit h.namespace_ (by rw [hcount]) key
  have hcont : c.isConsistentDistribution = true → d.ketama.continuum = c.ketama.continuum := by
    intro hd
    have hcore : d.core = c.core := by
      simp only [core, h.servers, h.distribution, h.hashkit, h.weighted, hweighted hd]
    rw [hc.continuum hd hnil, h.fresh.continuum
      (by simpa [isConsistentDistribution, h.distribution] using hd) (by rwa [h.servers]),
      specContinuum, specContinuum, hcore]
  have hroute : d.generateHash H random' key = c.generateHash H random key := by
    rw [generateHash, generateHash, hhash]
    exact dispatchHost_congr h.distribution hrandom hcount
      (fun hd => by rw [h.virtualBucket, hvb hd]) hcont _
  rw [target, target, hroute, h.servers]

theorem fresh_create (H : Hashes) : create.Fresh H := (realises_create H).fresh

theorem fresh_configured {calls : List (Call × Nat)}
    (hcalls : Guarded (step H) (fun c action => c.KeepsFresh H action.1) create calls) :
    (configured H calls).Fresh H :=
  hcalls.invariant (fun _ action hc hok => hc.perform action.2 action.1 hok) (fresh_create H)

/-- A clone behaves like its source: whatever calls configured the source, as long
as none of them ejects a host or changes a key hash in use, if at the time of
cloning the configuration file is named like the namespace, no bucket map is in
use, and the weighted flag of a continuum is what the weights say. -/
theorem clone_behaves_like_source (H : Hashes) (calls : List (Call × Nat))
    (hcalls : Guarded (step H) (fun c action => c.KeepsFresh H action.1) create calls)
    (hrandom : (configured H calls).distribution ≠ .random)
    (hfilename : (configured H calls).filename = (configured H calls).namespace_)
    (hvb : (configured H calls).distribution = .virtualBucket →
      (configured H calls).virtualBucket = none)
    (hweighted : (configured H calls).isConsistentDistribution = true →
      (configured H calls).ketama.weighted = (configured H calls).servers.any (·.weight > 1))
    (now random random' : Nat) :
    ∃ d, (configured H calls).clone H now = some d ∧
      (∀ key, d.target H random' key = (configured H calls).target H random key) ∧
      d.namespace_ = (configured H calls).namespace_ ∧
      d.filename = (configured H calls).filename := by
  have hfresh := fresh_configured hcalls
  obtain ⟨d, hd, hclone⟩ := hfresh.clone now
  exact ⟨d, hd, fun key => hclone.target_eq hfresh hrandom hvb hweighted random random' key,
    hclone.namespace_, hclone.filename.trans hfilename.symm⟩

theorem clone_behaves_like_source_two_hosts :
    ∃ d, (configured fnvHashes (setFnv1a :: setKetama :: addTwoHosts)).clone fnvHashes 7 = some d ∧
      (∀ key, d.target fnvHashes 1 key =
        (configured fnvHashes (setFnv1a :: setKetama :: addTwoHosts)).target fnvHashes 0 key) ∧
      d.namespace_ = (configured fnvHashes (setFnv1a :: setKetama :: addTwoHosts)).namespace_ ∧
      d.filename = (configured fnvHashes (setFnv1a :: setKetama :: addTwoHosts)).filename :=
  clone_behaves_like_source fnvHashes (setFnv1a :: setKetama :: addTwoHosts)
    (.cons (.inr (.inl rfl)) (.cons trivial (.cons trivial (.cons trivial .nil))))
    (by decide) rfl (by decide) (fun _ => rfl) 7 0 1

/-- The map that sends both of its buckets to host 1. -/
def setBuckets : Call × Nat := (.bucketSet (some fun _ => 1) none 2 0, 0)

/-- A clone loses the name of the configuration file and the bucket map: the empty
key of the source goes to host `b` and the clone's to host `a`. -/
theorem clone_loses_filename_and_buckets :
    ((configured fnvHashes [(.setConfigurationFile ['f'.toUInt8], 0)]).clone fnvHashes 0).map
        Memcached.filename = some none ∧
      (configured fnvHashes [(.setConfigurationFile ['f'.toUInt8], 0)]).filename =
        some ['f'.toUInt8] ∧
      ((configured fnvHashes (setBuckets :: addTwoHosts)).clone fnvHashes 0).map
        (·.target fnvHashes 0 []) = some (some (['a'.toUInt8], defaultPort)) ∧
      (configured fnvHashes (setBuckets :: addTwoHosts)).target fnvHashes 0 [] =
        some (['b'.toUInt8], defaultPort) := by
  refine ⟨rfl, rfl, ?_, ?_⟩ <;> decide +kernel

end LM.Memcached
