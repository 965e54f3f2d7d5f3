import LibMemcached.Proof.Calls
import LibMemcached.Proof.Redistribution

/-!
# The server of a key

Every call that sends keys chooses its servers by `memcached_generate_hash_with_redistribution`. While
the continuum is not rebuilt and the distribution is not `RANDOM`, the server is a function of the
settings and of the key that is hashed (`calls_share_server`). The functions of `get.cc` take an empty
group key for none and hash the key itself; all others hash the group key they are given.
-/

namespace LM

open List Hashkit

variable {κ α β : Type} {K : Kernel κ} {H : Hashes} {env : Nat → Env} {c c' d : Client κ}
  {keys : List Bytes} {memc a b : Memcached} {m : Query κ α} {key : Bytes} {g : Memcached → α × Memcached}
  {now : Nat} (master : Option Nat) (poller : Poller κ)

/-! ## One choice -/

namespace Memcached

variable {memc : Memcached}

/-- The distribution is not `RANDOM`, and it is not yet time to rebuild the continuum. -/
def Settled (memc : Memcached) (env : Nat → Env) : Prop :=
  memc.distribution ≠ .random ∧ ∀ x, memc.flags.autoEjectHosts = true →
    memc.ketama.nextDistributionRebuild ≠ 0 → (env x).now ≤ memc.ketama.nextDistributionRebuild

theorem Settled.regenForAutoEject (h : memc.Settled env) (x : Nat) :
    memc.regenForAutoEject H (env x).now = memc := by
  unfold Memcached.regenForAutoEject
  split
  · next hrebuild =>
    simp only [Bool.and_eq_true, ne_eq, decide_eq_true_eq] at hrebuild
    have := h.2 x hrebuild.1 hrebuild.2
    rw [if_neg (by omega)]
  · rfl

theorem dispatchHost_random (h : memc.distribution ≠ .random) (random random' : Nat) (hash : UInt32) :
    memc.dispatchHost random hash = memc.dispatchHost random' hash := by
  unfold dispatchHost
  cases hd : memc.distribution <;> first | rfl | exact absurd hd h

theorem Settled.generateHashWithRedistribution (h : memc.Settled env) (x : Nat) (key : Bytes) :
    memc.generateHashWithRedistribution H (env x).now (env x).random key =
      (memc.generateHash H 0 key, memc) := by
  unfold Memcached.generateHashWithRedistribution generateHash
  simp only [h.regenForAutoEject x, dispatchHost_random h.1 (env x).random 0]

end Memcached

/-- The same client but for its errors and the number of its query. -/
def SameClient (a b : Memcached) : Prop :=
  b = { a with errorMessages := b.errorMessages, queryId := b.queryId }

theorem SameSettings.sameClient (h : SameSettings a b) : SameClient a b := by
  unfold SameSettings at h
  unfold SameClient
  rw [h]

theorem SameClient.trans {d : Memcached} (h : SameClient a b) (h' : SameClient b d) : SameClient a d := by
  unfold SameClient at *
  rw [h', h]

theorem SameClient.settled (h : SameClient a b) (ha : a.Settled env) : b.Settled env := by
  rw [h]
  exact ha

theorem SameClient.generateHash (h : SameClient a b) (key : Bytes) :
    b.generateHash H 0 key = a.generateHash H 0 key := by
  rw [h]
  rfl

/-- The client was routed by `keys`, one after the other. -/
structure Client.Routes (H : Hashes) (env : Nat → Env) (keys : List Bytes) (c c' : Client κ) :
    Prop where
  atRest : c'.AtRest
  flags : c'.memc.flags = c.memc.flags
  queryId : c'.memc.queryId = c.memc.queryId
  memc : c.memc.Settled env → SameSettings c.memc c'.memc
  routed : c.memc.Settled env →
    c'.routed.map some = c.routed.map some ++ keys.map (c.memc.generateHash H 0)

theorem Client.Stays.routes (h : c.Stays c') : c.Routes H env [] c' :=
  ⟨h.atRest, by rw [h.memc], by rw [h.memc], fun _ => h.memc, fun _ => by rw [h.routed, map_nil, append_nil]⟩

theorem Client.Routes.trans {keys' : List Bytes} (h : c.Routes H env keys d) (h' : d.Routes H env keys' c') :
    c.Routes H env (keys ++ keys') c' where
  atRest := h'.atRest
  flags := h'.flags.trans h.flags
  queryId := h'.queryId.trans h.queryId
  memc hs := (h.memc hs).trans (h'.memc ((h.memc hs).sameClient.settled hs))
  routed hs := by
    have hsame := (h.memc hs).sameClient
    have hhash : d.memc.generateHash H 0 = c.memc.generateHash H 0 :=
      funext fun key => hsame.generateHash key
    rw [h'.routed (hsame.settled hs), h.routed hs, hhash, map_append, append_assoc]

/-- Run at rest, `m` is routed by `keys`. -/
def Routes (H : Hashes) (env : Nat → Env) (keys : List Bytes) (m : Query κ α) (c : Client κ) :
    Prop :=
  c.AtRest → Always m c fun _ c' => c.Routes H env keys c'

theorem Stays.routes (h : Stays m c) : Routes H env [] m c := fun hc =>
  (h hc).mono fun _ _ hd => hd.routes

theorem Always.onClient_bind {f : α → Query κ β} {Q : β → Client κ → Prop}
    (h : Always (f (g c.memc).1) { c with memc := (g c.memc).2 } Q) :
    Always (onClient g >>= f) c Q := h

namespace Routes

variable {m m' : Query κ α} {f : α → Query κ β} {keys keys' : List Bytes}

theorem bind (h : Routes H env keys m c)
    (hf : ∀ a d, c.Routes H env keys d → Routes H env keys' (f a) d) :
    Routes H env (keys ++ keys') (m >>= f) c := fun hc =>
  (h hc).bind fun a d hd => (hf a d hd hd.atRest).mono fun _ _ he => hd.trans he

theorem get_bind {f : Client κ → Query κ α} (h : Routes H env keys (f c) c) :
    Routes H env keys (get >>= f) c := h

theorem after (h : Stays m c) (hf : ∀ a d, c.Stays d → Routes H env keys (f a) d) :
    Routes H env keys (m >>= f) c := fun hc =>
  (h hc).bind fun a d hd => (hf a d hd hd.atRest).mono fun _ _ he => hd.routes.trans he

theorem before (h : Routes H env keys m c) (hf : ∀ a d, Stays (f a) d) : Routes H env keys (m >>= f) c := by
  have hkeys : Routes H env (keys ++ []) (m >>= f) c := h.bind fun a d _ => (hf a d).routes
  rwa [append_nil] at hkeys

/-- A function of the client that keeps its settings, and what follows it. -/
theorem onClient_bind (hsame : SameSettings c.memc (g c.memc).2)
    (h : Routes H env keys (f (g c.memc).1) { c with memc := (g c.memc).2 }) :
    Routes H env keys (onClient g >>= f) c := by
  intro hc
  have hrest : Client.AtRest { c with memc := (g c.memc).2 } := ⟨hc.isPurging, hc.writeBuffer⟩
  have hstays : c.Stays { c with memc := (g c.memc).2 } := ⟨hsame, rfl, hrest⟩
  exact .onClient_bind ((h hrest).mono fun _ _ he => hstays.routes.trans he)

theorem ite {p : Prop} [Decidable p] (ht : p → Routes H env keys m c)
    (hf : ¬p → Routes H env keys m' c) : Routes H env keys (if p then m else m') c := fun hc =>
  .ite (fun hp => ht hp hc) fun hp => hf hp hc

end Routes

theorem flags_regenForAutoEject {memc : Memcached} : (memc.regenForAutoEject H now).flags = memc.flags := by
  unfold Memcached.regenForAutoEject
  split <;> [split <;> simp; rfl]

theorem queryId_regenForAutoEject {memc : Memcached} :
    (memc.regenForAutoEject H now).queryId = memc.queryId := by
  unfold Memcached.regenForAutoEject
  split <;> [split <;> simp; rfl]

theorem serverKey_routes (x : Nat) (key : Bytes) : Routes H env [key] (serverKey H (env x) key) c := by
  intro hc
  refine .onClient_bind ?_
  split
  · exact .failure
  · next k hk =>
    refine (Always.modify (Q := fun _ e => c.Routes H env [key] e)
      ⟨⟨hc.isPurging, hc.writeBuffer⟩, flags_regenForAutoEject, queryId_regenForAutoEject,
        fun hs => ?_, fun hs => ?_⟩).bind fun _ _ he => .pure he
    · show SameSettings c.memc
        (c.memc.generateHashWithRedistribution H (env x).now (env x).random key).2
      rw [hs.generateHashWithRedistribution x key]
      exact .rfl
    · rw [hs.generateHashWithRedistribution x key] at hk
      simp only [map_append, map_cons, map_nil, ← hk]

/-! ## Getting -/

/-- The keys that a multi-get is routed by. -/
def mgetKeys (groupKey : Bytes) (keys : List Bytes) : List Bytes :=
  if groupKey = [] then keys else [groupKey]

/-- The keys that are still hashed once there is a server for the group. -/
def ungrouped (master : Option Nat) (keys : List Bytes) : List Bytes :=
  if master.isSome then [] else keys

theorem keyServer_routes (x : Nat) (key : Bytes) :
    Routes H env (ungrouped master [key]) (keyServer H env master x key) c := by
  cases master with
  | none => exact serverKey_routes x key
  | some k => exact Stays.pure.routes

theorem ungrouped_cons (key : Bytes) (keys : List Bytes) :
    ungrouped master (key :: keys) = ungrouped master [key] ++ ungrouped master keys := by
  cases master <;> rfl

theorem sendKeys_routes (getCommand : Bytes) (x : Nat) (keys : List Bytes) (m : Mget) :
    Routes H env (ungrouped master keys) (sendKeys K H env master getCommand x keys m) c := by
  induction keys generalizing x m c with
  | nil => cases master <;> exact Stays.pure.routes
  | cons key keys ih =>
    rw [ungrouped_cons]
    refine (keyServer_routes master x key).bind fun k d _ => ?_
    exact .after (onServer_stays fun _ => addKey_calls _ _ _) fun _ _ _ => ih _ _

theorem asciiMget_routes (keys : List Bytes) :
    Routes H env (ungrouped master keys) (asciiMget K H env master keys) c := by
  refine .get_bind (.before (sendKeys_routes master _ 0 keys _) fun m d => .ite (fun _ => ?_) fun _ => ?_)
  · exact .ite (fun _ => .pure) fun _ => onClient_stays (.setError _ _ _)
  · refine servers_stays.bind fun _ _ _ =>
      (foldServers_stays (fun _ _ => endGet_calls) _ _).bind fun _ _ _ => ?_
    exact .ite (fun _ => .pure) fun _ => .ite (fun _ => .pure) fun _ => .pure

theorem binarySendKeys_routes (mgetMode flush : Bool) (x : Nat) (keys : List Bytes) (rc : ReturnT) :
    Routes H env (ungrouped master keys) (binarySendKeys K H env master mgetMode flush x keys rc) c := by
  induction keys generalizing x rc c with
  | nil => cases master <;> exact Stays.pure.routes
  | cons key keys ih =>
    rw [ungrouped_cons]
    refine (keyServer_routes master x key).bind fun k d _ => ?_
    refine .after (onServer_stays fun _ => binaryAddKey_calls _ _ _ _) fun r d _ => .get_bind ?_
    exact .after (.ite (fun _ => memcachedFlushBuffers_stays) fun _ => .pure) fun _ _ _ => ih _ _

/-- The key passes `memcached_key_test`. -/
def Memcached.Passes (memc : Memcached) (key : Bytes) : Prop :=
  key.length ≠ 0 ∧ key.length < maxKey ∧
    (memc.flags.verifyKey = true → memc.flags.binaryProtocol = false → key.all isGraph = true)

theorem Memcached.keyTest_passes (h : memc.Passes key) : memc.keyTest key = (.success, memc) := by
  unfold keyTest
  rw [if_neg (by have := h.1; have := h.2.1; omega), if_neg]
  intro hbad
  simp only [Bool.and_eq_true, Bool.not_eq_eq_eq_not, Bool.not_true] at hbad
  rw [h.2.2 hbad.1.1 hbad.1.2] at hbad
  simp at hbad

theorem Memcached.keyTest_fails (h : ¬memc.Passes key) : (memc.keyTest key).1 = .badKeyProvided := by
  unfold keyTest
  split
  · rfl
  split
  · rfl
  · next hlength hgraph =>
    refine absurd ⟨by omega, by omega, fun hverify htext => ?_⟩ h
    simpa [hverify, htext] using hgraph

theorem keyTests_pass (h : ∀ key ∈ keys, memc.Passes key) : keyTests keys memc = (.success, memc) := by
  induction keys with
  | nil => rfl
  | cons key keys ih =>
    rw [keyTests, Memcached.keyTest_passes (h key mem_cons_self)]
    exact ih fun key' hkey' => h key' (mem_cons_of_mem _ hkey')

theorem keyTests_fail (h : ¬∀ key ∈ keys, memc.Passes key) :
    (keyTests keys memc).1 = .badKeyProvided ∧ SameSettings memc (keyTests keys memc).2 := by
  induction keys with
  | nil => exact absurd (by simp) h
  | cons key keys ih =>
    by_cases hkey : memc.Passes key
    · rw [keyTests, Memcached.keyTest_passes hkey]
      exact ih fun hkeys => h (forall_mem_cons.mpr ⟨hkey, hkeys⟩)
    · have hfails := Memcached.keyTest_fails hkey
      have hsame := SameSettings.keyTest memc key
      rw [keyTests]
      generalize memc.keyTest key = r at hfails hsame ⊢
      obtain ⟨rc, memc'⟩ := r
      obtain rfl : rc = .badKeyProvided := hfails
      exact ⟨rfl, hsame⟩

theorem Memcached.passes_congr (h : b.flags = a.flags) (key : Bytes) : b.Passes key ↔ a.Passes key := by
  unfold Passes
  rw [h]

theorem simpleBinaryMget_routes (mgetMode : Bool) (hkeys : ∀ key ∈ keys, c.memc.Passes key) :
    Routes H env (ungrouped master keys) (simpleBinaryMget K H env master keys mgetMode) c := by
  have hsame : SameSettings c.memc (keyTests keys c.memc).2 := by rw [keyTests_pass hkeys]; exact .rfl
  refine .onClient_bind hsame ?_
  rw [keyTests_pass hkeys]
  refine .before (binarySendKeys_routes master mgetMode _ 0 keys _) fun rc d => ?_
  refine .ite (fun _ => servers_stays.bind fun _ _ _ => ?_) fun _ => .pure
  exact foldServers_stays (fun _ _ => sendNoop_calls _) _ _

section

variable (count replicas replica start : Nat) (randomizeRead : Bool) (x : Nat)

theorem replicaKey_stays (key : Bytes) (r : Replication) :
    Stays (replicaKey K count replicas replica start randomizeRead x key r) c := by
  refine .ite (fun _ => .pure) fun _ => (onServer_stays fun s => ?_).bind fun sent _ _ => ?_
  · refine .get_bind (.bind (.ite (fun _ => memcachedConnect_calls) fun _ => .pure) fun rc _ _ => ?_)
    refine .ite (fun _ => closeSocket_calls.bind fun _ _ _ => .pure) fun _ => ?_
    refine initializeBinaryRequest_calls.bind fun _ _ _ =>
      writeRequest_calls.bind fun _ _ _ => .ite (fun _ => ?_) fun _ => ?_
    · exact responseIncrement_calls.bind fun _ _ _ => .pure
    · exact closeSocket_calls.bind fun _ _ _ => .pure
  · exact .ite (fun _ => .pure) fun _ => .pure

theorem replicaKeys_stays (keys : List Bytes) (r : Replication) :
    Stays (replicaKeys K count replicas replica start randomizeRead x keys r) c := by
  induction keys generalizing x r c with
  | nil => exact .pure
  | cons key keys ih => exact (replicaKey_stays _ _ _ _ _ _ _ _).bind fun _ _ _ => ih _ _

end

theorem replicationBinaryMget_stays (count replicas start : Nat) (randomizeRead : Bool)
    (keys : List Bytes) (n : Nat) (r : Replication) :
    Stays (replicationBinaryMget K count replicas start randomizeRead keys n r) c := by
  induction n generalizing r c with
  | zero => exact .pure
  | succ n ih =>
    exact (replicaKeys_stays _ _ _ _ _ _ _ _).bind fun _ _ _ => .ite (fun _ => .pure) fun _ => ih _

theorem keyServers_routes (x : Nat) (keys : List Bytes) :
    Routes H env (ungrouped master keys) (keyServers H env master x keys) c := by
  induction keys generalizing x c with
  | nil => cases master <;> exact Stays.pure.routes
  | cons key keys ih =>
    rw [ungrouped_cons]
    refine (keyServer_routes master x key).bind fun k d _ => ?_
    exact .before (ih _) fun _ _ => .pure

theorem binaryMgetByKey_routes (mgetMode : Bool) (hkeys : ∀ key ∈ keys, c.memc.Passes key) :
    Routes H env (ungrouped master keys) (binaryMgetByKey K H env master keys mgetMode) c := by
  refine .get_bind (.ite (fun _ => simpleBinaryMget_routes master mgetMode hkeys) fun _ => ?_)
  refine .before (keyServers_routes master 0 keys) fun hash d => ?_
  exact (replicationBinaryMget_stays _ _ _ _ _ _ _).bind fun _ _ _ => .pure

/-! ## The calls -/

/-- `initialize_query` went well: nothing is routed yet, and no connection was touched. -/
structure Client.Opened (c d : Client κ) : Prop where
  memc : SameClient c.memc d.memc
  queryId : d.memc.queryId = c.memc.queryId + 1
  conns : d.conns = c.conns
  routed : d.routed = []
  atRest : d.AtRest

/-- A call that is `tested` is routed by `keys`; one that is not touches no connection. -/
structure Client.Called (H : Hashes) (env : Nat → Env) (tested : Prop) (keys : List Bytes)
    (c c' : Client κ) : Prop where
  atRest : c'.AtRest
  flags : c'.memc.flags = c.memc.flags
  queryId : c'.memc.queryId = c.memc.queryId + 1
  memc : c.memc.Settled env → SameClient c.memc c'.memc
  refused : ¬tested → c'.conns = c.conns ∧ c'.routed = []
  routed : tested → c.memc.Settled env →
    c'.routed.map some = keys.map (c.memc.generateHash H 0)

theorem Client.Opened.refuse (h : c.Opened d) {tested : Prop} (ht : ¬tested) :
    c.Called H env tested keys d :=
  ⟨h.atRest, by rw [h.memc], h.queryId, fun _ => h.memc, fun _ => ⟨h.conns, h.routed⟩,
    fun h => absurd h ht⟩

theorem Client.Opened.routes (h : c.Opened d) {tested : Prop} (ht : tested) (hr : d.Routes H env keys c') :
    c.Called H env tested keys c' where
  atRest := hr.atRest
  flags := hr.flags.trans (by rw [h.memc])
  queryId := hr.queryId.trans h.queryId
  memc hs := h.memc.trans (hr.memc (h.memc.settled hs)).sameClient
  refused hn := absurd ht hn
  routed _ hs := by
    have hhash : d.memc.generateHash H 0 = c.memc.generateHash H 0 :=
      funext fun key => h.memc.generateHash key
    rw [hr.routed (h.memc.settled hs), h.routed, hhash, map_nil, nil_append]

theorem Client.Opened.passes (h : c.Opened d) (key : Bytes) : d.memc.Passes key ↔ c.memc.Passes key :=
  Memcached.passes_congr (by rw [h.memc]) key

theorem Client.Opened.settings (h : c.Opened d) (hs : SameSettings d.memc memc) :
    c.Opened { d with memc := memc } :=
  ⟨h.memc.trans hs.sameClient, by rw [hs, h.queryId], h.conns, h.routed, h.atRest.isPurging,
    h.atRest.writeBuffer⟩

theorem Memcached.initializeQuery_none (h : memc.serverCount = 0) :
    memc.initializeQuery =
      Memcached.setError { memc with queryId := memc.queryId + 1 } .noServers "" :=
  if_pos h

theorem Memcached.initializeQuery_some (h : memc.serverCount ≠ 0) :
    memc.initializeQuery =
      (.success, Memcached.errorFree { memc with queryId := memc.queryId + 1 }) :=
  if_neg h

theorem SameClient.initializeQuery (memc : Memcached) : SameClient memc memc.initializeQuery.2 := by
  have hnext : SameClient memc { memc with queryId := memc.queryId + 1 } := rfl
  by_cases h : memc.serverCount = 0
  · rw [Memcached.initializeQuery_none h]
    exact hnext.trans (SameSettings.setError _ _ _).sameClient
  · rw [Memcached.initializeQuery_some h]
    rfl

theorem Memcached.initializeQuery_queryId {memc : Memcached} :
    memc.initializeQuery.2.queryId = memc.queryId + 1 := by
  by_cases h : memc.serverCount = 0
  · rw [Memcached.initializeQuery_none h, SameSettings.setError _ _ _]
  · rw [Memcached.initializeQuery_some h]
    rfl

theorem initializeQuery_opened (hc : c.AtRest) : Always initializeQuery c fun rc d =>
      c.Opened d ∧ rc = if c.memc.serverCount = 0 then .noServers else .success := by
  have hrc : c.memc.initializeQuery.1 = if c.memc.serverCount = 0 then .noServers else .success := by
    by_cases h : c.memc.serverCount = 0
    · rw [Memcached.initializeQuery_none h, if_pos h]
      rfl
    · rw [Memcached.initializeQuery_some h, if_neg h]
  refine .onClient_bind ((Always.modify (Q := fun _ d => c.Opened d) ?_).bind fun _ d hd => .pure ⟨hd, hrc⟩)
  exact ⟨.initializeQuery _, Memcached.initializeQuery_queryId, rfl, rfl, hc.isPurging, hc.writeBuffer⟩

/-- What a call that is refused still does touches no connection. -/
def Refuses (m : Query κ α) : Prop :=
  ∀ ⦃c d : Client κ⦄, c.Opened d → Always m d fun _ e => c.Opened e

theorem refuses_lastError : Refuses (lastError (κ := κ)) := fun _ _ hd => .get_bind (.pure hd)

theorem refuses_setError {rc : ReturnT} {message : String} :
    Refuses (κ := κ) (onClient fun memc => memc.setError rc message) := fun _ _ hd =>
  .get_bind (.set_bind (.pure (hd.settings (.setError _ _ _))))

theorem Refuses.bind_pure (h : Refuses m) {f : α → β} :
    Refuses (do let a ← m; return f a) := fun _ _ hd =>
  (h hd).bind fun _ _ he => .pure he

section

variable {tested : Prop} {keys : List Bytes}

/-- A call begins; `refuses` is its test of the code. -/
theorem initializeQuery_called {refuses : ReturnT → Bool} (hnone : refuses .noServers = true)
    (hok : refuses .success = false) {g : ReturnT → α} {m : ReturnT → Query κ α} (hc : c.AtRest)
    (htested : tested → c.memc.serverCount ≠ 0) (h : c.memc.serverCount ≠ 0 → ∀ d, c.Opened d →
      Always (m .success) d fun _ c' => c.Called H env tested keys c') :
    Always (do let rc ← initializeQuery; if refuses rc then return g rc else m rc) c
      fun _ c' => c.Called H env tested keys c' := by
  refine (initializeQuery_opened hc).bind fun rc d hd => ?_
  by_cases h0 : c.memc.serverCount = 0
  · rw [hd.2, if_pos h0, if_pos hnone]
    exact .pure (hd.1.refuse fun ht => htested ht h0)
  · rw [hd.2, if_neg h0, if_neg (by simp [hok])]
    exact h h0 d hd.1

/-- The key is tested, and the call is refused if it does not pass. -/
theorem keyTest_called {refuses : ReturnT → Bool} (hbad : refuses .badKeyProvided = true)
    (hok : refuses .success = false) {g : ReturnT → Query κ α} (hd : c.Opened d)
    (hg : Refuses (g .badKeyProvided)) (htested : tested → c.memc.Passes key)
    (h : c.memc.Passes key → Always m d fun _ c' => c.Called H env tested keys c') :
    Always (do let rc ← onClient fun memc => memc.keyTest key; if refuses rc then g rc else m) d
      fun _ c' => c.Called H env tested keys c' := by
  refine .onClient_bind ?_
  by_cases hpass : d.memc.Passes key
  · rw [Memcached.keyTest_passes hpass, if_neg (by simp [hok])]
    exact h ((hd.passes key).mp hpass)
  · rw [Memcached.keyTest_fails hpass, if_pos hbad]
    have he := hd.settings (SameSettings.keyTest d.memc key)
    have hrefuse : ¬tested := fun ht => hpass ((hd.passes key).mpr (htested ht))
    exact (hg he).mono fun _ e hopen => hopen.refuse hrefuse

/-- The arguments pass the tests, and a server is chosen by the group key. -/
theorem serverKey_called {groupKey : Bytes} {f : Nat → Query κ α} (hd : c.Opened d) (ht : tested)
    (hf : ∀ k e, Stays (f k) e) :
    Always (serverKey H (env 0) groupKey >>= f) d fun _ c' => c.Called H env tested [groupKey] c' :=
  ((serverKey_routes 0 groupKey).before hf hd.atRest).mono fun _ _ hr => hd.routes ht hr

end

/-- The arguments of a call pass its tests. -/
def ItemCall.Tested (memc : Memcached) : ItemCall → Prop
  | store _ _ item => memc.Passes item.key
  | delete _ key expiration => memc.Passes key ∧ expiration = 0
  | arith _ _ key _ _ => memc.hashkit.key = none ∧ memc.Passes key
  | touch _ key _ => memc.Passes key
  | exist _ _ => memc.flags.useUdp = false

def ItemCall.groupKey : ItemCall → Bytes
  | store _ groupKey _ => groupKey
  | delete groupKey _ _ => groupKey
  | arith _ groupKey _ _ _ => groupKey
  | touch groupKey _ _ => groupKey
  | exist groupKey _ => groupKey

section

variable {groupKey : Bytes} (hc : c.AtRest)
include hc

omit hc in
theorem sendItem_stays (k : Nat) {item : Item} (verb : Verb) : Stays (sendItem K k item verb) c :=
  .get_bind (.ite (fun _ => memcachedSendBinary_stays k item verb) fun _ =>
    onServer_stays fun _ => memcachedSendAscii_calls)

theorem memcachedSend_called (item : Item) (verb : Verb) :
    Always (memcachedSend K H (env 0) groupKey item verb) c fun _ c' =>
      c.Called H env (c.memc.serverCount ≠ 0 ∧ c.memc.Passes item.key) [groupKey] c' := by
  unfold memcachedSend memcachedSendIn
  refine initializeQuery_called rfl rfl hc And.left fun h0 d hd => ?_
  refine keyTest_called rfl rfl hd refuses_lastError And.right fun hpass => ?_
  refine serverKey_called hd ⟨h0, hpass⟩ fun k e => .get_bind ?_
  refine .ite (fun _ => onClient_stays (.setError _ _ _)) fun _ => .ite (fun _ => .pure) fun _ => ?_
  split
  · exact fun _ => .failure
  · exact sendItem_stays k verb

theorem memcachedDelete_called (key : Bytes) (expiration : Int) :
    Always (memcachedDelete K H (env 0) groupKey key expiration) c fun _ c' =>
      c.Called H env (c.memc.serverCount ≠ 0 ∧ c.memc.Passes key ∧ expiration = 0) [groupKey] c' := by
  refine initializeQuery_called rfl rfl hc And.left fun h0 d hd => ?_
  refine keyTest_called rfl rfl hd refuses_lastError (·.2.1) fun hpass => ?_
  refine .ite (fun hexpires => ?_) fun hexpires => ?_
  · exact (refuses_setError hd).mono fun _ e he => he.refuse fun ht => hexpires ht.2.2
  refine serverKey_called hd ⟨h0, hpass, not_not.mp hexpires⟩ fun k e => .get_bind (.bind ?_ fun rc _ _ => ?_)
  · exact .ite (fun _ => binaryDelete_stays _ _ _ _) fun _ => onServer_stays fun _ => asciiDelete_calls _ _ _
  · refine .ite (fun _ => .pure) fun _ => .ite (fun _ => .pure) fun _ => .ite (fun _ => .pure) fun _ => ?_
    exact (onServer_stays fun _ => memcachedResponse_calls _).bind fun _ _ _ => .pure

theorem incrementDecrement_called (isIncr : Bool) (key : Bytes) (offset : UInt64)
    (initial : Option (UInt64 × UInt32)) :
    Always (incrementDecrement K H (env 0) isIncr groupKey key offset initial) c fun _ c' =>
      c.Called H env (c.memc.serverCount ≠ 0 ∧ c.memc.hashkit.key = none ∧ c.memc.Passes key)
        [groupKey] c' := by
  refine initializeQuery_called rfl rfl hc And.left fun h0 d hd => .get_bind ?_
  have hkey : d.memc.hashkit.key = c.memc.hashkit.key := by rw [hd.memc]
  refine .ite (fun hsome => ?_) fun hnone => ?_
  · refine ((refuses_setError.bind_pure) hd).mono fun _ e he => he.refuse fun ht => ?_
    rw [hkey, ht.2.1] at hsome
    cases hsome
  have hkey' : c.memc.hashkit.key = none := by
    rw [← hkey]
    simpa using hnone
  refine keyTest_called rfl rfl hd refuses_lastError.bind_pure (·.2.2) fun hpass => ?_
  refine serverKey_called hd ⟨h0, hkey', hpass⟩ fun k e => .get_bind (.bind ?_ fun rc _ _ => ?_)
  · cases initial with
    | none =>
      exact .ite (fun _ => onServer_stays fun _ => binaryIncrDecr_calls) fun _ =>
        onServer_stays fun _ => textIncrDecr_calls
    | some r =>
      exact .ite (fun _ => onServer_stays fun _ => binaryIncrDecr_calls) fun _ =>
        onClient_stays (.setError _ _ _)
  · exact onServer_stays fun _ => autoResponse_calls

theorem memcachedTouch_called (key : Bytes) (expiration : Int) :
    Always (memcachedTouch K H (env 0) groupKey key expiration) c fun _ c' =>
      c.Called H env (c.memc.serverCount ≠ 0 ∧ c.memc.Passes key) [groupKey] c' := by
  refine initializeQuery_called rfl rfl hc And.left fun h0 d hd => ?_
  refine keyTest_called rfl rfl hd refuses_setError And.right fun hpass => ?_
  exact serverKey_called hd ⟨h0, hpass⟩ fun k e => onServer_stays fun _ => touchOn_calls _

theorem memcachedExist_called (key : Bytes) :
    Always (memcachedExist K H (env 0) groupKey key) c fun _ c' =>
      c.Called H env (c.memc.serverCount ≠ 0 ∧ c.memc.flags.useUdp = false) [groupKey] c' := by
  refine initializeQuery_called rfl rfl hc And.left fun h0 d hd => .get_bind ?_
  have hflags : d.memc.flags = c.memc.flags := by rw [hd.memc]
  refine .ite (fun hudp => ?_) fun hudp => ?_
  · refine (refuses_setError hd).mono fun _ e he => he.refuse fun ht => ?_
    rw [hflags, ht.2] at hudp
    cases hudp
  · have hflag : c.memc.flags.useUdp = false := by rw [← hflags]; simpa using hudp
    refine serverKey_called hd ⟨h0, hflag⟩ fun k e => .ite (fun _ => ?_) fun _ => ?_
    · exact onServer_stays fun _ => binaryExist_calls _
    · exact onServer_stays fun _ => asciiExist_calls _

/-- The arguments of a multi-get pass its tests. -/
def MgetTested (memc : Memcached) (keys : List Bytes) : Prop :=
  memc.flags.useUdp = false ∧ keys ≠ [] ∧ ∀ key ∈ keys, memc.Passes key

theorem mgetByKeyReal_called (keys : List Bytes) (mgetMode : Bool) :
    Always (mgetByKeyReal K H env groupKey keys mgetMode) c fun _ c' =>
      c.Called H env (c.memc.serverCount ≠ 0 ∧ MgetTested c.memc keys) (mgetKeys groupKey keys) c' := by
  refine initializeQuery_called rfl rfl hc And.left fun h0 d hd => .get_bind ?_
  have hflags : d.memc.flags = c.memc.flags := by rw [hd.memc]
  refine .ite (fun hudp => ?_) fun hudp => .ite (fun hnil => ?_) fun hnil => ?_
  · refine (refuses_setError hd).mono fun _ e he => he.refuse fun ht => ?_
    rw [hflags, ht.2.1] at hudp
    cases hudp
  · exact (refuses_setError hd).mono fun _ e he => he.refuse fun ht => ht.2.2.1 hnil
  by_cases hpass : ∀ key ∈ keys, d.memc.Passes key
  · have htested : c.memc.serverCount ≠ 0 ∧ MgetTested c.memc keys :=
      ⟨h0, by rw [← hflags]; simpa using hudp, hnil, fun key hkey => (hd.passes key).mp (hpass key hkey)⟩
    refine .onClient_bind ?_
    rw [keyTests_pass hpass]
    have hrest (master : Option Nat) (e : Client κ) (he : e.memc.flags = d.memc.flags) :
        Routes H env (ungrouped master keys) (do
          foldServers (fun _ => clearQueue K) (← servers) ()
          let c ← get
          if c.memc.flags.binaryProtocol then binaryMgetByKey K H env master keys mgetMode
          else asciiMget K H env master keys) e := by
      refine .after servers_stays fun _ f hf =>
        .after (foldServers_stays (fun _ _ => clearQueue_calls) _ _) fun _ g hg => .get_bind ?_
      refine .ite (fun _ => binaryMgetByKey_routes master mgetMode fun key hkey => ?_) fun _ =>
        asciiMget_routes master keys
      exact (Memcached.passes_congr (by rw [hg.memc, hf.memc, ← he]) key).mpr (hpass key hkey)
    have hr : Routes H env (mgetKeys groupKey keys) (do
        let master ← (if groupKey = [] then pure none else some <$> serverKey H (env 0) groupKey)
        foldServers (fun _ => clearQueue K) (← servers) ()
        let c ← get
        if c.memc.flags.binaryProtocol then binaryMgetByKey K H env master keys mgetMode
        else asciiMget K H env master keys) d := by
      by_cases hgroup : groupKey = []
      · rw [mgetKeys, if_pos hgroup, if_pos hgroup, pure_bind]
        exact hrest none d rfl
      · rw [mgetKeys, if_neg hgroup, if_neg hgroup, bind_map_left]
        exact (serverKey_routes 0 groupKey).bind fun k e he => hrest (some k) e he.flags
    exact (hr hd.atRest).mono fun _ _ he => hd.routes htested he
  · obtain ⟨hrc, hsame⟩ := keyTests_fail hpass
    refine .onClient_bind ?_
    rw [hrc]
    exact .pure ((hd.settings hsame).refuse fun ht => hpass fun key hkey =>
      (hd.passes key).mpr (ht.2.2.2 key hkey))

end

/-! ## Fetching -/

theorem memcachedIoGetReadableServer_stays : Stays (memcachedIoGetReadableServer poller) c := by
  refine .get_bind ?_
  split
  · exact .pure
  · refine .ite (fun _ => .pure) fun _ => ?_
    split
    · exact fun hc => .set_bind (.pure ⟨.errorSet _ _ _, rfl, hc.isPurging, hc.writeBuffer⟩)
    · exact .pure

theorem fetchLoop_stays (fuel : Nat) (f : Fetch) : Stays (fetchLoop K poller fuel f) c := by
  induction fuel generalizing f c with
  | zero => exact fun _ => .failure
  | succ fuel ih =>
    refine (memcachedIoGetReadableServer_stays poller).bind fun k _ _ => ?_
    cases k with
    | none => exact .pure
    | some k =>
      refine (onServer_stays fun _ => responseInto_calls _ _).bind fun r d _ => ?_
      obtain ⟨rc, result⟩ := r
      dsimp only
      split
      all_goals first
        | exact ih _
        | exact .pure
        | exact (onServer_stays fun _ => responseReset_calls).bind fun _ _ _ => ih _

theorem memcachedFetchResult_stays (result : Result) (count : Nat) :
    Stays (memcachedFetchResult K poller result count) c :=
  .get_bind ((fetchLoop_stays _ _ _).bind fun _ _ _ => .ite (fun _ => .pure) fun _ => .pure)

theorem memcachedFetch_stays (count : Nat) : Stays (memcachedFetch K poller count) c := by
  refine .get_bind (.ite (fun _ => .pure) fun _ => (memcachedFetchResult_stays _ _ _).bind fun r d _ => ?_)
  obtain ⟨result, rc, n⟩ := r
  cases result <;>
    exact fun hd => (Always.modify ⟨.rfl, rfl, hd.isPurging, hd.writeBuffer⟩).bind fun _ _ he => .pure he

theorem mgetByKeyReal_fails {groupKey : Bytes} {mgetMode : Bool} (hc : c.AtRest)
    (hn : ¬(c.memc.serverCount ≠ 0 ∧ MgetTested c.memc keys)) :
    Always (mgetByKeyReal K H env groupKey keys mgetMode) c fun rc _ => rc.isFailed = true := by
  have hset (rc : ReturnT) (h : rc.isFailed = true) (message : String) (d : Client κ) :
      Always (onClient fun memc => memc.setError rc message) d fun rc _ => rc.isFailed = true :=
    .get_bind (.set_bind (.pure h))
  refine (initializeQuery_opened hc).bind fun rc d hd => ?_
  by_cases h0 : c.memc.serverCount = 0
  · rw [hd.2, if_pos h0]
    exact .pure rfl
  have hflags : d.memc.flags = c.memc.flags := by rw [hd.1.memc]
  rw [hd.2, if_neg h0]
  refine .get_bind (.ite (fun _ => hset _ rfl _ d) fun hudp => .ite (fun _ => hset _ rfl _ d) fun hnil => ?_)
  have hpass : ¬∀ key ∈ keys, d.memc.Passes key := fun hpass =>
    hn ⟨h0, by rw [← hflags]; simpa using hudp, hnil, fun key hkey => (hd.1.passes key).mp (hpass key hkey)⟩
  refine .onClient_bind ?_
  rw [(keyTests_fail hpass).1]
  exact .pure rfl

theorem memcachedGetByKey_called (groupKey key : Bytes) (hc : c.AtRest) :
    Always (memcachedGetByKey K H env poller groupKey key) c fun _ c' =>
      c.Called H env (c.memc.serverCount ≠ 0 ∧ MgetTested c.memc [key]) (mgetKeys groupKey [key]) c' := by
  by_cases ht : c.memc.serverCount ≠ 0 ∧ MgetTested c.memc [key]
  · refine (mgetByKeyReal_called hc [key] false).bind fun rc d hd => ?_
    refine .ite (fun _ => .get_bind (.pure hd)) fun _ => ?_
    refine ((memcachedFetch_stays poller 0).bind (fun _ _ _ => .pure) hd.atRest).mono fun _ e he => ?_
    exact ⟨he.atRest, by rw [he.memc, hd.flags], by rw [he.memc, hd.queryId],
      fun hs => (hd.memc hs).trans he.memc.sameClient, fun hn => absurd ht hn,
      fun _ hs => by rw [he.routed, hd.routed ht hs]⟩
  · refine Always.bind (fun rc d hrun => And.intro (mgetByKeyReal_called hc [key] false rc d hrun)
      (mgetByKeyReal_fails hc ht rc d hrun)) fun rc d hd => ?_
    rw [if_pos hd.2]
    exact .get_bind (.pure hd.1)

/-! ## All calls -/

/-- The keys that a call is routed by. -/
def KeyCall.routingKeys : KeyCall → List Bytes
  | item call => [call.groupKey]
  | get groupKey key => mgetKeys groupKey [key]
  | mget groupKey keys => mgetKeys groupKey keys

/-- There are servers, and the arguments of the call pass its tests. -/
def KeyCall.Tested (memc : Memcached) (call : KeyCall) : Prop :=
  memc.serverCount ≠ 0 ∧
    match call with
    | item call => call.Tested memc
    | get _ key => MgetTested memc [key]
    | mget _ keys => MgetTested memc keys

theorem KeyCall.run_called (call : KeyCall) (hc : c.AtRest) :
    Always (call.run K H env poller) c fun _ c' =>
      c.Called H env (call.Tested c.memc) call.routingKeys c' := by
  cases call with
  | item call =>
    refine .map ?_
    cases call with
    | store verb groupKey item => exact .map (memcachedSend_called hc item verb)
    | delete groupKey key expiration => exact .map (memcachedDelete_called hc key expiration)
    | arith isIncr groupKey key offset initial =>
      exact incrementDecrement_called hc isIncr key offset initial
    | touch groupKey key expiration => exact .map (memcachedTouch_called hc key expiration)
    | exist groupKey key => exact .map (memcachedExist_called hc key)
  | get groupKey key => exact .map (memcachedGetByKey_called poller groupKey key hc)
  | mget groupKey keys => exact mgetByKeyReal_called hc keys true

/-- One call after the other. -/
def runCalls (K : Kernel κ) (H : Hashes) (poller : Poller κ) :
    List ((Nat → Env) × KeyCall) → Query κ Unit
  | [] => return ()
  | (env, call) :: calls => do
    let _ ← call.run K H env poller
    runCalls K H poller calls

theorem runCalls_sameClient {calls : List ((Nat → Env) × KeyCall)} (hc : c.AtRest)
    (hsettled : ∀ step ∈ calls, c.memc.Settled step.1) :
    Always (runCalls K H poller calls) c fun _ c' => c'.AtRest ∧ SameClient c.memc c'.memc := by
  induction calls generalizing c with
  | nil => exact .pure ⟨hc, rfl⟩
  | cons step calls ih =>
    obtain ⟨hstep, hcalls⟩ := forall_mem_cons.mp hsettled
    refine (KeyCall.run_called poller step.2 hc).bind fun rc d hd => ?_
    have hsame := hd.memc hstep
    refine (ih hd.atRest fun step' hmem => hsame.settled (hcalls step' hmem)).mono fun _ e he => ?_
    exact ⟨he.1, hsame.trans he.2⟩

theorem SameClient.tested (h : SameClient a b) (call : KeyCall) : call.Tested b ↔ call.Tested a := by
  rw [h]
  cases call with
  | item call => cases call <;> rfl
  | _ => rfl

/-- Two hosts, and a connection to each. -/
def twoConns : Client Peer where
  memc := { servers := [.ofServer (Memcached.letterHost 'a'), .ofServer (Memcached.letterHost 'b')] }
  conns := [{ net := {} }, { net := {} }]

end LM
