import LibMemcached.Impl.PoolClients
import LibMemcached.Proof.Freshness
import LibMemcached.Proof.Pool
import LibMemcached.Proof.Redistribution

/-!
# The clients of a pool are up to date

The pool keeps its clients in step with the master in three ways: a behaviour is set on the clients in
the pool too, a client that is made is cloned, and a client that was away while a behaviour was set is
replaced when it comes back. A client has the master's settings if its version is the master's
(`Current`), every critical section keeps that, and the clients in the pool have that version. So a
client that is handed out has the current settings (`pool_clients_current`).

The version tells the two apart as long as it does not overflow, and a clone does not get the weighted
flag of the master, so `KETAMA_WEIGHTED` may get lost (`pool_loses_weighted_ketama`).
-/

namespace LM

open List Hashkit Memcached

variable {sys : PoolSystem} {flag : Behavior} {pool : Pool}

namespace Memcached

variable {H : Hashes} {c d : Memcached} {now now' : Nat}

/-! ## Settings that are copied -/

/-- The clients have the same settings, as far as `memcached_clone` copies them, and as many hosts. -/
structure Agrees (c d : Memcached) : Prop where
  settings : d.copySettings = c.copySettings
  serverCount : d.serverCount = c.serverCount

theorem Agrees.trans {e : Memcached} (h : Agrees c d) (h' : Agrees d e) : Agrees c e :=
  ⟨h'.settings.trans h.settings, h'.serverCount.trans h.serverCount⟩

theorem agrees_runDistribution (c : Memcached) : Agrees c (c.runDistribution H now).2 where
  settings := by
    rw [runDistribution_eq, updateContinuum_frame]
    unfold arranged
    split <;> split <;> rfl
  serverCount := by
    rw [serverCount, runDistribution_servers, length_arranged, serverCount]

theorem agrees_setError (c : Memcached) (rc : ReturnT) (message : String) :
    Agrees c (c.setError rc message).2 := by
  obtain ⟨messages, he⟩ := setError_eq c rc message
  rw [he]
  exact ⟨rfl, rfl⟩

theorem clone_agrees (H : Hashes) (c : Memcached) (now : Nat) : ∃ d, c.clone H now = some d ∧ Agrees c d := by
  unfold clone
  by_cases hnil : c.serverCount = 0
  · simp only [hnil, ne_eq, not_true_eq_false, if_false, ReturnT.isFailed, Bool.false_eq_true,
      runDistribution_fst]
    refine ⟨_, rfl, Agrees.trans ?_ (agrees_runDistribution _)⟩
    exact ⟨rfl, hnil.symm⟩
  · simp only [hnil, ne_eq, not_false_eq_true, if_true, instancePush, push_eq, runDistribution_fst,
      ReturnT.isFailed, Bool.false_eq_true, if_false]
    refine ⟨_, rfl, Agrees.trans ?_ (agrees_runDistribution _)⟩
    have hpush : Agrees c (runDistribution H (c.copySettings.withServers (c.servers.map Instance.toServer)
        (c.copySettings.ketama.weighted ||
          (c.servers.map Instance.toServer).any (·.weight > 1))) now).2 := by
      refine Agrees.trans ?_ (agrees_runDistribution _)
      exact ⟨rfl, by simp [serverCount, withServers, copySettings, create]⟩
    exact ⟨hpush.settings, hpush.serverCount⟩

/-- Two calls end the same way and leave the same settings. -/
def EndAlike (r r' : ReturnT × Memcached) : Prop := r.1 = r'.1 ∧ r.2.copySettings = r'.2.copySettings

section

variable (h : c.copySettings = d.copySettings)
include h

theorem endAlike_setError {rc : ReturnT} {message : String} :
    EndAlike (c.setError rc message) (d.setError rc message) :=
  ⟨rfl, (agrees_setError c rc message).settings.trans
    (h.trans (agrees_setError d rc message).settings.symm)⟩

theorem endAlike_runDistribution : EndAlike (c.runDistribution H now) (d.runDistribution H now') :=
  ⟨by simp, (agrees_runDistribution c).settings.trans
    (h.trans (agrees_runDistribution d).settings.symm)⟩

theorem endAlike_behaviorSetDistribution {type : Distribution} :
    EndAlike (c.behaviorSetDistribution H now type) (d.behaviorSetDistribution H now' type) := by
  by_cases htype : type = .consistentMax
  · subst htype
    exact endAlike_setError h
  · rw [behaviorSetDistribution_eq H _ _ htype, behaviorSetDistribution_eq H _ _ htype]
    refine endAlike_runDistribution ?_
    exact congrArg (fun e => { e with distribution := type }) h

theorem endAlike_behaviorSetKeyHash (type : Option Algorithm) :
    EndAlike (c.behaviorSetKeyHash H type) (d.behaviorSetKeyHash H type) := by
  have hfunction : c.hashkit = d.hashkit := congrArg (·.hashkit) h
  simp only [behaviorSetKeyHash, hfunction]
  generalize ({ d.hashkit with baseHash := _ } : Hashkit) = hashkit
  have hset := congrArg (fun e : Memcached => { e with hashkit := hashkit }) h
  split
  · exact ⟨rfl, hset⟩
  · exact endAlike_setError hset

theorem endAlike_behaviorSetDistributionHash (type : Option Algorithm) :
    EndAlike (c.behaviorSetDistributionHash H type) (d.behaviorSetDistributionHash H type) := by
  have hfunction : c.hashkit = d.hashkit := congrArg (·.hashkit) h
  simp only [behaviorSetDistributionHash, hfunction]
  generalize ({ d.hashkit with distributionHash := _ } : Hashkit) = hashkit
  have hset := congrArg (fun e : Memcached => { e with hashkit := hashkit }) h
  split
  · exact ⟨rfl, hset⟩
  · exact endAlike_setError hset

end

section

variable (c : Memcached)

/-- What `memcached_behavior_set` does to the settings depends on the settings alone. -/
theorem endAlike_copySettings (flag : Behavior) (data : UInt64) :
    EndAlike (c.copySettings.behaviorSet H now flag data) (c.behaviorSet H now' flag data) := by
  have hsame : c.copySettings.copySettings = c.copySettings := rfl
  have hflags : c.copySettings.flags = c.flags := rfl
  cases flag with
  | distribution | ketama => exact endAlike_behaviorSetDistribution hsame
  | ketamaWeighted =>
    simp only [behaviorSet, behaviorSetKetamaWeighted]
    split
    · have hkey := (endAlike_behaviorSetKeyHash (H := H) hsame (some .md5)).2
      have hhash := (endAlike_behaviorSetDistributionHash (H := H) hkey (some .md5)).2
      exact endAlike_behaviorSetDistribution hhash
    · exact endAlike_behaviorSetDistribution hsame
  | hash => exact endAlike_behaviorSetKeyHash hsame _
  | ketamaHash => exact endAlike_behaviorSetDistributionHash hsame _
  | sortHosts => exact endAlike_runDistribution rfl
  | serverFailureLimit | bufferRequests | verifyKey | noreply =>
    simp only [behaviorSet, hflags]
    split
    · exact endAlike_setError hsame
    · exact ⟨rfl, rfl⟩
  | binaryProtocol | useUdp =>
    simp only [behaviorSet]
    split <;> exact ⟨rfl, rfl⟩
  | cacheLookups | userData | cork | loadFromFile | max => exact endAlike_setError hsame
  | _ => exact ⟨rfl, rfl⟩

theorem serverCount_behaviorSetDistribution {type : Distribution} :
    (c.behaviorSetDistribution H now type).2.serverCount = c.serverCount := by
  by_cases htype : type = .consistentMax
  · subst htype
    exact (agrees_setError c _ _).serverCount
  · rw [behaviorSetDistribution_eq H _ _ htype]
    exact (agrees_runDistribution _).serverCount

theorem serverCount_behaviorSetKeyHash {type : Option Algorithm} :
    (c.behaviorSetKeyHash H type).2.serverCount = c.serverCount := by
  unfold behaviorSetKeyHash
  dsimp only
  split
  · rfl
  · exact (agrees_setError _ _ _).serverCount

theorem serverCount_behaviorSetDistributionHash {type : Option Algorithm} :
    (c.behaviorSetDistributionHash H type).2.serverCount = c.serverCount := by
  unfold behaviorSetDistributionHash
  dsimp only
  split
  · rfl
  · exact (agrees_setError _ _ _).serverCount

theorem serverCount_behaviorSet (flag : Behavior) (data : UInt64) :
    (c.behaviorSet H now flag data).2.serverCount = c.serverCount := by
  cases flag with
  | distribution | ketama => exact serverCount_behaviorSetDistribution c
  | ketamaWeighted =>
    simp only [behaviorSet, behaviorSetKetamaWeighted]
    split
    · rw [serverCount_behaviorSetDistribution, serverCount_behaviorSetDistributionHash,
        serverCount_behaviorSetKeyHash]
    · exact serverCount_behaviorSetDistribution c
  | hash => exact serverCount_behaviorSetKeyHash c
  | ketamaHash => exact serverCount_behaviorSetDistributionHash c
  | sortHosts => exact (agrees_runDistribution _).serverCount
  | serverFailureLimit | bufferRequests | verifyKey | noreply =>
    simp only [behaviorSet]
    split
    · exact (agrees_setError c _ _).serverCount
    · rfl
  | binaryProtocol | useUdp =>
    simp only [behaviorSet]
    split <;> rfl
  | cacheLookups | userData | cork | loadFromFile | max => exact (agrees_setError c _ _).serverCount
  | _ => rfl

end

theorem Agrees.behaviorSet (h : Agrees c d) (flag : Behavior) (data : UInt64) :
    (d.behaviorSet H now' flag data).1 = (c.behaviorSet H now flag data).1 ∧
      Agrees (c.behaviorSet H now flag data).2 (d.behaviorSet H now' flag data).2 := by
  have hc : EndAlike (c.copySettings.behaviorSet H now flag data) (c.behaviorSet H now flag data) :=
    endAlike_copySettings c flag data
  have hd : EndAlike (d.copySettings.behaviorSet H now flag data) (d.behaviorSet H now' flag data) :=
    endAlike_copySettings d flag data
  rw [h.settings] at hd
  refine ⟨hd.1.symm.trans hc.1, hd.2.symm.trans hc.2, ?_⟩
  rw [serverCount_behaviorSet, serverCount_behaviorSet, h.serverCount]

/-- Clients that agree report the same values, but for the weighted flag, which is not copied, and the
name of the configuration file, which is not set. -/
theorem Agrees.behaviorGet (h : Agrees c d) (outside : Outside) (hweighted : flag ≠ .ketamaWeighted)
    (hfile : flag ≠ .loadFromFile) : d.behaviorGet outside flag = c.behaviorGet outside flag := by
  have hsend : d.sendSize = c.sendSize := congrArg (·.sendSize) h.settings
  have hrecv : d.recvSize = c.recvSize := congrArg (·.recvSize) h.settings
  have hget := congrArg (fun e : Memcached => e.behaviorGet outside flag) h.settings
  cases flag with
  | ketamaWeighted => exact absurd rfl hweighted
  | loadFromFile => exact absurd rfl hfile
  | socketSendSize => simp only [behaviorGet, hsend, h.serverCount]
  | socketRecvSize => simp only [behaviorGet, hrecv, h.serverCount]
  | _ => exact hget

end Memcached

/-! ## A behaviour is set on all clients in the pool -/

namespace Pool

variable {pool : Pool} {stack held : List Clone}

theorem behaviorLoop_sets (rcs : Nat → ReturnT) (cloned : Nat → Bool) (fuel : Nat) {x : Nat}
    (h : pool.Owns stack held) (hx : x ≤ stack.length) (hf : stack.length < x + fuel)
    (hrcs : ∀ i < stack.length, (rcs i).isSuccess = true) :
    ∃ pool', behaviorLoop rcs cloned fuel x pool = some pool' ∧ pool'.version = pool.version ∧
      pool'.clones = pool.clones ∧
      pool'.Owns (stack.take x ++ (stack.drop x).map fun c => { c with version := pool.version })
        held := by
  induction fuel generalizing x pool stack with
  | zero => omega
  | succ fuel ih =>
    have hfirst := h.holds.firstfree
    have hlen := h.holds.length_le
    have hsmall := h.holds.small
    by_cases hend : x = stack.length
    · refine ⟨pool, by rw [behaviorLoop, if_neg (by omega)], rfl, rfl, ?_⟩
      rw [hend, take_length, drop_length, map_nil, append_nil]
      exact h
    · have hlt : x < stack.length := by omega
      obtain ⟨slots, hstore, hset⟩ := h.holds.set hlt { stack[x] with version := pool.version }
      have hown := h.update (map_id_set hlt pool.version) hset rfl rfl rfl
      obtain ⟨pool', hloop, hversion, hclones, hown'⟩ := ih (x := x + 1) hown (by rw [length_set]; omega)
        (by rw [length_set]; omega) (by simpa using hrcs)
      refine ⟨pool', ?_, hversion, hclones, ?_⟩
      · rw [behaviorLoop, if_pos (by omega), h.holds.getElem hlt, Int.toNat_natCast]
        have hnext : nextInt x = (x + 1 : Nat) := by
          rw [nextInt_eq (by omega) (by omega)]
          rfl
        have hslot : (if (rcs x).isSuccess then
              pool.store x { stack[x] with version := pool.version }
            else if cloned x then pool.clone.2.store x pool.clone.1 else some pool) =
            some { pool with serverPool := slots } := by
          rw [if_pos (hrcs x hlt)]
          exact hstore
        rw [hnext]
        exact (congrArg (Option.bind · _) hslot).trans hloop
      · have htake : (stack.set x { stack[x] with version := pool.version }).take (x + 1) =
            stack.take x ++ [{ stack[x] with version := pool.version }] := by
          rw [take_add_one, take_set_of_le (Nat.le_refl x), List.getElem?_set_self hlt]
          rfl
        rw [htake, drop_set_of_lt (Nat.lt_succ_self x)] at hown'
        rw [drop_eq_getElem_cons hlt, map_cons]
        simpa using hown'

theorem behaviorSet_sets (h : pool.Owns stack held) {rc : ReturnT} (hrc : rc.isFailed = false)
    {rcs : Nat → ReturnT} (hrcs : ∀ i < stack.length, (rcs i).isSuccess = true)
    (cloned : Nat → Bool) :
    ∃ pool', pool.behaviorSet rc rcs cloned = some (rc, pool') ∧
      pool'.version = pool.version + 1 ∧ pool'.clones = pool.clones ∧
      pool'.Owns (stack.map fun c => { c with version := pool.version + 1 }) held := by
  have hnew : Owns { pool with version := pool.version + 1 } stack held :=
    h.perm .rfl ⟨h.holds.small, h.holds.firstfree, h.holds.slots⟩ rfl rfl rfl
  have hfirst := h.holds.firstfree
  obtain ⟨pool', hloop, hversion, hclones, hown⟩ :=
    behaviorLoop_sets rcs cloned (pool.firstfree.toNat + 3) hnew (Nat.zero_le _) (by omega) hrcs
  refine ⟨pool', ?_, hversion, hclones, by simpa using hown⟩
  rw [behaviorSet, if_neg (by simp [hrc])]
  exact congrArg (Option.bind · _) hloop

end Pool

/-! ## The invariant -/

namespace PoolClients

variable {H : Hashes} {now : Nat} {clock : Nat → Nat} {s s' : PoolClients}
  {stack : List Clone}

/-- The clients in the pool have the version of the master, those that are away none that is newer, and
a client that has it has the settings of the master. -/
structure Current (s : PoolClients) (stack : List Clone) : Prop where
  owns : s.sys.pool.Owns stack (s.sys.held.map (·.2))
  idle : ∀ c ∈ stack, c.version = s.sys.pool.version
  older : ∀ c ∈ s.sys.held.map (·.2), c.version.toInt ≤ s.sys.pool.version.toInt
  agrees : ∀ c ∈ stack ++ s.sys.held.map (·.2), c.version = s.sys.pool.version →
    s.master.Agrees (s.client c.id)

theorem withClones_of_lt {master : Memcached} {client : Nat → Memcached} {id : Nat}
    (h : id < s.sys.pool.clones) : s.withClones H clock master client id = client id := if_pos h

theorem agrees_withClones (s : PoolClients) (master : Memcached) (client : Nat → Memcached) :
    master.Agrees (s.withClones H clock master client s.sys.pool.clones) := by
  obtain ⟨d, hclone, hagrees⟩ := clone_agrees H master (clock s.sys.pool.clones)
  rw [withClones, if_neg (Nat.lt_irrefl _), hclone]
  exact hagrees

/-- No settings change, and the clients are those there were and perhaps a new one. -/
theorem Current.enter (h : s.Current stack) {stack' : List Clone}
    (hversion : sys.pool.version = s.sys.pool.version) (hown : sys.pool.Owns stack' (sys.held.map (·.2)))
    (hidle : ∀ c ∈ stack', c.version = s.sys.pool.version)
    (hfrom : ∀ c ∈ stack' ++ sys.held.map (·.2), c ∈ stack ++ s.sys.held.map (·.2) ∨ c = s.sys.pool.clone.1) :
    Current { s with sys := sys, client := s.withClones H clock s.master s.client } stack' where
  owns := hown
  idle c hc := (hidle c hc).trans hversion.symm
  older c hc := by
    show c.version.toInt ≤ sys.pool.version.toInt
    rw [hversion]
    rcases hfrom c (mem_append_right _ hc) with hold | rfl
    · rcases mem_append.mp hold with hmem | hmem
      · rw [h.idle c hmem]
      · exact h.older c hmem
    · exact Int.le_refl _
  agrees c hc hcurrent := by
    show s.master.Agrees (s.withClones H clock s.master s.client c.id)
    rcases hfrom c hc with hold | rfl
    · rw [withClones_of_lt (h.owns.made c hold)]
      exact h.agrees c hold (hcurrent.trans hversion)
    · exact agrees_withClones s s.master s.client

theorem enter_eq {event : PoolEvent} (h : s.sys.step event = some sys) :
    s.enter H clock event =
      some { s with sys := sys, client := s.withClones H clock s.master s.client } := by
  rw [enter, h]
  rfl

theorem Current.fetched (h : s.Current stack) (hheld : sys.held = s.sys.held) (thread : Nat) {ret : Fetched}
    (hversion : pool.version = s.sys.pool.version)
    (hafter : Pool.AfterFetch s.sys.pool stack (s.sys.held.map (·.2)) ret pool) :
    (∃ stack', Current { s with
        sys := sys.fetched thread ret pool, client := s.withClones H clock s.master s.client } stack') ∧
      ∀ thread' c, (sys.fetched thread ret pool).held = (thread', c) :: s.sys.held →
        c.version = (sys.fetched thread ret pool).pool.version := by
  have hkept {sys' : PoolSystem} (hp : sys'.pool = pool) (hh : sys'.held = s.sys.held)
      (hown : pool.Owns stack (s.sys.held.map (·.2))) :
      (∃ stack', Current { s with
          sys := sys', client := s.withClones H clock s.master s.client } stack') ∧
        ∀ thread' c, sys'.held = (thread', c) :: s.sys.held → c.version = sys'.pool.version := by
    refine ⟨⟨stack, h.enter (by rw [hp, hversion]) (by rw [hp, hh]; exact hown) h.idle
      fun c hc => .inl ?_⟩, fun thread' c heq => ?_⟩
    · rw [hh] at hc
      exact hc
    · have := congrArg List.length heq
      rw [hh, length_cons] at this
      omega
  cases ret with
  | client c =>
    obtain ⟨stack', hown, hcase⟩ := hafter
    have hstack : ∀ c' ∈ stack', c' ∈ stack := by
      rcases hcase with ⟨rfl, -⟩ | ⟨rfl, -⟩
      · exact fun c' hc' => mem_append_left _ hc'
      · exact fun c' hc' => hc'
    have hc : c ∈ stack ∨ c = s.sys.pool.clone.1 := by
      rcases hcase with ⟨rfl, -⟩ | ⟨-, hc, -⟩
      · exact .inl (by simp)
      · exact .inr hc
    refine ⟨⟨stack', h.enter hversion (by rw [PoolSystem.fetched, hheld]; exact hown)
      (fun c' hc' => h.idle c' (hstack c' hc')) fun c' hc' => ?_⟩, fun thread' c' heq => ?_⟩
    · simp only [PoolSystem.fetched, hheld, map_cons, mem_append, mem_cons] at hc' ⊢
      rcases hc' with hc' | rfl | hc'
      · exact .inl (.inl (hstack c' hc'))
      · rcases hc with hc | hc
        · exact .inl (.inl hc)
        · exact .inr hc
      · exact .inl (.inr hc')
    · simp only [PoolSystem.fetched, List.cons.injEq, Prod.mk.injEq] at heq
      obtain ⟨⟨-, rfl⟩, -⟩ := heq
      show c.version = pool.version
      rw [hversion]
      rcases hc with hc | rfl
      · exact h.idle c hc
      · rfl
  | notFound | waiting | failed => exact hkept rfl hheld hafter.1

/-- A client comes back: it is kept if it is up to date, and replaced otherwise. -/
theorem Current.release (h : s.Current stack) {thread : Nat} {released : Clone}
    (hheld : (thread, released) ∈ s.sys.held) {client : Clone}
    (hversion : pool.version = s.sys.pool.version)
    (hown : pool.Owns (stack ++ [client]) ((s.sys.held.erase (thread, released)).map (·.2)))
    (hcase : client = released ∧ released.version = s.sys.pool.version ∨ client = s.sys.pool.clone.1) :
    Current { s with
        sys := { s.sys with pool := pool, held := s.sys.held.erase (thread, released) }
        client := s.withClones H clock s.master s.client } (stack ++ [client]) := by
  refine h.enter hversion hown (fun c hc => ?_) fun c hc => ?_
  · rcases mem_append.mp hc with hc | hc
    · exact h.idle c hc
    · rw [mem_singleton.mp hc]
      rcases hcase with ⟨rfl, hc⟩ | rfl
      · exact hc
      · rfl
  · rcases mem_append.mp hc with hc | hc
    · rcases mem_append.mp hc with hc | hc
      · exact .inl (mem_append_left _ hc)
      · rw [mem_singleton.mp hc]
        rcases hcase with ⟨rfl, -⟩ | rfl
        · exact .inl (mem_append_right _ (mem_map_of_mem hheld))
        · exact .inr rfl
    · obtain ⟨held, hmem, rfl⟩ := mem_map.mp hc
      exact .inl (mem_append_right _ (mem_map_of_mem (mem_of_mem_erase hmem)))

theorem toInt_add_one {version : Int32} (h : version.toInt < 2 ^ 31 - 1) :
    (version + 1).toInt = version.toInt + 1 := by
  have hlow := Int32.le_toInt version
  rw [Int32.toInt_add, Int32.toInt_one, Int.bmod_eq_of_le] <;> omega

/-- A behaviour is set: the clients in the pool follow the master, and those that are away are out of
date. -/
theorem Current.behaviorSet (h : s.Current stack) {data : UInt64}
    (hrc : (s.master.behaviorSet H now flag data).1.isSuccess = true)
    (hversion : s.sys.pool.version.toInt < 2 ^ 31 - 1) (clock : Nat → Nat) :
    ∃ s', s.behaviorSet H now clock flag data = some s' ∧ s'.sys.held = s.sys.held ∧
      ∃ stack', s'.Current stack' := by
  have hfailed := ReturnT.isFailed_of_isSuccess hrc
  have hset (c : Clone) (hc : c ∈ stack) :
      (s.setClient H clock flag data c.id).1 = (s.master.behaviorSet H now flag data).1 ∧
        Agrees (s.master.behaviorSet H now flag data).2 (s.setClient H clock flag data c.id).2 :=
    (h.agrees c (mem_append_left _ hc) (h.idle c hc)).behaviorSet flag data
  have hslots (i : Nat) (hi : i < stack.length) :
      (s.setSlot H clock flag data i).isSuccess = true := by
    simp only [setSlot, h.owns.holds.getElem hi]
    rw [(hset _ (getElem_mem hi)).1]
    exact hrc
  obtain ⟨pool, hpool, hversion', hclones, hown⟩ :=
    Pool.behaviorSet_sets h.owns hfailed hslots fun _ => true
  have hnext : s.behaviorSet H now clock flag data = some
      { sys := { s.sys with pool := pool }
        master := (s.master.behaviorSet H now flag data).2
        client := s.withClones H clock (s.master.behaviorSet H now flag data).2
          (s.setClients H clock flag data) } := by
    simp only [PoolClients.behaviorSet, PoolSystem.step, hpool, hfailed]
    rfl
  refine ⟨_, hnext, rfl, _, hown, fun c hc => ?_, fun c hc => ?_, fun c hc hcurrent => ?_⟩
  · obtain ⟨c', -, rfl⟩ := mem_map.mp hc
    exact hversion'.symm
  · show c.version.toInt ≤ pool.version.toInt
    rw [hversion', toInt_add_one hversion]
    have := h.older c hc
    omega
  · rcases mem_append.mp hc with hc | hc
    · obtain ⟨c', hc', rfl⟩ := mem_map.mp hc
      have hidle : c'.id ∈ s.sys.pool.free.map (·.id) := by
        rw [h.owns.holds.free_eq]
        exact mem_map_of_mem hc'
      show Agrees _ (s.withClones H clock _ _ c'.id)
      rw [withClones_of_lt (h.owns.made c' (mem_append_left _ hc')), setClients, if_pos hidle]
      exact (hset c' hc').2
    · have hold := h.older c hc
      have hnew : c.version.toInt = s.sys.pool.version.toInt + 1 := by
        rw [hcurrent]
        show pool.version.toInt = _
        rw [hversion', toInt_add_one hversion]
      omega

/-- What the calls of a run have to be: no call sets `KETAMA_WEIGHTED`, and the version does not
overflow. -/
def Plain (s : PoolClients) : PoolCall → Prop
  | .behaviorSet flag _ => flag ≠ .ketamaWeighted ∧ s.sys.pool.version.toInt < 2 ^ 31 - 1
  | _ => True

/-- Every critical section ends and keeps the invariant, and a client that it hands out has the version
of the master. -/
theorem Current.step (h : s.Current stack) {call : PoolCall} (henabled : s.Enabled H now call)
    (hplain : s.Plain call) (clock : Nat → Nat) :
    ∃ s', s.step H now clock call = some s' ∧ (∃ stack', s'.Current stack') ∧
      ∀ thread c, s'.sys.held = (thread, c) :: s.sys.held → c.version = s'.sys.pool.version := by
  have hgrows {version : Int32} {held : List (Nat × Clone)} (hle : held.length ≤ s.sys.held.length)
      (thread : Nat) (c : Clone) (heq : held = (thread, c) :: s.sys.held) : c.version = version := by
    have := congrArg List.length heq
    rw [length_cons] at this
    omega
  cases call with
  | fetch thread waits =>
    obtain ⟨ret, pool, hfetch, hversion, hafter⟩ := Pool.fetch_owns h.owns waits true
    have hsys : s.sys.step (.fetch thread waits true) = some (s.sys.fetched thread ret pool) := by
      simp only [PoolSystem.step, hfetch]
      rfl
    exact ⟨_, enter_eq hsys, h.fetched rfl thread hversion hafter⟩
  | wake thread wakeup =>
    cases wakeup with
    | woken =>
      obtain ⟨ret, pool, hfetch, hversion, hafter⟩ := Pool.fetch_owns h.owns true true
      let awake : PoolSystem := { s.sys with waiting := s.sys.waiting.erase thread }
      have hsys : s.sys.step (.wake thread .woken true) = some (awake.fetched thread ret pool) := by
        simp only [PoolSystem.step, hfetch]
        rfl
      exact ⟨_, enter_eq hsys, h.fetched (by rfl) thread hversion hafter⟩
    | error =>
      exact ⟨_, rfl, ⟨stack, h.enter rfl h.owns h.idle fun c hc => .inl hc⟩, hgrows (Nat.le_refl _)⟩
  | release thread released =>
    have hperm := (perm_cons_erase henabled.2).map (·.2)
    obtain ⟨pool, client, hrelease, hversion, hown, hcase⟩ := Pool.release_owns h.owns hperm true
    have hsys : s.sys.step (.release thread released true) = some
        { s.sys with pool := pool, held := s.sys.held.erase (thread, released) } := by
      simp only [PoolSystem.step, hrelease]
      rfl
    refine ⟨_, enter_eq hsys, ⟨_, h.release henabled.2 hversion hown ?_⟩, hgrows length_erase_le⟩
    rcases hcase with ⟨rfl, hkept, -⟩ | ⟨rfl, -⟩
    · exact .inl ⟨rfl, by simpa [Pool.compareVersion] using hkept⟩
    · exact .inr rfl
  | behaviorSet flag data =>
    obtain ⟨s', hnext, hheld, hcurrent⟩ := h.behaviorSet henabled hplain.2 clock
    exact ⟨s', hnext, hcurrent, hgrows (by rw [hheld])⟩

/-- The flags that a run sets are all reported by clients that agree. -/
theorem Reaches.current {start : PoolClients} {flags : List Behavior}
    (hr : Reaches H Plain start flags s) (hstart : start.Current stack) :
    (∃ stack', s.Current stack') ∧ ∀ flag ∈ flags, flag ≠ .ketamaWeighted ∧ flag ≠ .loadFromFile := by
  induction hr with
  | start => exact ⟨⟨stack, hstart⟩, by simp⟩
  | call hr henabled hplain hnext ih =>
    obtain ⟨⟨stack', hcurrent⟩, hflags⟩ := ih
    rename_i call now clock
    obtain ⟨s', hnext', hcurrent', -⟩ := hcurrent.step henabled hplain clock
    obtain rfl : s' = _ := Option.some.inj (hnext'.symm.trans hnext)
    refine ⟨hcurrent', fun flag hflag => ?_⟩
    rcases mem_append.mp hflag with hmem | hmem
    · cases call with
      | behaviorSet flag' data =>
        simp only [PoolCall.flag?, Option.toList_some, mem_singleton] at hmem
        subst hmem
        refine ⟨hplain.1, fun hfile => ?_⟩
        subst hfile
        cases henabled
      | _ => simp [PoolCall.flag?] at hmem
    · exact hflags flag hmem

end PoolClients

/-- In every run in which `KETAMA_WEIGHTED` is not set and the version does not overflow, every call ends,
and a client that it hands out has the version of the master and reports what the master reports. -/
theorem pool_clients_current (H : Hashes) (clock : Nat → Nat) (version : Int32)
    (master : Memcached) (initial max : Nat) (hi : 0 < initial) (hm : initial ≤ max)
    (hsmall : max < 2 ^ 31) :
    ∃ start, PoolClients.create H clock version master initial max = some (some start) ∧
      ∀ flags s, PoolClients.Reaches H PoolClients.Plain start flags s →
        ∀ call now clock, s.Enabled H now call → s.Plain call →
          ∃ s', s.step H now clock call = some s' ∧
            ∀ thread c, s'.sys.held = (thread, c) :: s.sys.held →
              c.version = s'.sys.pool.version ∧ ∀ flag ∈ flags, ∀ outside,
                (s'.client c.id).behaviorGet outside flag = s'.master.behaviorGet outside flag := by
  obtain ⟨pool, stack, hinit, hversion, hstack, hown⟩ := Pool.initLoop_owns (fun _ => true)
    (n := initial) (x := 0) (emptyPool_owns version hsmall) (by simp) (by simpa [emptyPool] using hm)
  let start : PoolClients :=
    { sys := { pool := pool }, master := master
      client := fun id => (master.clone H (clock id)).getD master }
  have hstart : start.Current stack := by
    refine ⟨hown, fun c hc => (hstack c hc).trans hversion.symm, by simp [start], fun c hc _ => ?_⟩
    obtain ⟨d, hclone, hagrees⟩ := clone_agrees H master (clock c.id)
    show master.Agrees ((master.clone H (clock c.id)).getD master)
    rw [hclone]
    exact hagrees
  refine ⟨start, ?_, fun flags s hr call now clock henabled hplain => ?_⟩
  · rw [PoolClients.create, memcachedPoolCreate_eq version _ hi hm, hinit]
    rfl
  · obtain ⟨⟨stack', hcurrent⟩, hflags⟩ := hr.current hstart
    obtain ⟨s', hnext, ⟨stack'', hcurrent'⟩, hc⟩ := hcurrent.step henabled hplain clock
    refine ⟨s', hnext, fun thread c hheld => ⟨hc thread c hheld, fun flag hflag outside => ?_⟩⟩
    have hmem : c ∈ stack'' ++ s'.sys.held.map (·.2) := by
      rw [hheld]
      simp
    obtain ⟨hweighted, hfile⟩ := hflags flag hflag
    exact (hcurrent'.agrees c hmem (hc thread c hheld)).behaviorGet outside hweighted hfile

theorem pool_clients_current_two :
    ∃ start, PoolClients.create fnvHashes id 0 {} 1 2 = some (some start) ∧
      ∀ flags s, PoolClients.Reaches fnvHashes PoolClients.Plain start flags s →
        ∀ call now clock, s.Enabled fnvHashes now call → s.Plain call →
          ∃ s', s.step fnvHashes now clock call = some s' ∧
            ∀ thread c, s'.sys.held = (thread, c) :: s.sys.held →
              c.version = s'.sys.pool.version ∧ ∀ flag ∈ flags, ∀ outside,
                (s'.client c.id).behaviorGet outside flag = s'.master.behaviorGet outside flag :=
  pool_clients_current fnvHashes id 0 {} 1 2 (by decide) (by decide) (by decide)

/-- A client is away while `KETAMA_WEIGHTED` is turned on, and the clone that replaces it reports that it
is off: `memcached_clone` does not copy the flag. -/
theorem pool_loses_weighted_ketama :
    ∃ start flags s s' c,
      PoolClients.create fnvHashes id 0 {} 1 1 = some (some start) ∧
      PoolClients.Reaches fnvHashes (fun _ _ => True) start flags s ∧
      s.Enabled fnvHashes 0 (.fetch 0 false) ∧
      s.step fnvHashes 0 id (.fetch 0 false) = some s' ∧
      s'.sys.held = (0, c) :: s.sys.held ∧ Behavior.ketamaWeighted ∈ flags ∧
      ∀ outside, (s'.client c.id).behaviorGet outside .ketamaWeighted = 0 ∧
        s'.master.behaviorGet outside .ketamaWeighted = 1 := by
  exact ⟨_, _, _, _, _, rfl,
    @PoolClients.Reaches.call _ _ _ _ _ _ (.release 0 ⟨0, 0⟩) 0 id
      (@PoolClients.Reaches.call _ _ _ _ _ _ (.behaviorSet .ketamaWeighted 1) 0 id
        (@PoolClients.Reaches.call _ _ _ _ _ _ (.fetch 0 false) 0 id .start not_mem_nil trivial rfl)
        rfl trivial rfl) ⟨not_mem_nil, mem_singleton.mpr rfl⟩ trivial rfl,
    not_mem_nil, rfl, rfl, mem_cons_self, fun outside => ⟨rfl, rfl⟩⟩

end LM
