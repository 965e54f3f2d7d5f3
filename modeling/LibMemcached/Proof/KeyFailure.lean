import LibMemcached.Impl.KeyFailure
import LibMemcached.Proof.Routing

/-!
# The mode of a client after a get

The code that stores the value of a get-key-failure callback changes the mode of the client for the time of
the store, and the store is a query of its own. Neither is undone on every path
(`getByKey_keeps_mode_iff`): the mode is put back only if the store was buffered, and a store that fails
leaves the number of the query one too high for the last assertion.
-/

namespace LM

open Memcached

variable {κ : Type} {K : Kernel κ} {shutdown : κ → κ} {H : Hashkit.Hashes} {s : St κ} {c c' d : Client κ}
  {on : Bool} {got : GetOutcome} (env : Env)

/-! ## Closing -/

theorem memcachedIoPoll_calls (event : PollEvent) : Calls (memcachedIoPoll K event) s := fun _ =>
  ((memcachedIoPoll_reads event s).mono fun _ _ h => h.2.2.kept).always

theorem slurpLoop_calls {fuel : Nat} : Calls (slurpLoop K fuel) s := by
  have hnet (s : St κ) (net : κ) : Kept s { s with net := net } := ⟨.rfl, rfl, List.prefix_rfl, id⟩
  induction fuel generalizing s with
  | zero => exact fun _ => .failure
  | succ fuel ih =>
    refine .get_bind ?_
    split
    · exact .set_bind (hnet s _) ih
    · exact .set_bind (hnet s _) .pure
    · refine .set_bind (hnet s _) (.ite (fun _ => ?_) fun _ => .pure)
      exact (memcachedIoPoll_calls _).bind fun _ _ _ => .pure

theorem memcachedIoSlurp_calls : Calls (memcachedIoSlurp K) s :=
  .get_bind (.ite (fun _ => .pure) fun _ => slurpLoop_calls)

theorem startCloseSocket_calls : Calls (startCloseSocket shutdown) s :=
  .modify ⟨.rfl, rfl, List.prefix_rfl, id⟩

theorem sendQuitMessage_calls : Calls (sendQuitMessage K) s := by
  refine .get_bind (.ite (fun _ => ?_) fun _ => memcachedVdo_calls _ _ _)
  exact initializeBinaryRequest_calls.bind fun _ _ _ => memcachedVdo_calls _ _ _

theorem drainInstance_calls : Calls (drainInstance K) s :=
  .get_bind (.bind (.ite (fun _ => memcachedIoSlurp_calls) fun _ => .pure) fun _ _ _ =>
    .modify ⟨.rfl, rfl, List.prefix_rfl, id⟩)

theorem memcachedQuitServer_calls : Calls (memcachedQuitServer K shutdown) s := by
  refine .get_bind (.bind (.ite (fun _ => ?_) fun _ => .pure) fun _ _ _ => closeSocket_calls)
  exact sendQuitMessage_calls.bind fun _ _ _ => startCloseSocket_calls.bind fun _ _ _ =>
    drainInstance_calls

theorem sendQuit_stays : Stays (sendQuit K shutdown) c :=
  servers_stays.bind fun _ _ _ => foldServers_stays (fun _ _ => memcachedQuitServer_calls) _ _

/-! ## Storing the value of the callback -/

/-- The mode of the client is `on`, and `queries` were begun; all other flags are as they were. -/
structure Client.Switched (on : Bool) (queries : UInt64) (c c' : Client κ) : Prop where
  atRest : c'.AtRest
  flags : c'.memc.flags = { c.memc.flags with bufferRequests := on }
  queryId : c'.memc.queryId = c.memc.queryId + queries

theorem Client.Switched.trans {on' : Bool} {n m : UInt64} (h : c.Switched on n d) (h' : d.Switched on' m c') :
    c.Switched on' (n + m) c' :=
  ⟨h'.atRest, by rw [h'.flags, h.flags], by rw [h'.queryId, h.queryId, UInt64.add_assoc]⟩

theorem Client.Switched.self (hc : c.AtRest) : c.Switched c.memc.flags.bufferRequests 0 c :=
  ⟨hc, rfl, (UInt64.add_zero _).symm⟩

theorem setBufferRequests_switched (data : UInt64) (hc : c.AtRest) (hudp : c.memc.flags.useUdp = false) :
    Always (setBufferRequests K shutdown H env data) c fun _ c' => c.Switched (boolOfData data) 0 c' := by
  have hset : c.memc.behaviorSet H env.now .bufferRequests data =
      (.success, { c.memc with flags.bufferRequests := boolOfData data }) := by
    simp [behaviorSet, hudp]
  refine .onClient_bind ?_
  rw [hset]
  have hrest : Client.AtRest { c with memc.flags.bufferRequests := boolOfData data } :=
    ⟨hc.isPurging, hc.writeBuffer⟩
  refine (sendQuit_stays hrest).bind fun _ d hd => .pure ?_
  exact ⟨hd.atRest, by rw [hd.memc], by rw [hd.memc, UInt64.add_zero]⟩

theorem memcachedSet_switched (item : Item) (hc : c.AtRest) :
    Always (memcachedSet K H env item) c fun _ c' => c.Switched c.memc.flags.bufferRequests 1 c' := by
  refine (@memcachedSend_called κ K H (fun _ => env) c item.key hc item .set).mono fun _ d hd => ?_
  exact ⟨hd.atRest, hd.flags, hd.queryId⟩

/-- The mode that a store leaves: a callback that asked for a buffered store leaves it on, unless the store
was buffered. -/
def modeAfter (asked rc : ReturnT) (on : Bool) : Bool :=
  if asked = .buffered ∧ rc ≠ .buffered then true else on

theorem storeKeyFailure_switched (key : Bytes) (result : KeyFailure) (hc : c.AtRest)
    (hudp : c.memc.flags.useUdp = false) :
    Always (storeKeyFailure K shutdown H env key result) c fun rc c' =>
      c.Switched (modeAfter result.rc rc c.memc.flags.bufferRequests) 1 c' := by
  refine .ite (fun hasked => .get_bind ?_) fun hasked => ?_
  · have hon : Always (if !c.memc.flags.bufferRequests then setBufferRequests K shutdown H env 1
        else pure .success) c fun _ d => c.Switched true 0 d := by
      refine .ite (fun _ => setBufferRequests_switched env 1 hc hudp) fun hlatch => .pure ?_
      have hself := Client.Switched.self hc
      rwa [show c.memc.flags.bufferRequests = true by simpa using hlatch] at hself
    refine hon.bind fun _ d hd => ?_
    have hflags : d.memc.flags.bufferRequests = true := by rw [hd.flags]
    refine (memcachedSet_switched env _ hd.atRest).bind fun rc e he => ?_
    rw [hflags] at he
    have hset := hd.trans he
    refine Always.bind (Q := fun _ f => c.Switched (modeAfter result.rc rc c.memc.flags.bufferRequests) 1 f)
      (.ite (fun hback => ?_) fun hback => .pure ?_) fun _ f hf => .pure hf
    · have hudp' : e.memc.flags.useUdp = false := by rw [hset.flags]; exact hudp
      refine (setBufferRequests_switched env 0 hset.atRest hudp').mono fun _ f hf => ?_
      rw [modeAfter, if_neg (by simp [hback.1]), hback.2]
      exact hset.trans hf
    · have hmode : modeAfter result.rc rc c.memc.flags.bufferRequests = true := by
        unfold modeAfter
        split
        · rfl
        · next h => simp_all
      rw [hmode]
      exact hset
  · refine (memcachedSet_switched env _ hc).mono fun rc d hd => ?_
    rwa [modeAfter, if_neg (by simp [hasked])]

/-! ## The call -/

theorem GetOutcome.assert_eq (got : GetOutcome) {queries : UInt64} (hd : c.Switched on queries d) :
    got.assert c.memc.queryId d = some ({ got with asserted := got.asserted && queries == 1 }, d) := by
  have hcount : (d.memc.queryId == c.memc.queryId + 1) = (queries == 1) := by
    rw [hd.queryId, Bool.eq_iff_iff, beq_iff_eq, beq_iff_eq]
    exact UInt64.add_right_inj _
  rw [← hcount]
  rfl

theorem GetOutcome.assert_one (h : got.asserted = true) (hd : c.Switched on 1 d) :
    got.assert c.memc.queryId d = some (got, d) := by
  rw [got.assert_eq hd]
  simp [← h]

/-- What is claimed of a get: the mode is the one it was, and the assertions have held. -/
def GetOutcome.KeepsMode (c : Client κ) (got : GetOutcome) (c' : Client κ) : Prop :=
  c'.memc.flags.bufferRequests = c.memc.flags.bufferRequests ∧ got.asserted = true

/-- The nested store ends as the code takes for granted: it was buffered, or it succeeded and the mode was not
changed for it. -/
def GetOutcome.Expected (asked : Option ReturnT) (on : Bool) (got : GetOutcome) : Prop :=
  ∀ rc, got.nested = some rc → rc = .buffered ∨ (rc = .success ∧ (asked = some .success ∨ on = true))

theorem GetOutcome.keepsMode_of_none {asked : Option ReturnT} (hnone : got.nested = none)
    (hd : c.Switched c.memc.flags.bufferRequests 1 d) (h : got.asserted = true) :
    got.KeepsMode c d ↔ got.Expected asked c.memc.flags.bufferRequests := by
  refine iff_of_true ⟨by rw [hd.flags], h⟩ fun rc hrc => ?_
  rw [hnone] at hrc
  cases hrc

theorem keyFailed_keeps (key : Bytes) (result : KeyFailure)
    (hd : c.Switched c.memc.flags.bufferRequests 1 d) (hudp : c.memc.flags.useUdp = false)
    (hasserted : got.asserted = true) (hnested : got.nested = none) :
    Always (keyFailed K shutdown H env c.memc.queryId key result got) d fun got' c' =>
      got'.KeepsMode c c' ↔ got'.Expected (some result.rc) c.memc.flags.bufferRequests := by
  refine .ite (fun hgood => ?_) fun hbad => ?_
  · have hudp' : d.memc.flags.useUdp = false := by rw [hd.flags]; exact hudp
    have hon : d.memc.flags.bufferRequests = c.memc.flags.bufferRequests := by rw [hd.flags]
    refine (storeKeyFailure_switched env key result hd.atRest hudp').bind fun rc e he => ?_
    rw [hon] at he
    have hse := hd.trans he
    have hmode : e.memc.flags.bufferRequests = modeAfter result.rc rc c.memc.flags.bufferRequests := by
      rw [hse.flags]
    refine .ite (fun hok => .pure ?_) fun hfail => ?_
    · simp only [GetOutcome.KeepsMode, GetOutcome.Expected, hmode, hasserted, modeAfter, Option.some.injEq,
        forall_eq']
      rcases hgood with hgood | hgood <;> rcases hok with rfl | rfl <;> simp [hgood]
    · -- the store was a second query, and the assertion expects one
      refine .of_eq (GetOutcome.assert_eq _ hse) (iff_of_false (fun h => ?_) fun h => hfail ?_)
      · simp [GetOutcome.KeepsMode] at h
      · exact (h rc rfl).symm.imp And.left id
  · exact .of_eq (GetOutcome.assert_one hasserted hd) (GetOutcome.keepsMode_of_none hnested hd hasserted)

/-- Without a callback the call is the plain one. -/
theorem memcachedGetByKeyWith_none (env : Nat → Env) (setEnv : Env) (poller : Poller κ)
    (groupKey key : Bytes) : (fun got : GetOutcome => (got.value, got.error)) <$>
        memcachedGetByKeyWith K shutdown none H env setEnv poller groupKey key =
      memcachedGetByKey K H env poller groupKey key := by
  unfold memcachedGetByKeyWith memcachedGetByKey GetOutcome.assert
  have hget {α : Type} (m : Query κ α) : (get >>= fun _ : Client κ => m) = m := rfl
  simp only [map_bind, bind_assoc, pure_bind, map_pure, apply_ite]
  rw [hget]
  refine bind_congr fun rc => ?_
  rw [hget]
  split
  · rfl
  refine bind_congr fun r => ?_
  rw [hget, hget, ite_self]

theorem mgetByKeyReal_switched {env : Nat → Env} {groupKey : Bytes} {keys : List Bytes} {mgetMode : Bool}
    (hc : c.AtRest) : Always (mgetByKeyReal K H env groupKey keys mgetMode) c fun rc d =>
      c.Switched c.memc.flags.bufferRequests 1 d ∧ (rc.isFailed = false → c.memc.flags.useUdp = false) := by
  intro rc d hrun
  have hcalled := mgetByKeyReal_called hc keys mgetMode rc d hrun
  refine ⟨⟨hcalled.atRest, hcalled.flags, hcalled.queryId⟩, fun hok => ?_⟩
  by_contra hudp
  have hfailed : rc.isFailed = true := mgetByKeyReal_fails hc (fun ht => hudp ht.2.1) rc d hrun
  rw [hok] at hfailed
  cases hfailed

/-- A get keeps the mode of the client, and its assertions hold, if and only if the nested store it may have
made was buffered, or succeeded and had not needed another mode. -/
theorem getByKey_keeps_mode_iff (K : Kernel κ) (shutdown : κ → κ) (H : Hashkit.Hashes)
    (getKeyFailure : Option (Bytes → KeyFailure)) (env : Nat → Env) (setEnv : Env) (poller : Poller κ)
    (groupKey key : Bytes) (c : Client κ) (hc : c.AtRest) :
    Always (memcachedGetByKeyWith K shutdown getKeyFailure H env setEnv poller groupKey key) c fun got c' =>
      got.KeepsMode c c' ↔
        got.Expected (getKeyFailure.map fun f => (f key).rc) c.memc.flags.bufferRequests := by
  refine .get_bind ((mgetByKeyReal_switched hc).bind fun rc d ⟨hd, hudp⟩ => ?_)
  have hbegun : GetOutcome.assert ⟨none, rc, true, none⟩ c.memc.queryId d = some (⟨none, rc, true, none⟩, d) :=
    GetOutcome.assert_one rfl hd
  refine .eq_bind hbegun (.ite (fun _ => .get_bind (.pure ?_)) fun hok => ?_)
  · exact GetOutcome.keepsMode_of_none rfl hd rfl
  have hudp := hudp (by simpa using hok)
  refine (memcachedFetch_stays poller 0 hd.atRest).bind fun r e he => ?_
  obtain ⟨value, rc'⟩ := r
  have hfetched : c.Switched c.memc.flags.bufferRequests 1 e :=
    ⟨he.atRest, by rw [he.memc, hd.flags], by rw [he.memc, hd.queryId]⟩
  have hasserted (code : ReturnT) : GetOutcome.assert ⟨value, code, true, none⟩ c.memc.queryId e =
      some (⟨value, code, true, none⟩, e) := GetOutcome.assert_one rfl hfetched
  have hkept (code : ReturnT) {asked : Option ReturnT} :
      GetOutcome.KeepsMode c ⟨value, code, true, none⟩ e ↔
        GetOutcome.Expected asked c.memc.flags.bufferRequests ⟨value, code, true, none⟩ :=
    GetOutcome.keepsMode_of_none rfl hfetched rfl
  refine .eq_bind (hasserted _) (.ite (fun _ => .pure (hkept _)) fun _ => ?_)
  cases getKeyFailure with
  | none => exact .of_eq (hasserted _) (hkept _)
  | some callback =>
    refine .ite (fun _ => ?_) fun _ => .of_eq (hasserted _) (hkept _)
    exact keyFailed_keeps setEnv key (callback key) hfetched hudp rfl rfl

/-- One host, and no connection to it yet. -/
def oneConn (flags : Flags) (peer : Peer) : Client Peer where
  memc := { servers := [.ofServer (letterHost 'a')], flags := flags }
  conns := [{ net := peer }]

/-- A key is not there and its callback asks for a buffered store: the store is buffered, and the mode put back. -/
theorem getByKey_keeps_mode_buffered :
    Ensures (memcachedGetByKeyWith (peer fun _ => ascii "END\r\n") id (some fun _ => ⟨.buffered, [118], 0⟩)
      fnvHashes (fun _ => ⟨0, 0⟩) ⟨0, 0⟩ (fun _ ks => .ok ks) [] [107]) (oneConn {} {})
      fun got c' => got.nested = some .buffered ∧ got.KeepsMode (oneConn {} {}) c' := by
  have hnested : Ensures (memcachedGetByKeyWith (peer fun _ => ascii "END\r\n") id
      (some fun _ => ⟨.buffered, [118], 0⟩) fnvHashes (fun _ => ⟨0, 0⟩) ⟨0, 0⟩ (fun _ ks => .ok ks)
      [] [107]) (oneConn {} {}) fun got _ => got.nested = some .buffered := by decide +kernel
  have hkeeps := getByKey_keeps_mode_iff (peer fun _ => ascii "END\r\n") id fnvHashes
    (some fun _ => ⟨.buffered, [118], 0⟩) (fun _ => ⟨0, 0⟩) ⟨0, 0⟩ (fun _ ks => .ok ks) [] [107] (oneConn {} {})
    ⟨rfl, by simp [oneConn]⟩
  refine (hnested.and_always hkeeps).mono fun got c' h => ⟨h.1, h.2.mpr fun rc hrc => .inl ?_⟩
  rw [h.1, Option.some.injEq] at hrc
  exact hrc.symm

/-- A store that asks for no reply is not reported as buffered, and the mode stays on. A store that fails
leaves the number of the query one too high. -/
theorem getByKey_switches_mode :
    Ensures (memcachedGetByKeyWith (peer fun _ => ascii "END\r\n") id (some fun _ => ⟨.buffered, [118], 0⟩)
        fnvHashes (fun _ => ⟨0, 0⟩) ⟨0, 0⟩ (fun _ ks => .ok ks) [] [107])
        (oneConn { reply := false } {}) (fun got c' =>
          got.nested = some .success ∧ c'.memc.flags.bufferRequests = true) ∧
      Ensures (memcachedGetByKeyWith (peer fun _ => ascii "END\r\n") id (some fun _ => ⟨.success, [118], 0⟩)
        fnvHashes (fun _ => ⟨0, 0⟩) ⟨0, 0⟩ (fun _ ks => .ok ks) [] [107])
        (oneConn {} { sends := [.sent 100, .error .epipe] }) (fun got _ =>
          got.nested = some .connectionFailure ∧ got.asserted = false) := by
  constructor <;> decide +kernel

end LM
