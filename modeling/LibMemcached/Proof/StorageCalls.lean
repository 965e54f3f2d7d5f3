import LibMemcached.Framework.Trace
import LibMemcached.Proof.KeyTokens
import LibMemcached.Proof.Placing

/-!
# What a storage call that reports success has written

A storage call that returns `MEMCACHED_SUCCESS` or `MEMCACHED_BUFFERED` need not have placed the bytes of its
request in the stream of one connection. It has not where the string for an encrypted value could not be
allocated: `memcached_send` then returns the code of `initialize_query`. And it has not where an answer that a
purge read while the bytes were placed has closed the connection. Otherwise it has (`storage_call_places`).
-/

namespace LM

open Hashkit Memcached

variable {κ : Type} {K : Kernel κ} {H : Hashes} {env : Env} {groupKey : Bytes} {item : Item} {verb : Verb}
  {c d : Client κ} {rc : ReturnT} {c' : Client κ} {value : Bytes} {k : Nat} {flush : Bool} {grown : Prop}

/-! ## The steps of a storage call -/

/-- The pieces of the command that a storage call writes. -/
def storageCommand (memc : Memcached) (item : Item) (verb : Verb) (requestId : UInt32) : List Bytes :=
  if memc.flags.binaryProtocol then
    binaryStorage memc.keyNamespace item verb (verb.comCode memc.flags.reply) requestId
  else asciiStorage memc.keyNamespace item memc.flags.reply verb

/-- `memcached_vdo` writes the request of a storage call to the server the call was routed to. -/
def Requests (K : Kernel κ) (item : Item) (verb : Verb) (i : Issue κ) (c c' : Client κ) : Prop :=
  ∃ k conn value requestId flush rc, c.routed = [k] ∧ c.conns[k]? = some conn ∧
    c.memc.encrypted item.value = some value ∧
    i.vector = storageCommand c.memc { item with value := value } verb requestId ∧
    i.Of K (!c.memc.flags.reply) ⟨conn, c.toShared⟩ ∧
    onServer k (memcachedVdo K (!c.memc.flags.reply) i.vector flush) c = some (rc, c')

/-- What else a storage call does. -/
inductive Besides (K : Kernel κ) (H : Hashes) (env : Env) (groupKey key : Bytes) (c d : Client κ) : Prop where
  | begins {rc : ReturnT} (h : initializeQuery c = some (rc, d))
  | tests {rc : ReturnT} (h : onClient (fun memc => memc.keyTest key) c = some (rc, d))
  | routes {k : Nat} (h : serverKey H env groupKey c = some (k, d))
  | numbers {k : Nat} {requestId : UInt32} (h : onServer k initializeBinaryRequest c = some (requestId, d))
  | replicates {k : Nat} {vector : List Bytes} {rc : ReturnT}
    (h : onServer k (memcachedVdo K true vector false) c = some (rc, d))
  | uncounts {k : Nat} (h : onServer k responseDecrement c = some ((), d))
  | answers {k length : Nat} {rc : ReturnT} (h : onServer k (memcachedResponse K length) c = some (rc, d))

/-- The call went from `c` to `c'` and wrote the requests `issues`. -/
abbrev StorageRun (K : Kernel κ) (H : Hashes) (env : Env) (groupKey : Bytes) (item : Item) (verb : Verb) :
    Client κ → List (Issue κ) → Client κ → Prop :=
  Trace (Requests K item verb) (Besides K H env groupKey item.key)

/-- The code says that the request went out. -/
def ReturnT.reportsSent (rc : ReturnT) : Prop := rc = .success ∨ rc = .buffered

theorem not_reportsSent_of_isFatal (h : rc.isFatal = true) : ¬rc.reportsSent := by
  rintro (rfl | rfl) <;> exact absurd h (by decide)

theorem isSuccess_of_isFatal (h : rc.isFatal = true) : rc.isSuccess = false := by
  cases rc <;> revert h <;> decide

theorem ne_success_of_isFatal (h : rc.isFatal = true) : rc ≠ .success := by
  rintro rfl
  exact absurd h (by decide)

/-! ## Writing the request -/

/-- The request is written once, and it is placed just if no purge met a fatal answer. -/
def WritesRequest (K : Kernel κ) (H : Hashes) (env : Env) (groupKey : Bytes) (item : Item) (verb : Verb)
    (c c' : Client κ) : Prop :=
  ∃ i : Issue κ, StorageRun K H env groupKey item verb c [i] c' ∧ (i.Placed ↔ i.Clean)

theorem WritesRequest.besides (h : WritesRequest K H env groupKey item verb c d)
    (hsilent : Besides K H env groupKey item.key d c') : WritesRequest K H env groupKey item verb c c' := by
  obtain ⟨i, hrun, hiff⟩ := h
  have hlast : StorageRun K H env groupKey item verb d [] c' := .silent hsilent (.nil c')
  exact ⟨i, by simpa using hrun.append hlast, hiff⟩

theorem memcachedSendAscii_writes (hrouted : c.routed = [k])
    (hvalue : c.memc.encrypted item.value = some value) (htext : c.memc.flags.binaryProtocol = false) :
    Always (onServer k (memcachedSendAscii K { item with value := value } flush c.memc.flags.reply verb)) c
      fun rc c' => rc.reportsSent → WritesRequest K H env groupKey item verb c c' := by
  refine onServer_always fun conn hconn => .ite (fun _ => ?_) fun _ => ?_
  · exact .skip fun _ _ => .pure fun h => absurd h (not_reportsSent_of_isFatal rfl)
  refine .get_bind (Always.bind (Q := fun rc t => memcachedVdo K _ _ _ _ = some (rc, t)) (fun _ _ h => h)
    fun rc t hrun => ?_)
  rcases memcachedVdo_places rc t hrun with ⟨hfatal, -⟩ | ⟨i, hvector, hof, hiff⟩
  · simp only [isSuccess_of_isFatal hfatal, Bool.false_eq_true, if_false, if_neg (ne_success_of_isFatal hfatal)]
    have hno : ¬rc.reportsSent := not_reportsSent_of_isFatal hfatal
    refine .ite (fun _ => .pure fun h => absurd h hno) fun _ => ?_
    exact .ite (fun _ => .pure fun h => absurd h hno) fun _ => .pure fun h => absurd h hno
  · have hcommand : i.vector = storageCommand c.memc { item with value := value } verb 0 := by
      rw [hvector, storageCommand, htext]
      rfl
    have hvdo : onServer k (memcachedVdo K (!c.memc.flags.reply) i.vector flush) c = some (rc, c.put k t) := by
      rw [hvector]
      exact onServer_eq hconn hrun
    have hwritten : WritesRequest K H env groupKey item verb c (c.put k t) :=
      ⟨i, .step ⟨k, conn, value, 0, flush, rc, hrouted, hconn, hvalue, hcommand, hof, hvdo⟩ (.nil _), hiff⟩
    refine .ite (fun _ => .pure fun _ => hwritten) fun _ => .ite (fun _ => .pure fun _ => hwritten) fun _ => ?_
    refine .ite (fun _ => ?_) fun _ => .pure fun _ => hwritten
    refine Always.bind (Q := fun rc u => memcachedResponse K _ t = some (rc, u)) (fun _ _ h => h) fun rc u hread => ?_
    exact .pure fun _ => hwritten.besides (.answers (onServer_put hconn hread))

/-- The loop over the replicas writes no further request of the call. -/
theorem WritesRequest.replicate (h : WritesRequest K H env groupKey item verb c d) (vector : List Bytes) (n k : Nat) :
    Always (replicate K vector false n k) d fun _ e => WritesRequest K H env groupKey item verb c e := by
  induction n generalizing k d with
  | zero => exact .pure h
  | succ n ih =>
    refine .get_bind (Always.bind (Q := fun rc e => onServer _ (memcachedVdo K true vector false) d = some (rc, e))
      (fun _ _ h => h) fun rc e hvdo => ?_)
    have he : WritesRequest K H env groupKey item verb c e := h.besides (.replicates hvdo)
    have hdecrement : Always (if rc.isSuccess then onServer (nextServer d.memc.serverCount k) responseDecrement
        else pure ()) e fun _ f => WritesRequest K H env groupKey item verb c f :=
      .ite (fun _ _ f hrun => he.besides (.uncounts hrun)) fun _ => .pure he
    exact hdecrement.bind fun _ f hf => ih hf _

theorem initializeBinaryRequest_numbers (k : Nat) (c : Client κ) :
    Always (onServer k (initializeBinaryRequest (κ := κ))) c fun requestId d =>
      onServer k initializeBinaryRequest c = some (requestId, d) ∧ d.memc = c.memc ∧ d.routed = c.routed := by
  refine onServer_always fun conn hconn requestId t hrun => ⟨onServer_eq hconn hrun, ?_⟩
  cases hrun
  exact ⟨rfl, rfl⟩

theorem memcachedSendBinary_writes (hrouted : c.routed = [k])
    (hvalue : c.memc.encrypted item.value = some value) (hbinary : c.memc.flags.binaryProtocol = true) :
    Always (memcachedSendBinary K k { item with value := value } flush c.memc.flags.reply verb) c
      fun rc c' => rc.reportsSent → WritesRequest K H env groupKey item verb c c' := by
  refine .get_bind ((initializeBinaryRequest_numbers k c).bind fun requestId d ⟨hnumber, hmemc, hrouted'⟩ => ?_)
  rw [← hmemc] at hvalue hbinary ⊢
  have hvdo : Always (onServer k (memcachedVdo K (!d.memc.flags.reply) (binaryStorage d.memc.keyNamespace
      { item with value := value } verb (verb.comCode d.memc.flags.reply) requestId) flush)) d fun rc e =>
        (rc.isFatal = true ∧ e.memc.lastError = rc) ∨ WritesRequest K H env groupKey item verb c e := by
    refine onServer_always fun conn hconn rc t hrun => ?_
    refine (memcachedVdo_places rc t hrun).imp id fun ⟨i, hvector, hof, hiff⟩ => ?_
    have hcommand : i.vector = storageCommand d.memc { item with value := value } verb requestId := by
      rw [hvector, storageCommand, hbinary, if_pos rfl]
    have hwrite : onServer k (memcachedVdo K (!d.memc.flags.reply) i.vector flush) d = some (rc, d.put k t) := by
      rw [hvector]
      exact onServer_eq hconn hrun
    exact ⟨i, .silent (.numbers hnumber) (.step
      ⟨k, conn, value, requestId, flush, rc, hrouted'.trans hrouted, hconn, hvalue, hcommand, hof, hwrite⟩ (.nil _)), hiff⟩
  refine hvdo.bind fun rc e he => ?_
  rcases he with ⟨hfatal, hlast⟩ | hwritten
  · rw [if_pos (ne_success_of_isFatal hfatal)]
    refine .get_bind (.pure fun h => absurd h ?_)
    rw [hlast]
    exact not_reportsSent_of_isFatal hfatal
  · refine .ite (fun _ => .get_bind (.pure fun _ => hwritten)) fun _ => ?_
    have hreplicas : Always (if verb = .set then replicate K (binaryStorage d.memc.keyNamespace
        { item with value := value } verb .setq requestId) false d.memc.numberOfReplicas.toNat k else pure ()) e
        fun _ f => WritesRequest K H env groupKey item verb c f :=
      .ite (fun _ => hwritten.replicate _ _ _) fun _ => .pure hwritten
    refine hreplicas.bind fun _ f hf => .ite (fun _ => .pure fun _ => hf) fun _ => ?_
    refine .ite (fun _ => .pure fun _ => hf) fun _ rc' g hread _ => hf.besides (.answers hread)

/-! ## The whole call -/

theorem initializeQuery_code (c : Client κ) :
    Always initializeQuery c fun rc d => (rc = .noServers ∨ rc = .success) ∧ d.conns = c.conns ∧ d.routed = [] ∧
      d.memc.hashkit.key = c.memc.hashkit.key := by
  have hrc : c.memc.initializeQuery.1 = .noServers ∨ c.memc.initializeQuery.1 = .success := by
    by_cases h0 : c.memc.serverCount = 0
    · exact .inl (by rw [initializeQuery_none h0]; rfl)
    · exact .inr (by rw [initializeQuery_some h0])
  have hkey : c.memc.initializeQuery.2.hashkit.key = c.memc.hashkit.key := by
    rw [SameClient.initializeQuery c.memc]
  refine .onClient_bind (Always.bind (Q := fun _ d => d.conns = c.conns ∧ d.routed = [] ∧
    d.memc.hashkit.key = c.memc.hashkit.key) (.modify ⟨rfl, rfl, hkey⟩) fun _ d hd => .pure ⟨hrc, hd⟩)

theorem serverKey_appends (c : Client κ) :
    Always (serverKey H env groupKey) c fun k d => d.conns = c.conns ∧ d.routed = c.routed ++ [k] ∧
      d.memc.hashkit.key = c.memc.hashkit.key := by
  refine .onClient_bind ?_
  split
  · exact .failure
  · rename_i k hk
    refine Always.bind (Q := fun _ d => d.conns = c.conns ∧ d.routed = c.routed ++ [k] ∧
      d.memc.hashkit.key = c.memc.hashkit.key) (.modify ⟨rfl, rfl, ?_⟩) fun _ d hd => .pure hd
    show (c.memc.regenForAutoEject H env.now).hashkit.key = c.memc.hashkit.key
    rw [hashkit_regenForAutoEject]

/-- A key that does not pass is the last error. -/
theorem keyTest_lastError {memc : Memcached} {key : Bytes} (h : (memc.keyTest key).1.isFailed = true) :
    (memc.keyTest key).2.lastError = .badKeyProvided := by
  have hfatal : ReturnT.badKeyProvided.isFatal = true := rfl
  have hbad (message : String) : (memc.setError .badKeyProvided message).2.lastError = .badKeyProvided :=
    lastError_errorSet memc message hfatal
  unfold keyTest at h ⊢
  split at h
  · rename_i hlength
    rw [if_pos hlength]
    exact hbad _
  · rename_i hlength
    rw [if_neg hlength]
    split at h
    · rename_i hgraph
      rw [if_pos hgraph]
      exact hbad _
    · exact absurd h Bool.false_ne_true

/-- The end of a storage call, once its server is known. -/
theorem sendItem_writes (hrouted : c.routed = [k]) (hvalue : c.memc.encrypted item.value = some value) :
    Always (sendItem K k { item with value := value } verb) c fun rc c' =>
      rc.reportsSent → WritesRequest K H env groupKey item verb c c' := by
  refine .get_bind (.ite (fun hbinary => ?_) fun htext => ?_)
  · exact memcachedSendBinary_writes hrouted hvalue hbinary
  · exact memcachedSendAscii_writes hrouted hvalue (by simpa using htext)

/-- What is said of a call that reports success. -/
def StorageReport (K : Kernel κ) (H : Hashes) (env : Env) (groupKey : Bytes) (item : Item) (verb : Verb)
    (grown : Prop) (c c' : Client κ) : Prop :=
  ∃ issues : List (Issue κ), StorageRun K H env groupKey item verb c issues c' ∧
    ((∃ i ∈ issues, i.Placed) ↔ grown ∧ ∀ i ∈ issues, i.Clean)

theorem StorageReport.null (h : StorageRun K H env groupKey item verb c [] c') (hnull : ¬grown) :
    StorageReport K H env groupKey item verb grown c c' :=
  ⟨[], h, fun ⟨_, hmem, _⟩ => absurd hmem List.not_mem_nil, fun hg => absurd hg.1 hnull⟩

theorem StorageReport.written (h : StorageRun K H env groupKey item verb c [] d)
    (h' : WritesRequest K H env groupKey item verb d c') (hgrown : grown) :
    StorageReport K H env groupKey item verb grown c c' := by
  obtain ⟨i, hrun, hiff⟩ := h'
  refine ⟨[i], h.append hrun, ?_⟩
  simpa [hgrown] using hiff

/-- **A storage call that reports success has placed its request in the stream of a connection that was not
reset in between, unless the string for an encrypted value could not be allocated, or a purge met a fatal answer
while the bytes were placed.** -/
theorem storage_call_places (K : Kernel κ) (H : Hashes) (env : Env) (grows : Bool) (groupKey : Bytes)
    (item : Item) (verb : Verb) (c : Client κ) :
    Always (memcachedSendIn K grows H env groupKey item verb) c fun rc c' =>
      rc = .success ∨ rc = .buffered →
        ∃ issues : List (Issue κ), StorageRun K H env groupKey item verb c issues c' ∧
          ((∃ i ∈ issues, i.Placed) ↔
            (c.memc.hashkit.key.isSome = true → grows = true) ∧ ∀ i ∈ issues, i.Clean) := by
  change Always _ c fun (rc : ReturnT) c' => rc.reportsSent →
    StorageReport K H env groupKey item verb (c.memc.hashkit.key.isSome = true → grows = true) c c'
  unfold memcachedSendIn
  refine Always.bind (Q := fun rc d => initializeQuery c = some (rc, d)) (fun _ _ h => h) fun rc d hbegin => ?_
  obtain ⟨hrc, -, hrouted, hkey⟩ := initializeQuery_code c rc d hbegin
  refine .ite (fun hfailed => .pure fun h => ?_) fun hok => ?_
  · rcases h with rfl | rfl <;> exact absurd hfailed (by decide)
  obtain rfl : rc = .success := hrc.resolve_left (by rintro rfl; exact hok rfl)
  refine .onClient_bind (.ite (fun hfailed => .get_bind (.pure fun h => ?_)) fun _ => ?_)
  · rw [ReturnT.reportsSent, keyTest_lastError hfailed] at h
    exact absurd h (by decide)
  obtain ⟨e, he⟩ : ∃ e : Client κ, e = { d with memc := (d.memc.keyTest item.key).2 } := ⟨_, rfl⟩
  have htest : onClient (fun memc => memc.keyTest item.key) d = some ((d.memc.keyTest item.key).1, e) := by
    rw [he]
    rfl
  rw [← he]
  refine Always.bind (Q := fun k f => serverKey H env groupKey e = some (k, f)) (fun _ _ h => h) fun k f hroute => ?_
  obtain ⟨-, hrouted', hkey'⟩ := serverKey_appends e k f hroute
  have hprepared : StorageRun K H env groupKey item verb c [] f :=
    .silent (.begins hbegin) (.silent (.tests htest) (.silent (.routes hroute) (.nil f)))
  have hfkey : f.memc.hashkit.key = c.memc.hashkit.key := by
    rw [hkey', he, ← hkey, SameSettings.keyTest d.memc item.key]
  have hfrouted : f.routed = [k] := by
    rw [hrouted', he, hrouted, List.nil_append]
  refine .get_bind (.ite (fun _ => ?_) fun _ => .ite (fun hnull => .pure fun _ => ?_) fun hgrows => ?_)
  · exact .get_bind (.set_bind (.pure fun h => absurd h (not_reportsSent_of_isFatal rfl)))
  · rw [Bool.and_eq_true, Bool.not_eq_true', hfkey] at hnull
    exact .null hprepared fun hgrown => absurd (hgrown hnull.1) (by rw [hnull.2]; decide)
  have hgrown : c.memc.hashkit.key.isSome = true → grows = true := by
    rw [hfkey] at hgrows
    simpa using hgrows
  split
  · exact .failure
  · rename_i value hvalue
    exact (sendItem_writes hfrouted hvalue).mono fun rc c' h hrc => .written hprepared (h hrc) hgrown

/-- Three sets are buffered and the first is answered by an error. The purge in the third reads it, the connection
is closed, and the rest of the request is buffered for the next one. With an encoding key and no memory, a set
reports success and writes nothing. -/
theorem storage_call_loses :
    let kernel := answering 99 fun _ => ascii "SERVER_ERROR x\r\n"
    let servers := [Instance.ofServer (letterHost 'a')]
    let buffering : Client (List InByte) :=
      { memc := { servers := servers, flags.bufferRequests := true, ioMsgWatermark := 2 }, conns := [{ net := [] }] }
    let key : AesKey := ⟨fun _ => List.replicate 16 0, fun _ => List.replicate 16 0, fun _ => rfl, fun _ => rfl⟩
    let encrypting : Client (List InByte) :=
      { memc := { servers := servers, hashkit.key := some key }, conns := [{ net := [] }] }
    let set (grows : Bool) (letter : UInt8) (value : Bytes) :=
      memcachedSendIn kernel grows fnvHashes ⟨0, 0⟩ [letter] { key := [letter], value := value } .set
    Ensures (do
      let _ ← set true 97 []
      let _ ← set true 98 []
      set true 99 (List.replicate 9000 0)) buffering (fun rc c => rc = .buffered ∧
        ∀ conn ∈ c.conns, conn.valid = false ∧ conn.writeBuffer.length = 852) ∧
    Ensures (set false 97 [1]) encrypting fun rc c => rc = .success ∧ ∀ conn ∈ c.conns, conn.copied = [] := by
  decide +kernel

end LM
