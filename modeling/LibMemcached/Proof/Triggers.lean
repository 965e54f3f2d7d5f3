import LibMemcached.Proof.OwnBytes
import LibMemcached.Proof.Placing
import LibMemcached.Proof.Routing

/-!
# When a delete trigger is called

`memcached_delete_by_key` calls the trigger if the code of the answer is `MEMCACHED_DELETED`. The reader of
the text protocol has this code for the line `DELETED`, but the reader of the binary protocol answers a
deletion with `MEMCACHED_SUCCESS` (`memcachedResponse_deleted`), so that in the binary protocol the trigger is
never called.
-/

namespace LM

open List Memcached

variable {κ : Type} {K : Kernel κ} {bufferLength : Nat}

/-- The server reports that the item was deleted. -/
def reportsDeletion (binary : Bool) (answer : List InByte) : Bool :=
  if binary then
    let header := Header.ofBytes (bytesOf answer)
    header.magic == 0x81 && header.opcode == Opcode.delete.toByte && header.status == 0
  else starts "DELETED" (bytesOf answer)

/-- The trigger is called once, with the key, if the server reports the deletion, and otherwise not. -/
def Deletion.Triggers (binary : Bool) (key : Bytes) (d : Deletion) : Prop :=
  d.triggered = if d.answer.any (reportsDeletion binary) then [key] else []

instance (binary : Bool) (key : Bytes) (d : Deletion) : Decidable (d.Triggers binary key) := by
  unfold Deletion.Triggers
  infer_instance

/-! ## The line `DELETED` -/

theorem copyLine_complete {room : Nat} {cells : List InByte} (h : (copyLine room cells).2.2 = true) :
    ∃ c ∈ (copyLine room cells).1, c.byte = 10 := by
  induction room generalizing cells with
  | zero => cases h
  | succ room ih =>
    cases cells with
    | nil => cases h
    | cons c rest =>
      rw [copyLine] at h ⊢
      split at h
      · rename_i hc
        exact ⟨c, by simp [hc], hc⟩
      · rename_i hc
        obtain ⟨d, hd, h10⟩ := ih h
        exact ⟨d, by simp [hc, hd], h10⟩

theorem readlineLoop_line (size fuel : Nat) (acc : List InByte) (s : St κ) :
    Always (readlineLoop K size fuel acc) s fun r _ => r.1.isFailed = false → ∃ c ∈ r.2, c.byte = 10 := by
  induction fuel generalizing acc s with
  | zero => exact .failure
  | succ fuel ih =>
    refine .get_bind (.skip fun r t => .ite (fun hfail => .ite (fun hrc => ?_) fun _ => ?_) fun _ => ?_)
    · rw [hrc]
      exact .skip fun _ _ => (setError_keeps (K := K) _ _).always.bind fun rc u hu => .pure (by rw [hu.1]; nofun)
    · exact .pure fun h => absurd hfail (by simp [h])
    · refine .get_bind (.set_bind (.ite (fun _ => .pure nofun) fun _ => .ite (fun hdone => ?_) fun _ => ih _ _))
      refine .pure fun _ => ?_
      rw [takeLine] at hdone ⊢
      split at hdone
      · rename_i hfirst
        obtain ⟨c, hc, h10⟩ := any_eq_true.mp hfirst
        exact ⟨c, by simp [hc], by simpa using h10⟩
      · rename_i hfirst
        obtain ⟨c, hc, h10⟩ := copyLine_complete hdone
        rw [if_neg hfirst]
        exact ⟨c, mem_append_right _ hc, h10⟩

/-- What stands behind a line in the buffer makes no difference to its beginning. -/
theorem starts_overlay {word : String} (h : (10 : UInt8) ∉ ascii word) {line : List InByte}
    (hline : ∃ c ∈ line, c.byte = 10) (buffer : Bytes) :
    starts word (overlay (bytesOf line) buffer) = starts word (bytesOf line) := by
  obtain ⟨c, hc, h10⟩ := hline
  obtain ⟨before, after, rfl⟩ := append_of_mem hc
  simp only [overlay, bytesOf, map_append, map_cons, h10, append_assoc, cons_append]
  rw [starts_line word h, starts_line word h]

theorem textualDispatch_deleted {buffer : Bytes} (h : starts "DELETED" buffer = true) (totalRead : Nat)
    (result : Result) : textualDispatch K buffer totalRead result = pure ⟨.deleted, buffer, result⟩ := by
  obtain ⟨rest, rfl⟩ := isPrefixOf_iff_prefix.mp h
  rfl

/-! ## The codes of both protocols -/

/-- In the text protocol the code reports a deletion just if the line does, in the binary protocol never. -/
def Deleted (binary : Bool) (rc : ReturnT) (answer : List InByte) : Prop :=
  if binary then rc ≠ .deleted
  else rc.isFatal = false → (rc = .deleted ↔ starts "DELETED" (bytesOf answer) = true)

theorem textualReadOneResponse_deleted (hb : 0 < bufferLength) (buffer : Bytes) (result : Result) (s : St κ) :
    Always (textualReadOneResponse K bufferLength buffer result) s fun reply t =>
      Deleted false reply.rc t.lastReply := by
  have hread := (memcachedIoReadline_reads (K := K) hb s).always.and (readlineLoop_line bufferLength bufferLength [] s)
  refine hread.bind fun r t hr => .ite (fun hfail => .pure fun hfatal => ?_) fun hok => ?_
  · rcases hr.1.1 with h | h | h
    · rw [h.1] at hfail
      cases hfail
    · rw [show r.1 = _ from h] at hfatal
      cases hfatal
    · rw [show r.1.isFatal = true from ReturnT.isFatal_of_isIoFailure h] at hfatal
      cases hfatal
  have hline : starts "DELETED" (overlay (r.2.map (·.byte)) buffer) = starts "DELETED" (bytesOf r.2) :=
    starts_overlay (by decide) (hr.2 (by simpa using hok)) buffer
  refine Always.bind (Q := fun _ u => u.lastReply = r.2) (.modify rfl) fun _ u hu => ?_
  by_cases h : starts "DELETED" (overlay (r.2.map (·.byte)) buffer) = true
  · rw [textualDispatch_deleted h]
    exact .pure fun _ => ⟨fun _ => by rw [hu, ← hline, h], fun _ => rfl⟩
  · refine (textualDispatch_answering (K := K) _ _ _ u).always.mono fun reply v hv _ => ?_
    rw [(Prod.mk.inj hv.2.2.record).2, hu, ← hline]
    exact iff_of_false (fun hd => h (hv.1 hd)) h

theorem readOneResponse_deleted (hb : 0 < bufferLength) {buffer : Bytes} {result : Result} (s : St κ) :
    Always (readOneResponse K bufferLength buffer result) s fun reply t =>
      Deleted s.memc.flags.binaryProtocol reply.rc t.lastReply := by
  refine Always.bind (Q := fun _ t => t.memc = s.memc) (.modify rfl) fun _ t ht => .get_bind ?_
  rw [← ht]
  refine Always.bind (Q := fun reply u => Deleted t.memc.flags.binaryProtocol reply.rc u.lastReply) ?_
    fun reply u hu => ?_
  · cases t.memc.flags.binaryProtocol with
    | true => exact (binaryReadLoop_reads _ (Nat.lt_succ_self _)).always.mono fun _ _ h => h.1
    | false => exact textualReadOneResponse_deleted hb buffer result t
  · exact Always.bind (Q := fun _ v => v.lastReply = u.lastReply) (.ite (fun _ => .modify rfl) fun _ => .pure rfl)
      fun _ v hv => .pure (hv ▸ hu)

theorem memcachedResponse_deleted (hb : 0 < bufferLength) {s : St κ} (hs : s.AtRest) :
    Always (memcachedResponse K bufferLength) s fun rc t =>
      ∃ answer, t.answer = some answer ∧ Deleted s.memc.flags.binaryProtocol rc answer := by
  have hwrite : Calls (if s.memc.flags.noBlock then memcachedIoWrite K [] true else pure true) s :=
    .ite (fun _ => memcachedIoWrite_calls) fun _ => .pure
  refine .get_bind ((hwrite hs).bind fun _ t ht => .get_bind ?_)
  refine Always.bind (Q := fun _ u => Kept t u)
    (Calls.ite (fun _ => junkLoop_calls _ _ _ _) (fun _ => .pure) (ht.atRest hs)) fun junk u hu => ?_
  have hflags : u.memc.flags = s.memc.flags := by rw [hu.memc, ht.memc]
  rw [← hflags]
  refine Always.bind (Q := fun reply v => Deleted u.memc.flags.binaryProtocol reply.rc v.lastReply)
    (.ite (fun hf => .pure ?_) fun _ => readOneResponse_deleted hb u) fun reply v hv => ?_
  · -- an earlier answer that could not be read ends the call
    unfold Deleted
    split
    · exact fun h => absurd hf (by rw [show junk.rc = _ from h]; decide)
    · exact fun h => absurd hf (by simp [h])
  · exact Always.bind (Q := fun _ w => w.answer = some v.lastReply) (.modify rfl) fun _ w hw => .pure ⟨_, hw, hv⟩

/-! ## The call -/

/-- The trigger is called as it should be just if the answer is no packet that reports the deletion. -/
def Deletion.Judged (binary : Bool) (key : Bytes) (d : Deletion) : Prop :=
  d.Triggers binary key ↔ ¬(binary = true ∧ d.answer.any (reportsDeletion true) = true)

theorem Deletion.judged_none (binary : Bool) (key : Bytes) (rc : ReturnT) :
    Deletion.Judged binary key ⟨rc, [], none⟩ := iff_of_true rfl fun h => Bool.noConfusion h.2

theorem Deletion.judged_refusal (binary : Bool) (key : Bytes) (message : String) (c : Client κ) :
    Always (do
      let rc ← onClient fun memc => memc.setError .invalidArguments message
      return (⟨rc, [], none⟩ : Deletion)) c fun d _ => d.Judged binary key :=
  .skip fun rc _ => .pure (judged_none binary key rc)

theorem Deletion.judged_answer {binary : Bool} {rc : ReturnT} {answer : List InByte} (h : Deleted binary rc answer)
    (key : Bytes) : Deletion.Judged binary key
      (if rc = .deleted then ⟨.success, [key], if rc.isFatal then none else some answer⟩
      else ⟨rc, [], if rc.isFatal then none else some answer⟩) := by
  by_cases hf : rc.isFatal = true
  · rw [if_neg (by rintro rfl; cases hf), if_pos hf]
    exact judged_none binary key rc
  simp only [hf]
  cases binary with
  | true =>
    rw [if_neg h]
    cases hr : reportsDeletion true answer <;> simp [Judged, Triggers, hr]
  | false =>
    have hiff := h (by simpa using hf)
    by_cases hd : rc = .deleted
    · simp [Judged, Triggers, reportsDeletion, hd, hiff.mp hd]
    · simp [Judged, Triggers, reportsDeletion, hd, mt hiff.mpr hd]

/-- The trigger is called as it should be, unless a packet of the binary protocol reports the deletion. -/
theorem delete_triggers_iff (K : Kernel κ) (H : Hashkit.Hashes) (env : Env) (groupKey key : Bytes)
    (expiration : Int) {c c' : Client κ} (hc : c.AtRest) {d : Deletion}
    (hrun : memcachedDeleteTriggering K H env groupKey key expiration c = some (d, c')) :
    d.Triggers c.memc.flags.binaryProtocol key ↔
      ¬(c.memc.flags.binaryProtocol = true ∧ d.answer.any (reportsDeletion true) = true) := by
  suffices h : Always (memcachedDeleteTriggering K H env groupKey key expiration) c fun d _ =>
      d.Judged c.memc.flags.binaryProtocol key from h d c' hrun
  have silent (rc : ReturnT) := Deletion.judged_none c.memc.flags.binaryProtocol key rc
  refine Always.bind (initializeQuery_opened hc) fun rc e he => .ite (fun _ => .pure (silent rc)) fun _ => ?_
  refine .onClient_bind (.ite (fun _ => .skip fun rc _ => .pure (silent rc)) fun _ => ?_)
  have hopened := he.1.settings (SameSettings.keyTest e.memc key)
  refine .ite (fun _ => Deletion.judged_refusal _ _ _ _) fun _ => ?_
  have hroutes (e : Client κ) : Routes H (fun _ => env) [groupKey] (serverKey H env groupKey) e :=
    serverKey_routes 0 groupKey
  refine (hroutes _ hopened.atRest).bind fun k f hf => .get_bind ?_
  refine .ite (fun _ => Deletion.judged_refusal _ _ _ _) fun _ => ?_
  refine .ite (fun _ => Deletion.judged_refusal _ _ _ _) fun _ => ?_
  have hsend : Stays (if f.memc.flags.binaryProtocol then binaryDelete K k key true false
      else onServer k (asciiDelete K key true false)) f :=
    .ite (fun _ => binaryDelete_stays _ _ _ _) fun _ => onServer_stays fun _ => asciiDelete_calls _ _ _
  refine (hsend hf.atRest).bind fun rc g hg => .ite (fun _ => .pure (silent rc)) fun _ => ?_
  have hflags : g.memc.flags = c.memc.flags := by
    rw [hg.memc]
    exact hf.flags.trans (by rw [hopened.memc])
  rw [← hflags]
  refine Always.bind (Q := fun rc g' => ∃ answer, g'.answer = some answer ∧
    Deleted g.memc.flags.binaryProtocol rc answer) (onServer_always fun conn hk => ?_) fun rc g' hg' => .get_bind ?_
  · have hs : St.AtRest ⟨conn, g.toShared⟩ :=
      ⟨hg.atRest.isPurging, hg.atRest.writeBuffer conn (mem_of_getElem? hk)⟩
    exact memcachedResponse_deleted (by decide) hs
  · obtain ⟨answer, hanswer, hdeleted⟩ := hg'
    rw [hanswer]
    exact .pure (Deletion.judged_answer hdeleted key)

/-- A server that deletes what it is asked to delete, in either protocol. -/
def deleting (r : Request) : Bytes :=
  if r.bytes.head? = some 0x80 then [0x81, 0x04] ++ List.replicate 22 0 else ascii "DELETED\r\n"

/-- In the text protocol the trigger is called. -/
theorem delete_triggers_iff_text :
    Ensures (memcachedDeleteTriggering (peer deleting) fnvHashes ⟨0, 0⟩ [98] [98] 0) twoConns
      fun d _ => d.triggered = [[98]] ∧ d.Triggers false [98] := by
  obtain ⟨d, c', hrun, hd⟩ : Ensures
      (memcachedDeleteTriggering (peer deleting) fnvHashes ⟨0, 0⟩ [98] [98] 0) twoConns
      fun d _ => d.triggered = [[98]] := by decide +kernel
  have hiff := delete_triggers_iff (peer deleting) fnvHashes ⟨0, 0⟩ [98] [98] 0
    ⟨rfl, by simp [twoConns]⟩ hrun
  exact ⟨d, c', hrun, hd, hiff.mpr (by simp [twoConns])⟩

/-- In the binary protocol the server deletes the item, and the trigger is not called. -/
theorem delete_trigger_not_called :
    Ensures (memcachedDeleteTriggering (peer deleting) fnvHashes ⟨0, 0⟩ [98] [98] 0)
      { twoConns with memc.flags.binaryProtocol := true } fun d _ =>
        d.answer.any (reportsDeletion true) = true ∧ d.triggered = [] ∧ ¬d.Triggers true [98] := by
  decide +kernel

end LM
