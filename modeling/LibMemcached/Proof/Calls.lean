import LibMemcached.Impl.Get
import LibMemcached.Proof.Issue

/-!
# What a call keeps

Whatever the network does, a function of one server changes nothing of the client but its errors, its
result and the connection (`Kept`), and a call changes the settings only where it rebuilds the
continuum. Every call first tests its arguments, then chooses a server, and touches no connection
before: `Called` says so for each of them.
-/

namespace LM

open List

variable {κ α β : Type} {K : Kernel κ} {s s' : St κ} {k : Nat} {a : α} {m : Act κ α} {conn : Conn κ}
  {t : St κ} (rc : ReturnT) (bufferLength : Nat) (key : Bytes) {withFlush : Bool} {reply : Bool}

/-! ## On one server -/

/-- No purge is going on, and the write buffer holds. -/
structure St.AtRest (s : St κ) : Prop where
  isPurging : s.isPurging = false
  writeBuffer : s.writeBuffer.length ≤ maxBuffer

theorem Kept.atRest (h : Kept s s') (hs : s.AtRest) : s'.AtRest :=
  ⟨h.isPurging.trans hs.isPurging, h.writeBuffer hs.writeBuffer⟩

theorem Reads.kept (h : Reads K s s') : Kept s s' := h.writes.kept

/-- Run at rest, `m` keeps what a call keeps. -/
def Calls (m : Act κ α) (s : St κ) : Prop := s.AtRest → Always m s fun _ s' => Kept s s'

namespace Calls

variable {m m' : Act κ α} {f : α → Act κ β}

theorem pure : Calls (pure a) s := fun _ => .pure .rfl

theorem bind (h : Calls m s) (hf : ∀ a t, Kept s t → Calls (f a) t) : Calls (m >>= f) s := fun hs =>
  (h hs).bind fun a t ht => (hf a t ht (ht.atRest hs)).mono fun _ _ hu => ht.trans hu

theorem get_bind {f : St κ → Act κ α} (h : Calls (f s) s) : Calls (get >>= f) s := h

theorem modify {f : St κ → St κ} (h : Kept s (f s)) : Calls (modify f) s := fun _ => .modify h

theorem set_bind {f : PUnit → Act κ α} (ht : Kept s t) (h : Calls (f ⟨⟩) t) : Calls (set t >>= f) s :=
  fun hs => (h (ht.atRest hs)).mono fun _ _ hu => ht.trans hu

theorem ite {c : Prop} [Decidable c] (ht : c → Calls m s) (hf : ¬c → Calls m' s) :
    Calls (if c then m else m') s := fun hs =>
  .ite (fun hc => ht hc hs) fun hc => hf hc hs

theorem of_keeps {P : α → Prop} (h : Keeps (Hears K) P m) : Calls m s := fun _ =>
  ((h s).mono fun _ _ ht => ht.2.kept).always

end Calls

theorem Kept.errorSet (message : String) :
    Kept s { s with memc := s.memc.errorSet rc message } :=
  ⟨.errorSet _ _ _, Eq.refl _, prefix_rfl, id⟩

theorem setErrorText_calls {message : String} : Calls (setErrorText rc message) s :=
  .bind (.modify (.errorSet rc message)) fun _ _ _ => .pure

theorem setError_calls : Calls (setError rc) s := by
  refine .bind (.modify ?_) fun _ _ _ => .pure
  split
  · exact .errorSet rc ""
  · exact .rfl

theorem closeSocket_calls : Calls (closeSocket K) s := .of_keeps closeSocket_keeps

theorem responseIncrement_calls : Calls responseIncrement s :=
  .modify ⟨.rfl, rfl, prefix_rfl, id⟩

theorem responseDecrement_calls : Calls responseDecrement s :=
  .modify ⟨.rfl, rfl, prefix_rfl, id⟩

theorem responseReset_calls : Calls responseReset s :=
  .modify ⟨.rfl, rfl, prefix_rfl, id⟩

theorem initializeBinaryRequest_calls : Calls initializeBinaryRequest s :=
  .bind (.modify ⟨.rfl, rfl, prefix_rfl, id⟩) fun _ _ _ => .get_bind .pure

theorem memcachedConnect_calls : Calls (memcachedConnect K) s := by
  refine .get_bind (.ite (fun _ => .pure) fun _ => ?_)
  split
  · exact .set_bind ⟨.rfl, rfl, prefix_rfl, id⟩ .pure
  · exact .set_bind ⟨.rfl, rfl, prefix_rfl, id⟩ (setErrorText_calls _)

theorem memcachedIoWrite_calls {cells : List OutByte} : Calls (memcachedIoWrite K cells withFlush) s := fun hs =>
  ((memcachedIoWrite_writes cells withFlush hs.isPurging False.elim hs.writeBuffer).mono
    fun _ _ h => h.2.kept).always

theorem memcachedIoWritev_calls {vector : List (List OutByte)} :
    Calls (memcachedIoWritev K vector withFlush) s := fun hs =>
  ((memcachedIoWritev_writes vector withFlush hs.isPurging False.elim hs.writeBuffer).mono
    fun _ _ h => h.2.kept).always

theorem memcachedVdo_calls (quiet : Bool) (vector : List Bytes) (withFlush : Bool) :
    Calls (memcachedVdo K quiet vector withFlush) s := by
  refine memcachedConnect_calls.bind fun rc t _ => .ite (fun _ => .pure) fun _ => ?_
  refine .get_bind (.set_bind ⟨.rfl, rfl, prefix_rfl, id⟩ ?_)
  refine memcachedIoWritev_calls.bind fun sent u _ => .ite (fun _ => ?_) fun _ => ?_
  · exact .get_bind (.bind (.ite (fun _ => responseIncrement_calls) fun _ => .pure) fun _ _ _ => .pure)
  · refine .get_bind (.bind (.ite (fun _ => setError_calls _) fun _ => .pure) fun _ _ _ => ?_)
    exact closeSocket_calls.bind fun _ _ _ => .pure

/-- In the text protocol there is no reading a line into a buffer of length zero. -/
theorem readOneResponse_calls (buffer : Bytes) (result : Result) :
    Calls (readOneResponse K bufferLength buffer result) s := by
  intro hs
  by_cases hb : s.memc.flags.binaryProtocol = true ∨ 0 < bufferLength
  · exact ((readOneResponse_reads buffer result hb).mono fun _ _ h => h.2.2.2.kept).always
  · obtain ⟨htext, hzero⟩ := not_or.mp hb
    obtain rfl : bufferLength = 0 := by omega
    refine (Always.modify (Q := fun _ t => t.memc = s.memc) rfl).bind fun _ t ht => .get_bind ?_
    refine Always.bind (Q := fun _ _ => False) ?_ fun _ _ => False.elim
    rw [if_neg (by rw [ht]; exact htext)]
    exact (Always.failure (Q := fun _ _ => False)).bind fun _ _ => False.elim

theorem junkLoop_calls (bufferLength fuel : Nat) (buffer : Bytes) (result : Result) :
    Calls (junkLoop K bufferLength fuel buffer result) s := by
  induction fuel generalizing buffer result s with
  | zero => exact fun _ => .failure
  | succ fuel ih =>
    refine .get_bind (.ite (fun _ => .pure) fun _ => ?_)
    exact (readOneResponse_calls _ _ _).bind fun reply t _ => .ite (fun _ => .pure) fun _ => ih _ _

theorem memcachedResponse_calls : Calls (memcachedResponse K bufferLength) s := by
  refine .get_bind (.bind (.ite (fun _ => memcachedIoWrite_calls) fun _ => .pure) fun _ t _ => ?_)
  refine .get_bind (.bind (.ite (fun _ => junkLoop_calls _ _ _ _) fun _ => .pure) fun junk u _ => ?_)
  refine .bind (.ite (fun _ => .pure) fun _ => readOneResponse_calls _ _ _) fun _ _ _ => ?_
  exact .bind (.modify ⟨.rfl, rfl, prefix_rfl, id⟩) fun _ _ _ => .pure

/-! ## The commands, on one server -/

theorem memcachedSendAscii_calls {item : Item} {flush : Bool} {verb : Verb} :
    Calls (memcachedSendAscii K item flush reply verb) s := by
  refine .ite (fun _ => setErrorText_calls _) fun _ => .get_bind ?_
  refine (memcachedVdo_calls _ _ _).bind fun rc t _ => .ite (fun _ => .pure) fun _ => ?_
  refine .ite (fun _ => .pure) fun _ => .ite (fun _ => ?_) fun _ => .pure
  exact (memcachedResponse_calls _).bind fun _ _ _ => .pure

theorem asciiDelete_calls (key : Bytes) (reply isBuffering : Bool) :
    Calls (asciiDelete K key reply isBuffering) s :=
  .get_bind (memcachedVdo_calls _ _ _)

theorem textIncrDecr_calls {isIncr : Bool} {key : Bytes} {offset : UInt64} :
    Calls (textIncrDecr K isIncr key offset reply) s :=
  .get_bind (memcachedVdo_calls _ _ _)

theorem binaryIncrDecr_calls {isIncr : Bool} {key : Bytes} {offset initial : UInt64}
    {expiration : UInt32} : Calls (binaryIncrDecr K isIncr key offset initial expiration reply) s :=
  initializeBinaryRequest_calls.bind fun _ _ _ => .get_bind (memcachedVdo_calls _ _ _)

theorem autoResponse_calls {rc : ReturnT} : Calls (autoResponse K reply rc) s := by
  refine .ite (fun _ => .pure) fun _ => .bind (.ite (fun _ => ?_) fun _ => .pure) fun _ _ _ => ?_
  · exact memcachedResponse_calls _
  · exact .get_bind .pure

theorem touchOn_calls {expiration : Int} : Calls (touchOn K key expiration) s := by
  have hfailed {rc : ReturnT} {t : St κ} :
      Calls (if rc.isFailed then setError .writeFailure else return rc) t :=
    .ite (fun _ => setError_calls _) fun _ => .pure
  have hsent : Calls (if s.memc.flags.binaryProtocol then binaryTouch K key expiration
      else asciiTouch K key expiration) s := by
    refine .ite (fun _ => ?_) fun _ => ?_
    · exact initializeBinaryRequest_calls.bind fun _ _ _ =>
        .get_bind ((memcachedVdo_calls _ _ _).bind fun _ _ _ => hfailed)
    · exact .get_bind ((memcachedVdo_calls _ _ _).bind fun _ _ _ => hfailed)
  refine .get_bind (hsent.bind fun rc t _ => .ite (fun _ => setErrorText_calls _) fun _ => ?_)
  refine (memcachedResponse_calls _).bind fun rc t _ => ?_
  exact .ite (fun _ => .pure) fun _ => setErrorText_calls _

theorem asciiExist_calls : Calls (asciiExist K key) s := by
  refine .get_bind ((memcachedVdo_calls _ _ _).bind fun rc t _ => .ite (fun _ => .pure) fun _ => ?_)
  exact (memcachedResponse_calls _).bind fun _ _ _ => .pure

theorem binaryExist_calls : Calls (binaryExist K key) s := by
  refine initializeBinaryRequest_calls.bind fun _ _ _ => .get_bind ?_
  refine (memcachedVdo_calls _ _ _).bind fun rc _ _ => .ite (fun _ => .pure) fun _ => ?_
  exact (memcachedResponse_calls _).bind fun _ _ _ => .pure

/-! ## Getting, on one server -/

theorem drainResponses_calls {fuel : Nat} : Calls (drainResponses K fuel) s := by
  induction fuel generalizing s with
  | zero => exact fun _ => .failure
  | succ fuel ih =>
    refine .get_bind (.ite (fun _ => .pure) fun _ => ?_)
    exact (memcachedResponse_calls _).bind fun _ _ _ => ih

theorem clearQueue_calls : Calls (clearQueue K) s := by
  refine .get_bind (.ite (fun _ => .pure) fun _ => .bind ?_ fun _ _ _ => .get_bind ?_)
  · exact .ite (fun _ => memcachedIoWrite_calls) fun _ => .pure
  · exact drainResponses_calls

theorem startGet_calls {getCommand : Bytes} {m : Mget} : Calls (startGet K getCommand m) s := by
  refine .get_bind (.ite (fun _ => ?_) fun _ => .pure)
  refine memcachedConnect_calls.bind fun rc t _ => .ite (fun _ => ?_) fun _ => ?_
  · exact (setError_calls _).bind fun _ _ _ => .pure
  · refine memcachedIoWritev_calls.bind fun _ _ _ => .ite (fun _ => ?_) fun _ => .pure
    exact responseIncrement_calls.bind fun _ _ _ => .pure

theorem addKey_calls (getCommand key : Bytes) (m : Mget) : Calls (addKey K getCommand key m) s := by
  refine startGet_calls.bind fun r t _ => .ite (fun _ => .get_bind ?_) fun _ => .pure
  refine memcachedIoWritev_calls.bind fun _ _ _ => .ite (fun _ => .pure) fun _ => ?_
  exact responseReset_calls.bind fun _ _ _ => .pure

theorem endGet_calls {done : Bool × Bool} : Calls (endGet K done) s := by
  refine .get_bind (.ite (fun _ => .pure) fun _ => .set_bind ⟨.rfl, rfl, prefix_rfl, id⟩ ?_)
  exact memcachedIoWrite_calls.bind fun _ _ _ => .ite (fun _ => .pure) fun _ => .pure

theorem flushBuffer_calls (ret : ReturnT × Bool) : Calls (flushBuffer K ret) s := by
  refine .get_bind (.ite (fun _ => .pure) fun _ => .bind ?_ fun rc t _ => .ite (fun _ => .pure) fun _ => ?_)
  · exact .ite (fun _ => memcachedConnect_calls) fun _ => .pure
  · exact memcachedIoWrite_calls.bind fun _ _ _ => .ite (fun _ => .pure) fun _ => .pure

theorem writeRequest_calls {quiet : Bool} {vector : List Bytes} :
    Calls (writeRequest K quiet vector withFlush) s :=
  .get_bind (.set_bind ⟨.rfl, rfl, prefix_rfl, id⟩ memcachedIoWritev_calls)

theorem binaryAddKey_calls (mgetMode flush : Bool) (key : Bytes) (rc : ReturnT) :
    Calls (binaryAddKey K mgetMode flush key rc) s := by
  refine .get_bind (.bind (.ite (fun _ => memcachedConnect_calls) fun _ => .pure) fun rc t _ => ?_)
  refine .ite (fun _ => .pure) fun _ => initializeBinaryRequest_calls.bind fun _ _ _ => ?_
  refine writeRequest_calls.bind fun _ _ _ => .ite (fun _ => ?_) fun _ => ?_
  · exact responseReset_calls.bind fun _ _ _ => responseIncrement_calls.bind fun _ _ _ => .pure
  · exact responseReset_calls.bind fun _ _ _ => .pure

theorem sendNoop_calls : Calls (sendNoop K rc) s := by
  refine .get_bind (.ite (fun _ => .pure) fun _ => initializeBinaryRequest_calls.bind fun _ _ _ => ?_)
  refine .bind ?_ fun sent _ _ => .ite (fun _ => .pure) fun _ => closeSocket_calls.bind fun _ _ _ => .pure
  exact memcachedIoWrite_calls.bind fun _ _ _ =>
    .ite (fun _ => writeRequest_calls) fun _ => .pure

theorem responseInto_calls (result : Result) : Calls (responseInto K bufferLength result) s := by
  refine .get_bind (.set_bind ⟨.rfl, rfl, prefix_rfl, id⟩ ?_)
  refine (memcachedResponse_calls _).bind fun rc t _ => .get_bind ?_
  exact .set_bind ⟨.rfl, rfl, prefix_rfl, id⟩ .pure

/-! ## On the client -/

/-- No purge is going on, and the write buffers hold. -/
structure Client.AtRest (c : Client κ) : Prop where
  isPurging : c.isPurging = false
  writeBuffer : ∀ conn ∈ c.conns, conn.writeBuffer.length ≤ maxBuffer

/-- What functions of the servers keep of the client. -/
structure Client.Stays (c c' : Client κ) : Prop where
  memc : SameSettings c.memc c'.memc
  routed : c'.routed = c.routed
  atRest : c'.AtRest

/-- Run at rest, `m` keeps the client as it is. -/
def Stays (m : Query κ α) (c : Client κ) : Prop := c.AtRest → Always m c fun _ c' => c.Stays c'

variable {c c' : Client κ}

namespace Stays

variable {m m' : Query κ α} {f : α → Query κ β}

theorem pure : Stays (pure a) c := fun hc => .pure ⟨.rfl, rfl, hc⟩

theorem bind (h : Stays m c) (hf : ∀ a d, c.Stays d → Stays (f a) d) : Stays (m >>= f) c := fun hc =>
  (h hc).bind fun a d hd => (hf a d hd hd.atRest).mono fun _ _ he =>
    ⟨hd.memc.trans he.memc, he.routed.trans hd.routed, he.atRest⟩

theorem get_bind {f : Client κ → Query κ α} (h : Stays (f c) c) : Stays (get >>= f) c := h

theorem ite {p : Prop} [Decidable p] (ht : p → Stays m c) (hf : ¬p → Stays m' c) :
    Stays (if p then m else m') c := fun hc =>
  .ite (fun hp => ht hp hc) fun hp => hf hp hc

end Stays

/-- The client after a run on its server `k`. -/
def Client.put (c : Client κ) (k : Nat) (s : St κ) : Client κ :=
  { c with toShared := s.toShared, conns := c.conns.set k s.toConn }

theorem Client.put_self (hconn : c.conns[k]? = some conn) (s : St κ) :
    (c.put k s).conns[k]? = some s.toConn :=
  List.getElem?_set_self (List.getElem?_eq_some_iff.mp hconn).1

theorem Client.put_other {j : Nat} (h : k ≠ j) (s : St κ) : (c.put k s).conns[j]? = c.conns[j]? :=
  List.getElem?_set_ne h

theorem onServer_eq (hconn : c.conns[k]? = some conn) (hrun : m ⟨conn, c.toShared⟩ = some (a, s)) :
    onServer k m c = some (a, c.put k s) := by
  simp [onServer, hconn, hrun, Client.put]

theorem onServer_put (hconn : c.conns[k]? = some conn) (hrun : m s = some (a, t)) :
    onServer k m (c.put k s) = some (a, c.put k t) := by
  rw [onServer_eq (Client.put_self hconn s) hrun]
  simp [Client.put]

theorem onServer_always {Q : α → Client κ → Prop}
    (h : ∀ conn, c.conns[k]? = some conn → Always m ⟨conn, c.toShared⟩ fun a s => Q a (c.put k s)) :
    Always (onServer k m) c Q := by
  intro a c' hrun
  cases hk : c.conns[k]? with
  | none => simp [onServer, hk] at hrun
  | some conn =>
    cases hm : m ⟨conn, c.toShared⟩ with
    | none => simp [onServer, hk, hm] at hrun
    | some r =>
      simp only [onServer, hk, hm, Option.bind_eq_bind, Option.bind_some, Option.pure_def,
        Option.some.injEq, Prod.mk.injEq] at hrun
      obtain ⟨rfl, rfl⟩ := hrun
      exact h conn hk r.1 r.2 hm

theorem onServer_stays (h : ∀ s, Calls m s) : Stays (onServer k m) c := by
  refine fun hc => onServer_always fun conn hk a t hm => ?_
  have hs : St.AtRest ⟨conn, c.toShared⟩ :=
    ⟨hc.isPurging, hc.writeBuffer conn (mem_of_getElem? hk)⟩
  have hkept := h _ hs a t hm
  refine ⟨hkept.memc, rfl, (hkept.atRest hs).isPurging, fun conn' hmem => ?_⟩
  rcases mem_or_eq_of_mem_set hmem with hmem | rfl
  · exact hc.writeBuffer conn' hmem
  · exact (hkept.atRest hs).writeBuffer

theorem onClient_stays {f : Memcached → α × Memcached} (h : SameSettings c.memc (f c.memc).2) :
    Stays (onClient f) c := fun hc =>
  .get_bind (.set_bind (.pure ⟨h, rfl, hc.isPurging, hc.writeBuffer⟩))

theorem SameSettings.setError (memc : Memcached) (rc : ReturnT) (message : String) :
    SameSettings memc (memc.setError rc message).2 := by
  simp only [Memcached.setError]
  split
  · exact .errorSet _ _ _
  · exact .rfl

theorem SameSettings.keyTest (memc : Memcached) (key : Bytes) : SameSettings memc (memc.keyTest key).2 := by
  unfold Memcached.keyTest
  split
  · exact .setError _ _ _
  · split
    · exact .setError _ _ _
    · exact .rfl

theorem lastError_stays : Stays lastError c := .get_bind .pure

theorem servers_stays : Stays servers c := .get_bind .pure

theorem foldServers_stays {f : α → Act κ α} (h : ∀ a s, Calls (f a) s) (ks : List Nat) (a : α) :
    Stays (foldServers f ks a) c := by
  induction ks generalizing a c with
  | nil => exact .pure
  | cons k ks ih => exact (onServer_stays (h a)).bind fun _ _ _ => ih _

theorem replicate_stays (vector : List Bytes) (flush : Bool) (n k : Nat) :
    Stays (replicate K vector flush n k) c := by
  induction n generalizing k c with
  | zero => exact .pure
  | succ n ih =>
    refine .get_bind ((onServer_stays fun _ => memcachedVdo_calls _ _ _).bind fun rc _ _ => .bind ?_ fun _ _ _ => ih _)
    exact .ite (fun _ => onServer_stays fun _ => responseDecrement_calls) fun _ => .pure

theorem memcachedSendBinary_stays (k : Nat) (item : Item) {flush : Bool} (verb : Verb) :
    Stays (memcachedSendBinary K k item flush reply verb) c := by
  refine .get_bind ((onServer_stays fun _ => initializeBinaryRequest_calls).bind fun _ _ _ => ?_)
  refine (onServer_stays fun _ => memcachedVdo_calls _ _ _).bind fun rc _ _ => ?_
  refine .ite (fun _ => lastError_stays) fun _ => .bind ?_ fun _ _ _ => ?_
  · exact .ite (fun _ => replicate_stays _ _ _ _) fun _ => .pure
  · refine .ite (fun _ => .pure) fun _ => .ite (fun _ => .pure) fun _ => ?_
    exact onServer_stays fun _ => memcachedResponse_calls _

theorem binaryDelete_stays (k : Nat) (key : Bytes) (reply isBuffering : Bool) :
    Stays (binaryDelete K k key reply isBuffering) c := by
  refine .get_bind ((onServer_stays fun _ => initializeBinaryRequest_calls).bind fun _ _ _ => ?_)
  refine (onServer_stays fun _ => memcachedVdo_calls _ _ _).bind fun rc _ _ => ?_
  exact (replicate_stays _ _ _ _).bind fun _ _ _ => .pure

theorem memcachedFlushBuffers_stays : Stays (memcachedFlushBuffers K) c :=
  servers_stays.bind fun _ _ _ =>
    (foldServers_stays (fun a _ => flushBuffer_calls a) _ _).bind fun _ _ _ => .pure

end LM
