import LibMemcached.Impl.Peer
import LibMemcached.Proof.Stream

/-!
# Reading does not depend on how the network cuts the stream

Two connections that have the same bytes still to read (`SameStream`), over two kernels that deliver
them in pieces of their own, read the same responses: the readers of `io.cc` were reduced to a plain
reader of the stream in `Proof/Stream.lean`, and everything above them, `textual_read_one_response`
and `binary_read_one_response` with all their branches, only looks at what the readers return. So
each function simulates itself (`Sim`), and a run of `memcached_read_one_response` does
(`reading_ignores_cuts`), also if `repack_input_buffer` refills the read buffer between the calls.
-/

namespace LM

variable {κ κ' : Type} {K : Kernel κ} {K' : Kernel κ'} {pending : κ → List InByte}
  {pending' : κ' → List InByte} {s s' : St κ} {t : St κ'} {bufferLength : Nat} {buffer : Bytes}
  {result : Result} {n size fuel : Nat}

/-- The kernel delivers the pending bytes, and then the end of the stream. -/
structure Delivers (K : Kernel κ) (pending : κ → List InByte) : Prop extends
  Feeds K pending, Ends K pending

theorem errorFree_errorSet (memc : Memcached) (rc : ReturnT) (message : String) :
    (memc.errorSet rc message).errorFree = memc.errorFree := by
  unfold Memcached.errorSet Memcached.errorFree
  split <;> split <;> (try split) <;> rfl

/-- What two connections with the same stream have in common: `repack_input_buffer` records an error
when it meets the end of the stream, so the recorded errors are left out. -/
def St.common (s : St κ) : St Unit := { s.view with memc := s.view.memc.errorFree }

theorem St.common_errorSet (s : St κ) (rc : ReturnT) (message : String) :
    St.common { s with memc := s.memc.errorSet rc message } = s.common := by
  simp only [St.common, St.view, errorFree_errorSet]

theorem Advance.common (h : Advance pending s n s') :
    s'.common = { s.common with consumed := s.consumed ++ (s.unread pending).take n } := by
  unfold St.common
  rw [h.view]

theorem Ended.common (h : Ended pending s s') :
    s'.common = { s.common with
      consumed := s.consumed ++ s.unread pending, valid := false, cursorActive := 0,
      writeBuffer := [], majorVersion := 255, minorVersion := 255, microVersion := 255,
      backoff.inTimeout := false } := by
  unfold St.common
  rw [h.view]
  simp only [St.lost, errorFree_errorSet]

theorem Ended.valid (h : Ended pending s s') : s'.valid = false :=
  congrArg (·.valid) h.view

/-- The two connections have the same bytes still to read, or are both closed. -/
structure SameStream (pending : κ → List InByte) (pending' : κ' → List InByte) (s : St κ)
    (t : St κ') : Prop where
  common : s.common = t.common
  unread : s.valid = true → s.unread pending = t.unread pending'
  closed : s.valid = false → s.readBuffer = [] ∧ t.readBuffer = []
  room : s.readBuffer.length ≤ maxBuffer
  room' : t.readBuffer.length ≤ maxBuffer

namespace SameStream

variable {s s' : St κ} {t t' : St κ'}

variable (h : SameStream pending pending' s t)
include h

theorem valid : s.valid = t.valid :=
  congrArg (·.valid) h.common

theorem consumed : s.consumed = t.consumed :=
  congrArg (·.consumed) h.common

theorem flags : s.memc.flags = t.memc.flags :=
  congrArg (·.memc.flags) h.common

theorem namespace_ : s.memc.namespace_ = t.memc.namespace_ := congrArg (·.memc.namespace_) h.common

theorem decrypted : s.memc.decrypted = t.memc.decrypted := by
  have hkey : s.memc.hashkit.key = t.memc.hashkit.key := congrArg (·.memc.hashkit.key) h.common
  funext value
  rw [Memcached.decrypted, Memcached.decrypted, hkey]

theorem update (g : St Unit → St Unit) (hs : s'.common = g s.common) (ht : t'.common = g t.common)
    (hv : s'.valid = s.valid) (hb : s'.readBuffer = s.readBuffer) (hn : s'.net = s.net)
    (hb' : t'.readBuffer = t.readBuffer) (hn' : t'.net = t.net) : SameStream pending pending' s' t' where
  common := by rw [hs, ht, h.common]
  unread hv' := by
    simp only [Conn.unread, hb, hn, hb', hn']
    exact h.unread (hv ▸ hv')
  closed hv' := by
    rw [hb, hb']
    exact h.closed (hv ▸ hv')
  room := hb ▸ h.room
  room' := hb' ▸ h.room'

theorem advance (hv : s.valid = true) (hs : Advance pending s n s') (ht : Advance pending' t n t') :
    SameStream pending pending' s' t' where
  common := by rw [hs.common, ht.common, h.common, h.consumed, h.unread hv]
  unread _ := by rw [hs.unread, ht.unread, h.unread hv]
  closed hv' := by simp [hs.valid, hv] at hv'
  room := hs.room h.room
  room' := ht.room h.room'

/-- Both read all that is left, and the end of the stream. -/
theorem ended (hv : s.valid = true) (hs : Ended pending s s') (ht : Ended pending' t t') :
    SameStream pending pending' s' t' where
  common := by rw [hs.common, ht.common, h.common, h.consumed, h.unread hv]
  unread hv' := by simp [hs.valid] at hv'
  closed _ := ⟨hs.readBuffer, ht.readBuffer⟩
  room := by simp [hs.readBuffer]
  room' := by simp [ht.readBuffer]

end SameStream

/-! ## The readers -/

theorem setErrorText_sim {rc : ReturnT} {message : String} :
    Sim (SameStream pending pending') Eq (setErrorText rc message) (setErrorText rc message) := by
  refine .bind (.modify fun s t h => ?_) fun _ _ _ => .pure rfl
  exact h.update id (St.common_errorSet s rc message) (St.common_errorSet t rc message) rfl rfl rfl
    rfl rfl

theorem setError_sim {rc : ReturnT} : Sim (SameStream pending pending') Eq (setError rc) (setError rc) := by
  refine .bind (.modify fun s t h => ?_) fun _ _ _ => .pure rfl
  split
  · exact h.update id (St.common_errorSet s rc "") (St.common_errorSet t rc "") rfl rfl rfl rfl rfl
  · exact h

theorem closeSocket_sim : Sim (SameStream pending pending') Eq (closeSocket K) (closeSocket K') := by
  intro s t h
  refine .some ⟨rfl, ?_, by simp, fun _ => ⟨rfl, rfl⟩, Nat.zero_le _, Nat.zero_le _⟩
  exact congrArg (fun v : St Unit => { v with
    valid := false, cursorActive := 0, writeBuffer := [], majorVersion := 255, minorVersion := 255,
    microVersion := 255, backoff.inTimeout := false }) h.common

theorem responseIncrement_sim : Sim (SameStream pending pending') (fun _ _ => True)
    responseIncrement responseIncrement :=
  .modify fun _ _ h =>
    h.update (fun v => { v with cursorActive := (v.cursorActive + 1) % 2 ^ 32 }) rfl rfl rfl rfl rfl
      rfl rfl

theorem responseDecrement_sim : Sim (SameStream pending pending') (fun _ _ => True)
    responseDecrement responseDecrement :=
  .modify fun _ _ h =>
    h.update (fun v => { v with cursorActive := v.cursorActive - 1 }) rfl rfl rfl rfl rfl rfl rfl

theorem readVersion_sim (text : Bytes) :
    Sim (SameStream pending pending') Eq (readVersion text) (readVersion text) := by
  have refuse (part : String) : Sim (SameStream pending pending') Eq (do
        modify fun s => { s with majorVersion := 255, minorVersion := 255, microVersion := 255 }
        setErrorText .unknownReadFailure ("strtol() failed to parse " ++ part ++ " version")) (do
        modify fun s => { s with majorVersion := 255, minorVersion := 255, microVersion := 255 }
        setErrorText .unknownReadFailure ("strtol() failed to parse " ++ part ++ " version")) :=
    .bind (.modify fun _ _ h => h.update
      (fun v => { v with majorVersion := 255, minorVersion := 255, microVersion := 255 })
      rfl rfl rfl rfl rfl rfl rfl) fun _ _ _ => setErrorText_sim
  unfold readVersion
  split
  · exact refuse _
  · rename_i major _ _
    refine .ite Iff.rfl (fun _ => refuse _) fun _ => ?_
    refine .bind (.modify fun _ _ h => h.update (fun v => { v with majorVersion := major })
      rfl rfl rfl rfl rfl rfl rfl) fun _ _ _ => ?_
    split
    · exact refuse _
    · rename_i minor _ _
      refine .bind (.modify fun _ _ h => h.update (fun v => { v with minorVersion := minor })
        rfl rfl rfl rfl rfl rfl rfl) fun _ _ _ => ?_
      split
      · exact refuse _
      · rename_i micro _ _
        exact .bind (.modify fun _ _ h => h.update (fun v => { v with microVersion := micro })
          rfl rfl rfl rfl rfl rfl rfl) fun _ _ _ => .pure rfl

theorem reply_sim {m : Act κ ReturnT} {m' : Act κ' ReturnT} (h : Sim (SameStream pending pending') Eq m m') :
    Sim (SameStream pending pending') Eq (do let rc ← m; return (⟨rc, buffer, result⟩ : Reply))
      (do let rc ← m'; return ⟨rc, buffer, result⟩) :=
  h.bind_eq fun _ => .pure rfl

theorem lastReply_sim {line : List InByte} : Sim (SameStream pending pending') (fun _ _ => True)
    (modify fun s => { s with lastReply := line }) (modify fun s => { s with lastReply := line }) :=
  .modify fun _ _ h => h.update (fun v => { v with lastReply := line }) rfl rfl rfl rfl rfl rfl rfl

theorem binaryStatus_sim {status : Nat} :
    Sim (SameStream pending pending') Eq (binaryStatus status) (binaryStatus status) := by
  unfold binaryStatus
  split <;> first
    | exact .pure rfl
    | exact setError_sim

/-- More fuel does not change what the loop returns. -/
theorem binaryReadLoop_mono {more : Nat} (hle : fuel ≤ more) {r : Reply × St κ}
    (h : binaryReadLoop K bufferLength fuel buffer result s = some r) :
    binaryReadLoop K bufferLength more buffer result s = some r := by
  induction fuel generalizing more buffer result s with
  | zero => cases h
  | succ fuel ih =>
    obtain ⟨more, rfl⟩ : ∃ n, more = n + 1 := ⟨more - 1, by omega⟩
    simp only [binaryReadLoop, Bind.bind, StateT.bind] at h ⊢
    cases hone : binaryReadOneResponse K bufferLength buffer result s with
    | none => simp [hone] at h
    | some p =>
      simp only [hone, Option.bind_some] at h ⊢
      by_cases hrc : p.1.rc = .fetchNotFinished
      · rw [if_pos hrc] at h ⊢
        exact ih (Nat.le_of_succ_le_succ hle) h
      · rwa [if_neg hrc] at h ⊢

section

variable (hK : Delivers K pending) (hK' : Delivers K' pending')
include hK hK'

theorem memcachedIoRead_sim (length : Nat) :
    Sim (SameStream pending pending') Eq (memcachedIoRead K length) (memcachedIoRead K' length) := by
  refine .of_ensures fun s t h => ?_
  cases hv : s.valid with
  | false =>
    refine ⟨_, _, memcachedIoRead_closed hv length, memcachedIoRead_closed (h.valid ▸ hv) length, ?_⟩
    rintro _ _ _ _ ⟨rfl, rfl⟩ ⟨rfl, rfl⟩
    exact ⟨rfl, h⟩
  | true =>
    have hv' : t.valid = true := h.valid ▸ hv
    have hu := h.unread hv
    by_cases hlen : length ≤ (s.unread pending).length
    · refine ⟨_, _, memcachedIoRead_fills hK.toFeeds.fills hv trivial hlen,
        memcachedIoRead_fills hK'.toFeeds.fills hv' trivial (hu ▸ hlen), ?_⟩
      rintro _ _ _ _ ⟨rfl, hs⟩ ⟨rfl, ht⟩
      exact ⟨by rw [hu], h.advance hv hs ht⟩
    · refine ⟨_, _, memcachedIoRead_ends hK.toFeeds.fills hK.toEnds hv trivial (Nat.lt_of_not_le hlen),
        memcachedIoRead_ends hK'.toFeeds.fills hK'.toEnds hv' trivial (hu ▸ Nat.lt_of_not_le hlen), ?_⟩
      rintro _ _ _ _ ⟨rfl, hs⟩ ⟨rfl, ht⟩
      exact ⟨by rw [hu], h.ended hv hs ht⟩

theorem memcachedSafeRead_sim (size : Nat) :
    Sim (SameStream pending pending') Eq (memcachedSafeRead K size) (memcachedSafeRead K' size) :=
  .ite Iff.rfl (fun _ => .pure rfl) fun _ => memcachedIoRead_sim hK hK' size

theorem memcachedIoReadline_sim (hsize : 0 < size) :
    Sim (SameStream pending pending') Eq (memcachedIoReadline K size) (memcachedIoReadline K' size) := by
  refine .of_ensures fun s t h => ?_
  cases hv : s.valid with
  | false =>
    obtain ⟨hb, hb'⟩ := h.closed hv
    refine ⟨_, _, memcachedIoReadline_closed hsize hv hb,
      memcachedIoReadline_closed hsize (h.valid ▸ hv) hb', ?_⟩
    rintro _ _ _ _ ⟨rfl, rfl⟩ ⟨rfl, rfl⟩
    exact ⟨rfl, h⟩
  | true =>
    rcases hline : plainLine size (s.unread pending) with ⟨line, e⟩
    refine ⟨_, _, memcachedIoReadline_fills hK.toFeeds.fills hsize hv trivial hline fun _ => hK.toEnds,
      memcachedIoReadline_fills hK'.toFeeds.fills hsize (h.valid ▸ hv) trivial (h.unread hv ▸ hline)
        fun _ => hK'.toEnds, ?_⟩
    rintro _ _ _ _ ⟨rfl, hon, hend⟩ ⟨rfl, hon', hend'⟩
    refine ⟨rfl, ?_⟩
    by_cases he : e = .cut
    · exact h.ended hv (hend he) (hend' he)
    · exact h.advance hv (hon he) (hon' he)

/-! ## The responses -/

theorem textualValueFetch_sim : Sim (SameStream pending pending') Eq (textualValueFetch K buffer)
      (textualValueFetch K' buffer) := by
  refine .bind .get fun s t h => ?_
  rw [h.namespace_]
  split
  · exact closeSocket_sim.bind fun _ _ _ => .pure rfl
  · refine .ite Iff.rfl (fun _ => reply_sim setError_sim) fun _ => ?_
    refine (memcachedIoRead_sim hK hK' _).bind_eq fun r => ?_
    refine .ite Iff.rfl (fun _ => .ite Iff.rfl (fun _ => ?_) fun _ => .pure rfl) fun _ => ?_
    · exact closeSocket_sim.bind fun _ _ _ => reply_sim setError_sim
    · rw [h.decrypted]
      split
      · exact .pure rfl
      · exact reply_sim setErrorText_sim

theorem textualDispatch_sim {totalRead : Nat} :
    Sim (SameStream pending pending') Eq (textualDispatch K buffer totalRead result)
      (textualDispatch K' buffer totalRead result) := by
  have counted (rc : ReturnT) : Sim (SameStream pending pending') Eq
      (do responseIncrement; return rc) (do responseIncrement; return rc) :=
    responseIncrement_sim.bind fun _ _ _ => .pure rfl
  have code (rc : ReturnT) : Sim (SameStream pending pending') Eq
      (do let rc ← pure rc; return (⟨rc, buffer, result⟩ : Reply))
      (do let rc ← pure rc; return ⟨rc, buffer, result⟩) := reply_sim (.pure rfl)
  unfold textualDispatch
  refine .ite Iff.rfl
    (fun _ => responseIncrement_sim.bind fun _ _ _ => textualValueFetch_sim hK hK') fun _ => ?_
  refine .ite Iff.rfl (fun _ => reply_sim (readVersion_sim _)) fun _ => ?_
  refine .ite Iff.rfl (fun _ => code _) fun _ => ?_
  refine .ite Iff.rfl (fun _ => reply_sim (counted _)) fun _ => ?_
  refine .ite Iff.rfl (fun _ => ?_) fun _ => ?_
  · iterate 3 refine .ite Iff.rfl (fun _ => code _) fun _ => ?_
    exact reply_sim setErrorText_sim
  iterate 8 refine .ite Iff.rfl (fun _ => code _) fun _ => ?_
  refine .ite Iff.rfl (fun _ => reply_sim (counted _)) fun _ => ?_
  refine .ite Iff.rfl (fun _ => reply_sim setErrorText_sim) fun _ => ?_
  refine .ite Iff.rfl (fun _ => ?_) fun _ => ?_
  · split
    · exact setErrorText_sim.bind_eq fun _ => .pure rfl
    · exact .pure rfl
  · exact setErrorText_sim.bind_eq fun _ => .pure rfl

theorem textualReadOneResponse_sim (hb : 0 < bufferLength) (buffer : Bytes) (result : Result) :
    Sim (SameStream pending pending') Eq (textualReadOneResponse K bufferLength buffer result)
      (textualReadOneResponse K' bufferLength buffer result) := by
  refine (memcachedIoReadline_sim hK hK' hb).bind_eq fun r => ?_
  refine .ite Iff.rfl (fun _ => .pure rfl) fun _ => ?_
  exact lastReply_sim.bind fun _ _ _ => textualDispatch_sim hK hK'

theorem readPart_sim {onFail : Act κ Reply}
    {onFail' : Act κ' Reply} {f : Bytes → Act κ Reply} {f' : Bytes → Act κ' Reply}
    (hm : Sim (SameStream pending pending') Eq onFail onFail')
    (hf : ∀ bytes, Sim (SameStream pending pending') Eq (f bytes) (f' bytes)) :
    Sim (SameStream pending pending') Eq (readPart K size onFail f) (readPart K' size onFail' f') :=
  (memcachedSafeRead_sim hK hK' _).bind_eq fun _ => .ite Iff.rfl (fun _ => hf _) fun _ => hm

theorem binaryValue_sim {header : Header} :
    Sim (SameStream pending pending') Eq (binaryValue K header buffer) (binaryValue K' header buffer) := by
  unfold binaryValue
  refine readPart_sim hK hK' (.pure rfl) fun flags => readPart_sim hK hK' (.pure rfl) fun key => ?_
  refine .bind .get fun s t h => ?_
  rw [h.namespace_]
  refine .ite Iff.rfl (fun _ => reply_sim setError_sim) fun _ => ?_
  exact readPart_sim hK hK' (.pure rfl) fun value => reply_sim binaryStatus_sim

theorem binarySuccess_sim {header : Header} :
    Sim (SameStream pending pending') Eq (binarySuccess K header bufferLength buffer result)
      (binarySuccess K' header bufferLength buffer result) := by
  have part {size : Nat} {fail : Reply} {f : Bytes → Act κ Reply} {f' : Bytes → Act κ' Reply}
      (hf : ∀ bytes, Sim (SameStream pending pending') Eq (f bytes) (f' bytes)) :
      Sim (SameStream pending pending') Eq (readPart K size (return fail) f)
        (readPart K' size (return fail) f') := readPart_sim hK hK' (.pure rfl) hf
  have finish {buffer : Bytes} {result : Result} : Sim (SameStream pending pending') Eq
      (do let rc ← binaryStatus header.status; return (⟨rc, buffer, result⟩ : Reply))
      (do let rc ← binaryStatus header.status; return ⟨rc, buffer, result⟩) :=
    reply_sim binaryStatus_sim
  unfold binarySuccess
  split
  · exact responseIncrement_sim.bind fun _ _ _ => binaryValue_sim hK hK'
  · exact binaryValue_sim hK hK'
  · exact .ite Iff.rfl (fun _ => reply_sim setError_sim) fun _ => part fun _ => finish
  · exact .ite Iff.rfl (fun _ => reply_sim setError_sim) fun _ => part fun _ => finish
  · exact .ite Iff.rfl (fun _ => .pure rfl) fun _ => part fun _ => finish
  · refine part fun text => (readVersion_sim text).bind_eq fun rc => ?_
    exact .ite Iff.rfl (fun _ => finish) fun _ => .pure rfl
  · have hread : Sim (SameStream pending pending') Eq
        (if header.bodylen = 4 then memcachedSafeRead K 4 else pure (.success, []))
        (if header.bodylen = 4 then memcachedSafeRead K' 4 else pure (.success, [])) :=
      .ite Iff.rfl (fun _ => memcachedSafeRead_sim hK hK' _) fun _ => .pure rfl
    exact hread.bind_eq fun r => reply_sim setError_sim
  iterate 9 exact .pure rfl
  · refine .ite Iff.rfl (fun _ => .pure rfl) fun _ => .ite Iff.rfl (fun _ => .pure rfl) fun _ => ?_
    exact part fun _ => part fun _ => finish
  · exact part fun _ => finish
  · exact part fun _ => finish
  · exact reply_sim setError_sim

theorem drainBody_sim (fuel bodylen : Nat) :
    Sim (SameStream pending pending') Eq (drainBody K fuel bodylen) (drainBody K' fuel bodylen) := by
  induction fuel generalizing bodylen with
  | zero =>
    cases bodylen with
    | zero => exact .pure rfl
    | succ bodylen => exact .failure
  | succ fuel ih =>
    cases bodylen with
    | zero => exact .pure rfl
    | succ bodylen =>
      refine (memcachedSafeRead_sim hK hK' _).bind_eq fun r => ?_
      exact .ite Iff.rfl (fun _ => ih _) fun _ => setError_sim

theorem binaryReadOneResponse_sim (bufferLength : Nat) (buffer : Bytes) {result : Result} :
    Sim (SameStream pending pending') Eq (binaryReadOneResponse K bufferLength buffer result)
      (binaryReadOneResponse K' bufferLength buffer result) := by
  refine (memcachedSafeRead_sim hK hK' _).bind_eq fun r => ?_
  refine .ite Iff.rfl (fun _ => .pure rfl) fun _ => lastReply_sim.bind fun _ _ _ => ?_
  refine .ite Iff.rfl (fun _ => reply_sim setError_sim) fun _ => ?_
  refine .ite Iff.rfl (fun _ => binarySuccess_sim hK hK') fun _ => ?_
  refine (drainBody_sim hK hK' _ _).bind_eq fun rc => .ite Iff.rfl (fun _ => .pure rfl) fun _ => ?_
  exact .ite Iff.rfl (fun _ => .pure rfl) fun _ => reply_sim binaryStatus_sim

theorem binaryReadLoop_sim (bufferLength fuel : Nat) (buffer : Bytes) (result : Result) :
    Sim (SameStream pending pending') Eq (binaryReadLoop K bufferLength fuel buffer result)
      (binaryReadLoop K' bufferLength fuel buffer result) := by
  induction fuel generalizing buffer result with
  | zero => exact .failure
  | succ fuel ih =>
    refine (binaryReadOneResponse_sim hK hK' _ _).bind_eq fun reply => ?_
    exact .ite Iff.rfl (fun _ => ih _ _) fun _ => .pure rfl

/-- The two loops of `_read_one_response` have each fuel of their own, and enough of it. -/
theorem binaryReadLoop_sim_of_left_lt {fuel' : Nat} (h : SameStream pending pending' s t)
    (hs : s.left K < fuel) (ht : t.left K' < fuel') :
    Option.Rel (fun p q => p.1 = q.1 ∧ SameStream pending pending' p.2 q.2)
      (binaryReadLoop K bufferLength fuel buffer result s)
      (binaryReadLoop K' bufferLength fuel' buffer result t) := by
  obtain ⟨r, s', hrun, -⟩ : Ensures (binaryReadLoop K bufferLength fuel buffer result) s _ :=
    binaryReadLoop_reads bufferLength hs
  obtain ⟨r', t', hrun', -⟩ : Ensures (binaryReadLoop K' bufferLength fuel' buffer result) t _ :=
    binaryReadLoop_reads bufferLength ht
  have hsim := binaryReadLoop_sim hK hK' bufferLength (max fuel fuel') buffer result s t h
  rw [binaryReadLoop_mono (Nat.le_max_left _ _) hrun,
    binaryReadLoop_mono (Nat.le_max_right _ _) hrun'] at hsim
  rwa [hrun, hrun']

section

variable (hb : 0 < bufferLength) (buffer : Bytes) (result : Result)
include hb

theorem readProtocol_sim :
    Sim (SameStream pending pending') Eq
      (do
        let s ← get
        if s.memc.flags.binaryProtocol then
          binaryReadLoop K bufferLength (s.readBuffer.length + K.supply s.net + 1) buffer result
        else textualReadOneResponse K bufferLength buffer result)
      (do
        let s ← get
        if s.memc.flags.binaryProtocol then
          binaryReadLoop K' bufferLength (s.readBuffer.length + K'.supply s.net + 1) buffer result
        else textualReadOneResponse K' bufferLength buffer result) := by
  refine .get_bind fun s t h => ?_
  rw [← h.flags]
  by_cases hbin : s.memc.flags.binaryProtocol = true
  · simp only [hbin, if_true]
    exact binaryReadLoop_sim_of_left_lt hK hK' h (Nat.lt_succ_self _) (Nat.lt_succ_self _)
  · simp only [hbin, Bool.false_eq_true, if_false]
    exact textualReadOneResponse_sim hK hK' hb buffer result s t h

theorem readOneResponse_sim :
    Sim (SameStream pending pending') Eq (readOneResponse K bufferLength buffer result)
      (readOneResponse K' bufferLength buffer result) := by
  refine responseDecrement_sim.bind fun _ _ _ => ?_
  simp only [← bind_assoc]
  refine (readProtocol_sim hK hK' hb buffer result).bind_eq fun reply => ?_
  have hclose : Sim (SameStream pending pending') Eq
      (if reply.rc.isFatal then closeSocket K else pure ())
      (if reply.rc.isFatal then closeSocket K' else pure ()) :=
    .ite Iff.rfl (fun _ => closeSocket_sim) fun _ => .pure rfl
  exact hclose.bind_eq fun _ => .pure rfl

end

theorem memcachedReadOneResponse_sim (buffer : Bytes) (result : Result) :
    Sim (SameStream pending pending') Eq (memcachedReadOneResponse K buffer result)
      (memcachedReadOneResponse K' buffer result) :=
  readOneResponse_sim hK hK' (by decide) buffer result

end

/-! ## Every sequence of responses -/

theorem SameStream.errorSet (h : SameStream pending pending' s t) {net : κ}
    (hn : s.valid = true → pending net = pending s.net) (rc : ReturnT) (message : String) :
    SameStream pending pending' { s with net := net, memc := s.memc.errorSet rc message } t where
  common := (St.common_errorSet s rc message).trans h.common
  unread hv := by
    rw [← h.unread hv]
    exact congrArg (s.readBuffer ++ ·) (hn hv)
  closed := h.closed
  room := h.room
  room' := h.room'

theorem repackInputBuffer_sameStream (hK : Delivers K pending) (h : SameStream pending pending' s t) :
    Ensures (repackInputBuffer K) s fun _ s' => SameStream pending pending' s' t := by
  simp only [repackInputBuffer, ensures_bind, ensures_get]
  refine ensures_ite (fun _ => ensures_pure.mpr h) fun hfull => ?_
  have hcap : 0 < maxBuffer - s.readBuffer.length := by
    have := h.room
    omega
  refine ensures_ite (fun hv => ?_) fun hv => ?_
  · simp only [setErrno, setErrorText, ensures_bind, ensures_modify]
    exact ensures_pure.mpr (ensures_pure.mpr (h.errorSet (fun hv' => by simp [hv'] at hv) _ _))
  · have hv : s.valid = true := by simpa using hv
    by_cases hp : pending s.net = []
    · obtain ⟨net, hrecv, hnet⟩ := hK.eof s.net _ hcap hp
      simp only [hrecv, setError, ReturnT.isFatal, if_true, ensures_bind, ensures_set, ensures_modify]
      exact ensures_pure.mpr (ensures_pure.mpr (h.errorSet (fun _ => hnet.trans hp.symm) _ _))
    · obtain ⟨cells, net, hrecv, happ⟩ := hK.recv s.net _ hcap hp
      have hle := (K.recv_data s.net _ cells (by rw [hrecv]) hcap).2
      simp only [hrecv, ensures_bind, ensures_set]
      refine ensures_pure.mpr
        ⟨h.common, fun _ => ?_, fun hv' => absurd (hv.symm.trans hv') (by simp), ?_, h.room'⟩
      · rw [← h.unread hv]
        simp [Conn.unread, ← happ]
      · simp only [List.length_append]
        omega

/-- `repack_input_buffer` is run some times. -/
def refill (K : Kernel κ) : Nat → Act κ Unit
  | 0 => return ()
  | n + 1 => do
    let _ ← repackInputBuffer K
    refill K n

theorem refill_sameStream (hK : Delivers K pending) (n : Nat) (h : SameStream pending pending' s t) :
    Ensures (refill K n) s fun _ s' => SameStream pending pending' s' t := by
  induction n generalizing s with
  | zero => exact ensures_pure.mpr h
  | succ n ih => exact (repackInputBuffer_sameStream hK h).bind fun _ _ => ih

theorem SameStream.symm (h : SameStream pending pending' s t) : SameStream pending' pending t s where
  common := h.common.symm
  unread hv := (h.unread (h.valid.trans hv)).symm
  closed hv := (h.closed (h.valid.trans hv)).symm
  room := h.room'
  room' := h.room

/-- What a call of `memcached_read_one_response` gives: its code, its result, and how many bytes of
the stream have been consumed after it. -/
structure Outcome where
  rc : ReturnT
  result : Result
  consumed : Nat
  deriving DecidableEq

/-- Calls of `memcached_read_one_response`, each with the line buffer and the result it is given.
Before the `i`-th call the read buffer is refilled `refills i` times. -/
def readCalls (K : Kernel κ) : (Nat → Nat) → List (Bytes × Result) → Act κ (List Outcome)
  | _, [] => return []
  | refills, call :: calls => do
    refill K (refills 0)
    let reply ← memcachedReadOneResponse K call.1 call.2
    let s ← get
    let outcomes ← readCalls K (fun i => refills (i + 1)) calls
    return ⟨reply.rc, reply.result, s.consumed.length⟩ :: outcomes

theorem readCalls_cons {refills : Nat → Nat} {call : Bytes × Result} {calls : List (Bytes × Result)}
    {s₁ s₂ : St κ} {reply : Reply} {outcomes : List Outcome}
    (hfill : Ensures (refill K (refills 0)) s fun _ s' => s' = s₁)
    (hread : memcachedReadOneResponse K call.1 call.2 s₁ = some (reply, s₂))
    (hrest : Ensures (readCalls K (fun i => refills (i + 1)) calls) s₂ fun o _ => o = outcomes) :
    Ensures (readCalls K refills (call :: calls)) s fun o _ =>
      o = ⟨reply.rc, reply.result, s₂.consumed.length⟩ :: outcomes := by
  refine hfill.bind fun _ _ h₁ => ?_
  subst h₁
  refine (Ensures.of_eq hread).bind fun _ _ h₂ => ?_
  obtain ⟨rfl, rfl⟩ := h₂
  simp only [ensures_bind, ensures_get]
  exact hrest.mono fun o _ ho => ensures_pure.mpr (by rw [ho])

theorem readCalls_sameStream (hK : Delivers K pending) (hK' : Delivers K' pending')
    (calls : List (Bytes × Result)) (refills refills' : Nat → Nat) (h : SameStream pending pending' s t) :
    ∃ outcomes, Ensures (readCalls K refills calls) s (fun o _ => o = outcomes) ∧
      Ensures (readCalls K' refills' calls) t fun o _ => o = outcomes := by
  induction calls generalizing refills refills' s t with
  | nil => exact ⟨[], ensures_pure.mpr rfl, ensures_pure.mpr rfl⟩
  | cons call calls ih =>
    obtain ⟨_, s₁, hfill, hs₁⟩ := refill_sameStream hK (refills 0) h
    obtain ⟨_, t₁, hfill', ht₁⟩ := refill_sameStream hK' (refills' 0) hs₁.symm
    obtain ⟨reply, s₂, t₂, hread, hread', h₂⟩ :=
      (memcachedReadOneResponse_sim hK hK' call.1 call.2).returns ht₁.symm
        (memcachedReadOneResponse_reads call.1 call.2 s₁)
    obtain ⟨outcomes, hs₃, ht₃⟩ := ih (fun i => refills (i + 1)) (fun i => refills' (i + 1)) h₂
    refine ⟨⟨reply.rc, reply.result, s₂.consumed.length⟩ :: outcomes,
      readCalls_cons ⟨_, s₁, hfill, rfl⟩ hread hs₃, ?_⟩
    rw [h₂.consumed]
    exact readCalls_cons ⟨_, t₁, hfill', rfl⟩ hread' ht₃

/-- Two connections in the same state, with the same bytes still to come but cut into pieces of
their own: every sequence of calls of `memcached_read_one_response` gives the same codes, the same
results and the same number of consumed bytes on both, in either protocol and whatever the stream
holds, wherever `repack_input_buffer` refilled the read buffers. -/
theorem reading_ignores_cuts (hK : Delivers K pending) (hK' : Delivers K' pending') (s : St κ)
    (t : St κ') (hv : s.valid = true) (hview : s.view = t.view)
    (hstream : s.unread pending = t.unread pending') (hs : s.readBuffer.length ≤ maxBuffer)
    (ht : t.readBuffer.length ≤ maxBuffer) (calls : List (Bytes × Result))
    (refills refills' : Nat → Nat) :
    ∃ outcomes, Ensures (readCalls K refills calls) s (fun o _ => o = outcomes) ∧
      Ensures (readCalls K' refills' calls) t fun o _ => o = outcomes := by
  have hcommon : s.common = t.common := by
    unfold St.common
    rw [hview]
  exact readCalls_sameStream hK hK' calls refills refills'
    ⟨hcommon, fun _ => hstream, fun hf => absurd (hv.symm.trans hf) (by simp), hs, ht⟩

/-- A new connection on which `bytes` arrive. -/
def arriving (bytes : Bytes) : St (List InByte) :=
  { valid := true, net := answerCells 0 bytes, memc := .create }

theorem drip_delivers (size : Nat) : Delivers (drip size) id where
  recv cells cap hcap hne := by
    refine ⟨cells.take (min (size + 1) cap), cells.drop (min (size + 1) cap), ?_, ?_⟩
    · simp [drip, show cells ≠ [] from hne]
    · simp
  eof cells cap hcap hnil := ⟨[], by simp [drip, show cells = [] from hnil], rfl⟩

/-- A reply and a value, byte by byte and in pieces of ten bytes with two refills before each call. -/
theorem reading_ignores_cuts_drip :
    ∃ outcomes,
      Ensures (readCalls (drip 0) (fun _ => 0) [([], {}), ([], {})])
        (arriving (ascii "STORED\r\nVALUE a 0 1\r\nx\r\n")) (fun o _ => o = outcomes) ∧
      Ensures (readCalls (drip 9) (fun _ => 2) [([], {}), ([], {})])
        (arriving (ascii "STORED\r\nVALUE a 0 1\r\nx\r\n")) fun o _ => o = outcomes :=
  reading_ignores_cuts (drip_delivers 0) (drip_delivers 9) _ _ rfl rfl rfl (by decide) (by decide)
    _ _ _

end LM
