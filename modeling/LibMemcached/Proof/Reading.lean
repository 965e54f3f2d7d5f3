import LibMemcached.Impl.Io

/-!
# What reading changes

Whatever the kernel does, the reading functions of `io.cc` and `response.cc` return, and they leave
the outgoing side of the connection alone unless they close it (`Reads`). Each function has one
lemma here; the loops are shown to end by the two bounds of a `Kernel`: a refused call uses up
patience, and a header read uses up bytes that can still be received (`St.left`).
-/

namespace LM

open List

variable {κ : Type} {K : Kernel κ} {s : St κ} {fuel size : Nat} {rc : ReturnT} {t u : St κ}
  {cells acc : List InByte} {buffer : Bytes} {result : Result} {a memc : Memcached} {net : κ}
  {bufferLength : Nat}

/-- The two clients differ in their recorded errors only. -/
def SameSettings (a b : Memcached) : Prop := b = { a with errorMessages := b.errorMessages }

theorem SameSettings.rfl : SameSettings a a := Eq.refl a

theorem SameSettings.trans {b c : Memcached} (h : SameSettings a b) (h' : SameSettings b c) :
    SameSettings a c := by
  unfold SameSettings at *
  rw [h', h]

theorem SameSettings.errorSet (a : Memcached) (rc : ReturnT) (message : String) :
    SameSettings a (a.errorSet rc message) := by
  unfold SameSettings Memcached.errorSet Memcached.errorFree
  split <;> split <;> (try split) <;> rfl

/-- Nothing is left of the connection. -/
structure St.Closed (s : St κ) : Prop where
  valid : s.valid = false
  writeBuffer : s.writeBuffer = []

/-- The bytes that can still be read before anything more is sent. -/
def St.left (K : Kernel κ) (s : St κ) : Nat := s.readBuffer.length + K.supply s.net

/-- What belongs to the call that is going on. -/
def St.call (s : St κ) : Nat × Result × Option (List InByte) := (s.issued, s.result, s.answer)

/-- `s'` is `s` after some reading: the outgoing side is as it was, or the connection was closed. -/
structure Reads (K : Kernel κ) (s s' : St κ) : Prop where
  patience : K.patience s'.net ≤ K.patience s.net
  memc : SameSettings s.memc s'.memc
  isPurging : s'.isPurging = s.isPurging
  call : s'.call = s.call
  waits : s'.waits = s.waits
  purgeLog : s.purgeLog <+: s'.purgeLog
  copied : s'.copied = s.copied
  accepted : s'.accepted = s.accepted
  connection : (s'.valid = s.valid ∧ s'.writeBuffer = s.writeBuffer ∧ s'.left K ≤ s.left K) ∨
    s'.Closed

namespace Reads

variable {s s' s'' : St κ}

theorem rfl : Reads K s s :=
  ⟨Nat.le_refl _, .rfl, Eq.refl _, Eq.refl _, Eq.refl _, prefix_rfl, Eq.refl _, Eq.refl _,
    .inl ⟨Eq.refl _, Eq.refl _, Nat.le_refl _⟩⟩

theorem trans (h : Reads K s s') (h' : Reads K s' s'') : Reads K s s'' where
  patience := Nat.le_trans h'.patience h.patience
  memc := h.memc.trans h'.memc
  isPurging := h'.isPurging.trans h.isPurging
  call := h'.call.trans h.call
  waits := h'.waits.trans h.waits
  purgeLog := h.purgeLog.trans h'.purgeLog
  copied := h'.copied.trans h.copied
  accepted := h'.accepted.trans h.accepted
  connection := by
    rcases h'.connection with ⟨v', w', l'⟩ | hc
    · rcases h.connection with ⟨v, w, l⟩ | hc
      · exact .inl ⟨v'.trans v, w'.trans w, Nat.le_trans l' l⟩
      · exact .inr ⟨v'.trans hc.valid, w'.trans hc.writeBuffer⟩
    · exact .inr hc

end Reads

/-- What the functions above the reading of bytes record. -/
def St.record (s : St κ) : List ReturnT × List InByte := (s.purgeLog, s.lastReply)

/-- Neither a purge nor an answer is recorded. -/
structure Hears (K : Kernel κ) (s s' : St κ) : Prop extends Reads K s s' where
  record : s'.record = s.record

namespace Hears

variable {s s' s'' : St κ}

theorem rfl : Hears K s s := ⟨.rfl, Eq.refl _⟩

theorem trans (h : Hears K s s') (h' : Hears K s' s'') : Hears K s s'' :=
  ⟨h.toReads.trans h'.toReads, h'.record.trans h.record⟩

instance : Std.Refl (Hears K) := ⟨fun _ => rfl⟩
instance : IsTrans (St κ) (Hears K) := ⟨fun _ _ _ => trans⟩

theorem log (h : Hears K s s') : s'.purgeLog = s.purgeLog := (Prod.mk.inj h.record).1

theorem consume {rest : List InByte} (h : rest.length ≤ s.readBuffer.length) :
    Hears K s (s.consume cells rest) :=
  ⟨⟨Nat.le_refl _, .rfl, Eq.refl _, Eq.refl _, Eq.refl _, prefix_rfl, Eq.refl _, Eq.refl _,
    .inl ⟨Eq.refl _, Eq.refl _, Nat.add_le_add_right h _⟩⟩, Eq.refl _⟩

end Hears

/-- `cells` were taken from the stream, and the connection is as it was. -/
structure Draws (s : St κ) (cells : List InByte) (s' : St κ) : Prop where
  consumed : s'.consumed = s.consumed ++ cells
  valid : s'.valid = s.valid
  cursorActive : s'.cursorActive = s.cursorActive
  memc : SameSettings s.memc s'.memc

namespace Draws

variable {s t u : St κ} {cells cells' : List InByte}

theorem rfl : Draws s [] s := ⟨(append_nil _).symm, Eq.refl _, Eq.refl _, .rfl⟩

theorem trans (h : Draws s cells t) (h' : Draws t cells' u) : Draws s (cells ++ cells') u where
  consumed := by rw [h'.consumed, h.consumed, append_assoc]
  valid := h'.valid.trans h.valid
  cursorActive := h'.cursorActive.trans h.cursorActive
  memc := h.memc.trans h'.memc

end Draws

/-- `s'` is `s` but for the recorded errors, the state of the system and what was received. -/
structure Idle (K : Kernel κ) (s s' : St κ) : Prop extends Hears K s s', Draws s [] s' where
  ioBytesSent : s'.ioBytesSent = s.ioBytesSent
  writeBuffer : s'.writeBuffer = s.writeBuffer
  left : s'.left K ≤ s.left K

namespace Idle

variable {s s' s'' : St κ}

theorem rfl : Idle K s s := ⟨.rfl, (append_nil _).symm, Eq.refl _, Eq.refl _, Eq.refl _, Eq.refl _, Nat.le_refl _⟩

theorem trans (h : Idle K s s') (h' : Idle K s' s'') : Idle K s s'' :=
  have hd := h.toDraws.trans h'.toDraws
  ⟨h.toHears.trans h'.toHears, hd.consumed, hd.valid, hd.cursorActive, h'.ioBytesSent.trans h.ioBytesSent,
    h'.writeBuffer.trans h.writeBuffer, Nat.le_trans h'.left h.left⟩

theorem of_memc (h : SameSettings s.memc memc) : Idle K s { s with memc := memc } :=
  ⟨⟨⟨Nat.le_refl _, h, Eq.refl _, Eq.refl _, Eq.refl _, prefix_rfl, Eq.refl _, Eq.refl _,
    .inl ⟨Eq.refl _, Eq.refl _, Nat.le_refl _⟩⟩, Eq.refl _⟩, (append_nil _).symm, Eq.refl _, Eq.refl _,
    Eq.refl _, Eq.refl _, Nat.le_refl _⟩

variable (hp : K.patience net ≤ K.patience s.net)
include hp

theorem of_recv {readBuffer : List InByte} (hl : readBuffer.length + K.supply net ≤ s.left K) :
    Idle K s { s with net := net, readBuffer := readBuffer } :=
  ⟨⟨⟨hp, .rfl, Eq.refl _, Eq.refl _, Eq.refl _, prefix_rfl, Eq.refl _, Eq.refl _,
    .inl ⟨Eq.refl _, Eq.refl _, hl⟩⟩, Eq.refl _⟩, (append_nil _).symm, Eq.refl _, Eq.refl _, Eq.refl _,
    Eq.refl _, hl⟩

theorem of_net (hs : K.supply net ≤ K.supply s.net) :
    Idle K s { s with net := net } :=
  of_recv hp (Nat.add_le_add_left hs _)

end Idle

theorem setErrorText_idle (rc : ReturnT) (message : String) (s : St κ) :
    Ensures (setErrorText rc message) s fun rc' s' => rc' = rc ∧ Idle K s s' := by
  simp only [setErrorText, ensures_bind, ensures_modify]
  exact ensures_pure.mpr ⟨rfl, .of_memc (.errorSet _ _ _)⟩

theorem setError_idle (rc : ReturnT) (s : St κ) :
    Ensures (setError rc) s fun rc' s' => rc' = rc ∧ Idle K s s' := by
  simp only [setError, ensures_bind, ensures_modify]
  refine ensures_pure.mpr ⟨rfl, .of_memc ?_⟩
  split
  · exact .errorSet _ _ _
  · exact .rfl

/-- The codes with which a read from the network fails. -/
def ReturnT.isIoFailure : ReturnT → Bool
  | connectionFailure | timeout | errno | memoryAllocationFailure | invalidArguments => true
  | _ => false

theorem ReturnT.isFatal_of_isIoFailure : rc.isIoFailure = true → rc.isFatal = true := by
  cases rc <;> decide

theorem ReturnT.isSuccess_of_isIoFailure : rc.isIoFailure = true → rc.isSuccess = false := by
  cases rc <;> decide

theorem Errno.toReturn_isIoFailure (e : Errno) : e.toReturn.isIoFailure = true := by
  cases e <;> rfl

/-- The fatal codes but the one of an answer that is skipped. -/
def ReturnT.loses (rc : ReturnT) : Bool := rc.isFatal && rc != .fetchNotFinished

theorem ReturnT.loses_of_isIoFailure (h : rc.isIoFailure = true) : rc.loses = true := by
  cases rc <;> simp_all [ReturnT.isIoFailure, ReturnT.loses, ReturnT.isFatal]

theorem ReturnT.isFatal_of_loses (h : rc.loses = true) : rc.isFatal = true :=
  (Bool.and_eq_true _ _ ▸ h).1

theorem ReturnT.isFailed_of_loses (h : rc.loses = true) : rc.isFailed = true :=
  ReturnT.isFailed_of_isFatal (ReturnT.isFatal_of_loses h)

theorem ReturnT.ne_success_of_loses (h : rc.loses = true) : rc ≠ .success := by
  rintro rfl
  cases h

theorem closeSocket_closes (s : St κ) : Ensures (closeSocket K) s fun _ s' => s'.Closed ∧ Hears K s s' := by
  simp only [closeSocket, ensures_modify]
  refine ⟨⟨rfl, rfl⟩, ⟨?_, .rfl, rfl, rfl, rfl, prefix_rfl, rfl, rfl, .inr ⟨rfl, rfl⟩⟩, rfl⟩
  show K.patience (if s.valid then K.close s.net else s.net) ≤ _
  split
  · exact K.close_patience _
  · exact Nat.le_refl _

/-- A read of `size` bytes went well: they are the next ones of the stream. -/
structure Drawn (K : Kernel κ) (size : Nat) (s : St κ) (cells : List InByte) (s' : St κ) : Prop
    extends Draws s cells s' where
  length : cells.length = size
  left : s'.left K + size ≤ s.left K

theorem Drawn.rfl : Drawn K 0 s [] s := ⟨.rfl, Eq.refl _, Nat.le_refl _⟩

theorem Drawn.trans {n : Nat} {cells' : List InByte} (h : Drawn K n s cells t)
    (h' : Drawn K size t cells' u) : Drawn K (n + size) s (cells ++ cells') u where
  toDraws := h.toDraws.trans h'.toDraws
  length := by rw [length_append, h.length, h'.length]
  left := by
    have hle := h.left
    have hle' := h'.left
    omega

theorem Idle.taken (h : Idle K s t) : Drawn K 0 s [] t := ⟨h.toDraws, Eq.refl _, h.left⟩

theorem Drawn.consume (n : Nat) (h : n ≤ s.readBuffer.length) :
    Drawn K n s (s.readBuffer.take n) (s.consume (s.readBuffer.take n) (s.readBuffer.drop n)) where
  toDraws := ⟨Eq.refl _, Eq.refl _, Eq.refl _, .rfl⟩
  length := by rw [length_take, Nat.min_eq_left h]
  left := by
    simp only [St.left, St.consume, length_drop]
    omega

/-- A wait ends with success or fails; if it succeeds or runs out of time it changed nothing. -/
theorem memcachedIoPoll_reads (event : PollEvent) (s : St κ) :
    Ensures (memcachedIoPoll K event) s fun rc s' =>
      (rc = .success ∨ rc.isIoFailure = true) ∧ (rc = .success ∨ rc = .timeout → Idle K s s') ∧
        Hears K s s' := by
  have fails {rc : ReturnT} (h : rc.isIoFailure = true) {m : Act κ ReturnT} {t : St κ}
      (ht : Idle K s t) (hm : Ensures m t fun rc' s' => rc' = rc ∧ Idle K t s') :
      Ensures m t fun rc s' => (rc = .success ∨ rc.isIoFailure = true) ∧
        (rc = .success ∨ rc = .timeout → Idle K s s') ∧ Hears K s s' :=
    hm.mono fun rc' s' hp =>
      ⟨.inr (hp.1 ▸ h), fun _ => ht.trans hp.2, ht.toHears.trans hp.2.toHears⟩
  have hs := K.poll_supply s.net event s.memc.pollTimeout
  have hp := K.poll_patience s.net event s.memc.pollTimeout
  simp only [memcachedIoPoll, ensures_bind, ensures_get]
  split
  · exact fails rfl .rfl (setErrorText_idle _ _ _)
  split
  · exact fails rfl .rfl (setErrorText_idle _ _ _)
  split <;> rename_i net h <;> rw [h] at hs hp <;>
    have hn : Idle K s { s with net := net } := .of_net hp hs <;>
    simp only [ensures_bind, ensures_set]
  · exact ensures_pure.mpr ⟨.inl rfl, fun _ => hn, hn.toHears⟩
  · exact fails rfl hn (setErrorText_idle _ _ _)
  · exact fails (Errno.toReturn_isIoFailure _) hn (setErrorText_idle _ _ _)
  · rename_i e
    refine (setErrorText_idle (K := K) _ _ _).mono fun rc t ht => ?_
    refine (closeSocket_closes t).mono fun _ u hu => ensures_pure.mpr ?_
    obtain rfl : rc = e.toReturn := ht.1
    refine ⟨.inr (Errno.toReturn_isIoFailure e), fun h => ?_, (hn.trans ht.2).toHears.trans hu.2⟩
    cases e <;> simp [Errno.toReturn] at h
  · split
    · exact fails rfl hn (setError_idle _ _)
    · exact fails rfl hn (setErrorText_idle _ _ _)
    · exact fails (Errno.toReturn_isIoFailure _) hn (setErrorText_idle _ _ _)

/-! ## Filling and reading the buffer -/

theorem closeSocket_setErrorText {message : String} (h : rc.isIoFailure = true) (hr : Hears K s t)
    {P : ReturnT → St κ → Prop} :
    Ensures (do closeSocket K; setErrorText rc message) t fun rc s' =>
      (P rc s' ∨ rc.isIoFailure = true) ∧ Hears K s s' := by
  refine (closeSocket_closes t).bind fun _ u hu => ?_
  exact (setErrorText_idle (K := K) _ _ u).mono fun rc' v hv =>
    ⟨.inr (hv.1 ▸ h), (hr.trans hu.2).trans hv.2.toHears⟩

theorem ioFillLoop_reads (hf : K.patience s.net < fuel) : Ensures (ioFillLoop K fuel) s fun rc s' =>
      (rc = .success ∧ Drawn K 0 s [] s' ∧ s'.readBuffer ≠ [] ∨ rc.isIoFailure = true) ∧ Hears K s s' := by
  induction fuel generalizing s with
  | zero => omega
  | succ fuel ih =>
    have hp := K.recv_patience s.net maxBuffer
    have hs := K.recv_supply_le s.net maxBuffer
    simp only [ioFillLoop, ensures_bind, ensures_get]
    split <;> rename_i h <;> rw [h] at hp hs <;> simp only [ensures_bind, ensures_set]
    · rename_i cells net
      have hd := K.recv_data s.net maxBuffer cells (by rw [h]) (by decide)
      have hl := K.recv_supply s.net maxBuffer cells (by rw [h])
      rw [h] at hl
      have hl : cells.length + K.supply net ≤ s.readBuffer.length + K.supply s.net := by
        simp only at hl
        omega
      exact ensures_pure.mpr ⟨.inl ⟨rfl, ⟨⟨(append_nil _).symm, rfl, rfl, .rfl⟩, rfl, hl⟩, hd.1⟩,
        ⟨hp, .rfl, rfl, rfl, rfl, prefix_rfl, rfl, rfl, .inl ⟨rfl, rfl, hl⟩⟩, rfl⟩
    · rw [← ensures_bind]
      exact closeSocket_setErrorText rfl (Idle.of_net hp hs).toHears
    · rename_i e net
      have refused (he : e = .eintr ∨ e = .eagain) : K.patience net < fuel := by
        have := K.recv_refused s.net maxBuffer e (by rw [h]) he
        rw [h] at this
        simp only at this
        omega
      have hn : Idle K s { s with net := net } := .of_net hp hs
      -- The call was refused: the loop goes on with less patience.
      have again {t : St κ} (ht : Idle K s t) (hl : K.patience t.net < fuel) :
          Ensures (ioFillLoop K fuel) t fun rc s' =>
            (rc = .success ∧ Drawn K 0 s [] s' ∧ s'.readBuffer ≠ [] ∨ rc.isIoFailure = true) ∧ Hears K s s' :=
        (ih hl).mono fun rc u hu =>
          ⟨hu.1.imp (fun h' => ⟨h'.1, ht.taken.trans h'.2.1, h'.2.2⟩) id, ht.toHears.trans hu.2⟩
      split
      · rename_i he
        exact again hn (refused (.inl he))
      split
      · rename_i he
        refine (memcachedIoPoll_reads _ _).bind fun rc t ht => ?_
        obtain ⟨rfl | hfail, hidle, hr⟩ := ht
        · exact again (hn.trans (hidle (.inl rfl))) (Nat.lt_of_le_of_lt hr.patience (refused (.inr he)))
        · rw [ReturnT.isSuccess_of_isIoFailure hfail]
          exact ensures_pure.mpr ⟨.inr hfail, hn.toHears.trans hr⟩
      · exact closeSocket_setErrorText (Errno.toReturn_isIoFailure _) hn.toHears

theorem ioFill_reads (s : St κ) : Ensures (ioFill K) s fun rc s' =>
      (rc = .success ∧ Drawn K 0 s [] s' ∧ s'.readBuffer ≠ [] ∨ rc.isIoFailure = true) ∧ Hears K s s' := by
  simp only [ioFill, ensures_bind, ensures_get]
  exact ioFillLoop_reads (Nat.lt_succ_self _)

/-- `memcached_io_read` reads all it was asked for, or fails. -/
theorem ioReadLoop_reads {length : Nat} (hf : length ≤ fuel) :
    Ensures (ioReadLoop K fuel length acc) s fun r s' =>
      (r.1 = .success ∧ (∃ cells, r.2 = acc ++ cells ∧ Drawn K length s cells s') ∨ r.1.isIoFailure = true) ∧
        Hears K s s' := by
  induction fuel generalizing length acc s with
  | zero =>
    obtain rfl : length = 0 := by omega
    exact ensures_pure.mpr ⟨.inl ⟨rfl, [], (append_nil _).symm, .rfl⟩, .rfl⟩
  | succ fuel ih =>
    cases length with
    | zero => exact ensures_pure.mpr ⟨.inl ⟨rfl, [], (append_nil _).symm, .rfl⟩, .rfl⟩
    | succ length =>
      simp only [ioReadLoop, ensures_bind, ensures_get]
      have hfill : Ensures (if s.readBuffer = [] then ioFill K else pure .success) s fun rc s' =>
          (rc = .success ∧ Drawn K 0 s [] s' ∧ s'.readBuffer ≠ [] ∨ rc.isIoFailure = true) ∧ Hears K s s' :=
        ensures_ite (fun _ => ioFill_reads s) fun hb => ensures_pure.mpr ⟨.inl ⟨rfl, .rfl, hb⟩, .rfl⟩
      refine hfill.mono fun rc t ht => ?_
      obtain ⟨⟨rfl, hfilled, hb⟩ | hfail, hr⟩ := ht
      · simp only [ReturnT.isFatal, Bool.false_eq_true, if_false, ensures_bind, ensures_get,
          ensures_set]
        have hpos := length_pos_iff.mpr hb
        obtain ⟨n, hn⟩ : ∃ n, n = min (length + 1) t.readBuffer.length := ⟨_, rfl⟩
        have htaken := hfilled.trans (.consume n (by omega))
        rw [← hn]
        refine (ih (by omega)).mono fun r u hu => ?_
        refine ⟨hu.1.imp (fun h => ⟨h.1, ?_⟩) id, (hr.trans (.consume (by simp))).trans hu.2⟩
        obtain ⟨-, cells, hcells, hu⟩ := h
        refine ⟨_, hcells.trans (append_assoc _ _ _), ?_⟩
        have htotal := htaken.trans hu
        rwa [show 0 + n + (length + 1 - n) = length + 1 by omega] at htotal
      · rw [if_pos (ReturnT.isFatal_of_isIoFailure hfail)]
        exact ensures_pure.mpr ⟨.inr hfail, hr⟩

theorem memcachedIoRead_reads (length : Nat) (s : St κ) :
    Ensures (memcachedIoRead K length) s fun r s' =>
      (r.1 = .success ∧ Drawn K length s r.2 s' ∨ r.1.isIoFailure = true) ∧ Hears K s s' := by
  simp only [memcachedIoRead, ensures_bind, ensures_get]
  refine ensures_ite (fun _ => ensures_pure.mpr ⟨.inr rfl, .rfl⟩) fun _ => ?_
  refine (ioReadLoop_reads (Nat.le_refl length)).mono fun r s' h => ⟨h.1.imp (fun h => ⟨h.1, ?_⟩) id, h.2⟩
  obtain ⟨-, cells, hcells, htaken⟩ := h
  rwa [hcells]

theorem memcachedSafeRead_reads (size : Nat) (s : St κ) :
    Ensures (memcachedSafeRead K size) s fun r s' =>
      (r.1 = .success ∧ Drawn K size s r.2 s' ∨ r.1.isIoFailure = true) ∧ Hears K s s' := by
  refine ensures_ite (fun h => ?_) fun _ => memcachedIoRead_reads size s
  subst h
  exact ensures_pure.mpr ⟨.inl ⟨rfl, .rfl⟩, .rfl⟩

/-! ## Lines -/

/-- What `copyLine` copies and what it leaves make up the buffer; it copies nothing only if there is
no room or no data, and stops before the end of both only at the end of the line. -/
theorem copyLine_spec (room : Nat) (cells : List InByte) :
    (copyLine room cells).1 ++ (copyLine room cells).2.1 = cells ∧
      (copyLine room cells).1.length ≤ room ∧
      (0 < room → cells ≠ [] → 0 < (copyLine room cells).1.length) := by
  induction cells generalizing room with
  | nil => cases room <;> simp [copyLine]
  | cons c rest ih =>
    cases room with
    | zero => simp [copyLine]
    | succ room =>
      obtain ⟨happ, hle, -⟩ := ih room
      simp only [copyLine]
      split
      · simp
      · exact ⟨by simp [happ], by simp; omega, by simp⟩

theorem takeLine_spec (room : Nat) (first cells : List InByte) :
    (takeLine room first cells).1 ++ (takeLine room first cells).2.1 = cells ∧
      (takeLine room first cells).1.length ≤ room := by
  unfold takeLine
  split
  · simp
  · exact ⟨(copyLine_spec room cells).1, (copyLine_spec room cells).2.1⟩

/-- A round without a byte from `memcached_io_read` copies at least one from the buffer. -/
theorem takeLine_pos {room : Nat} (hr : 0 < room) (hc : cells ≠ []) :
    0 < (takeLine room [] cells).1.length :=
  (copyLine_spec room cells).2.2 hr hc

/-- `memcached_io_readline` reads a line, or finds that there is no room for it, or fails. -/
theorem readlineLoop_reads (hf : size ≤ acc.length + fuel) (ha : acc.length < size) :
    Ensures (readlineLoop K size fuel acc) s fun r s' =>
      (r.1 = .success ∧ s'.valid = s.valid ∨ r.1 = .protocolError ∨ r.1.isIoFailure = true) ∧
        Hears K s s' := by
  induction fuel generalizing acc s with
  | zero => omega
  | succ fuel ih =>
    simp only [readlineLoop, ensures_bind, ensures_get]
    have hfirst : Ensures
        (if s.readBuffer = [] then memcachedIoRead K 1 else pure (.success, [])) s fun r s' =>
          (r.1 = .success ∧ s'.valid = s.valid ∧ (r.2.length = 1 ∨ r.2 = [] ∧ s'.readBuffer ≠ []) ∨
            r.1.isIoFailure = true) ∧ Hears K s s' :=
      ensures_ite (fun _ => (memcachedIoRead_reads 1 s).mono fun r t ht =>
          ⟨ht.1.imp (fun h => ⟨h.1, h.2.valid, .inl h.2.length⟩) id, ht.2⟩)
        fun hb => ensures_pure.mpr ⟨.inl ⟨rfl, rfl, .inr ⟨rfl, hb⟩⟩, .rfl⟩
    refine hfirst.mono fun r t ht => ?_
    obtain ⟨rc, first⟩ := r
    obtain ⟨⟨rfl, hv, hlen⟩ | hfail, hr⟩ := ht
    · simp only [ReturnT.isFailed, Bool.false_eq_true, if_false, ensures_bind, ensures_get, ensures_set]
      have hspec := takeLine_spec (size - (acc ++ first).length) first t.readBuffer
      have hpos : first.length ≤ 1 ∧ 0 < first.length +
          (takeLine (size - (acc ++ first).length) first t.readBuffer).1.length := by
        rcases hlen with h1 | ⟨h0, hb⟩
        · exact ⟨Nat.le_of_eq h1, Nat.add_pos_left (h1 ▸ Nat.one_pos) _⟩
        · obtain rfl : first = [] := h0
          exact ⟨Nat.zero_le _, Nat.add_pos_right _ (takeLine_pos (by simp; omega) hb)⟩
      generalize takeLine (size - (acc ++ first).length) first t.readBuffer = taken at hspec hpos ⊢
      obtain ⟨line, rest, complete⟩ := taken
      obtain ⟨happ, hroom⟩ := hspec
      have htake : Hears K s (t.consume line rest) := hr.trans (.consume (by rw [← happ]; simp))
      refine ensures_ite (fun _ => ensures_pure.mpr ⟨.inr (.inl rfl), htake⟩) fun hn => ?_
      refine ensures_ite (fun _ => ensures_pure.mpr ⟨.inl ⟨rfl, hv⟩, htake⟩) fun _ => ?_
      simp only [length_append] at hroom hn hpos
      refine (ih ?_ ?_).mono fun r u hu => ⟨hu.1.imp (fun h => ⟨h.1, h.2.trans hv⟩) id, htake.trans hu.2⟩
      all_goals simp only [length_append]; omega
    · have hrc : rc.isFailed = true :=
        ReturnT.isFailed_of_isFatal (ReturnT.isFatal_of_isIoFailure hfail)
      have hnp : rc ≠ .inProgress := by rintro rfl; simp [ReturnT.isIoFailure] at hfail
      simp only [hrc, if_true, if_neg hnp]
      exact ensures_pure.mpr ⟨.inr (.inr hfail), hr⟩

theorem memcachedIoReadline_reads (hs : 0 < size) (s : St κ) :
    Ensures (memcachedIoReadline K size) s fun r s' =>
      (r.1 = .success ∧ s'.valid = s.valid ∨ r.1 = .protocolError ∨ r.1.isIoFailure = true) ∧
        Hears K s s' :=
  readlineLoop_reads (by simp) (by simpa using hs)

/-! ## One response -/

/-- Counters, versions and errors were noted, and the connection is as it was. -/
structure Notes (K : Kernel κ) (s s' : St κ) : Prop extends Hears K s s' where
  valid : s'.valid = s.valid

instance : Std.Refl (Notes K) := ⟨fun _ => ⟨.rfl, rfl⟩⟩
instance : IsTrans (St κ) (Notes K) :=
  ⟨fun _ _ _ h h' => ⟨h.toHears.trans h'.toHears, h'.valid.trans h.valid⟩⟩

theorem Notes.of {cursor : Nat} {major minor micro : UInt8} (h : SameSettings s.memc memc) :
    Notes K s { s with memc := memc, cursorActive := cursor, majorVersion := major, minorVersion := minor,
                       microVersion := micro } :=
  ⟨⟨⟨Nat.le_refl _, h, Eq.refl _, Eq.refl _, Eq.refl _, prefix_rfl, Eq.refl _, Eq.refl _,
    .inl ⟨Eq.refl _, Eq.refl _, Nat.le_refl _⟩⟩, Eq.refl _⟩, Eq.refl _⟩

theorem setErrorText_keeps {message : String} : Keeps (Notes K) (· = rc) (setErrorText rc message) :=
  fun s => (setErrorText_idle rc message s).mono fun _ _ h => ⟨h.1, h.2.toHears, h.2.valid⟩

theorem setError_keeps (rc : ReturnT) : Keeps (Notes K) (· = rc) (setError rc) :=
  fun s => (setError_idle rc s).mono fun _ _ h => ⟨h.1, h.2.toHears, h.2.valid⟩

theorem closeSocket_keeps : Keeps (Hears K) (fun _ => True) (closeSocket K) :=
  fun s => (closeSocket_closes s).mono fun _ _ h => ⟨trivial, h.2⟩

theorem responseIncrement_keeps : Keeps (Notes K) (fun _ => True) (responseIncrement : Act κ Unit) :=
  .modify fun _ => .of .rfl

theorem responseDecrement_keeps : Keeps (Notes K) (fun _ => True) (responseDecrement : Act κ Unit) :=
  .modify fun _ => .of .rfl

theorem readVersion_changes {R : St κ → St κ → Prop} [Std.Refl R] [IsTrans (St κ) R]
    (hnote : ∀ s major minor micro,
      R s { s with majorVersion := major, minorVersion := minor, microVersion := micro })
    (herror : ∀ s rc message, R s { s with memc := s.memc.errorSet rc message }) (text : Bytes) :
    Keeps R (fun rc => rc = .success ∨ rc = .unknownReadFailure) (readVersion text) := by
  have refuse (part : String) : Keeps R (fun rc => rc = .success ∨ rc = .unknownReadFailure) (do
        modify fun s : St κ => { s with majorVersion := 255, minorVersion := 255, microVersion := 255 }
        setErrorText .unknownReadFailure ("strtol() failed to parse " ++ part ++ " version")) :=
    .bind (.modify fun s => hnote s _ _ _) fun _ _ =>
      .bind (.modify fun s => herror s _ _) fun _ _ => .pure (.inr rfl)
  unfold readVersion
  split
  · exact refuse _
  · refine .ite (refuse _) (.bind (.modify fun s => hnote s _ _ _) fun _ _ => ?_)
    split
    · exact refuse _
    · refine .bind (.modify fun s => hnote s _ _ _) fun _ _ => ?_
      split
      · exact refuse _
      · exact .bind (.modify fun s => hnote s _ _ _) fun _ _ => .pure (.inl rfl)

theorem readVersion_keeps (text : Bytes) :
    Keeps (Notes K) (fun rc => rc = .success ∨ rc = .unknownReadFailure) (readVersion text) :=
  readVersion_changes (fun _ _ _ _ => .of .rfl) (fun _ rc message => .of (.errorSet _ rc message)) text

/-- A packet that was read to its end is not skipped, and no packet has the code of the text `DELETED`. -/
def OfPacket (rc : ReturnT) : Prop := rc ≠ .fetchNotFinished ∧ rc ≠ .deleted

instance (rc : ReturnT) : Decidable (OfPacket rc) := by
  unfold OfPacket
  infer_instance

theorem ReturnT.ofPacket_of_loses (h : rc.loses = true) : OfPacket rc := by
  refine ⟨?_, ?_⟩ <;> rintro rfl <;> cases h

theorem binaryStatus_keeps (status : Nat) :
    Keeps (Notes K) OfPacket (binaryStatus status : Act κ ReturnT) := by
  unfold binaryStatus
  split <;> first
    | exact .pure (by decide)
    | exact (setError_keeps _).mono (by rintro _ rfl; decide)

/-- A read with a code: what is read comes over the connection, or the code is fatal. -/
def Receives (K : Kernel κ) (m : Act κ (ReturnT × List InByte)) : Prop :=
  ∀ s : St κ, Ensures m s fun r t => (r.1 = .success ∧ t.valid = s.valid ∨ r.1.loses = true) ∧ Hears K s t

theorem memcachedIoRead_receives {length : Nat} : Receives K (memcachedIoRead K length) := fun s =>
  (memcachedIoRead_reads length s).mono fun _ _ h =>
    ⟨h.1.imp (fun h => ⟨h.1, h.2.valid⟩) ReturnT.loses_of_isIoFailure, h.2⟩

theorem memcachedSafeRead_receives (size : Nat) : Receives K (memcachedSafeRead K size) := fun s =>
  (memcachedSafeRead_reads size s).mono fun _ _ h =>
    ⟨h.1.imp (fun h => ⟨h.1, h.2.valid⟩) ReturnT.loses_of_isIoFailure, h.2⟩

theorem memcachedIoReadline_receives (hs : 0 < size) : Receives K (memcachedIoReadline K size) := fun s =>
  (memcachedIoReadline_reads hs s).mono fun _ _ h =>
    ⟨h.1.imp id fun hf => hf.elim (fun h => h ▸ rfl) ReturnT.loses_of_isIoFailure, h.2⟩

/-- An answer ends with a code of `P`; the connection is as it was, or the code is one that closes it. -/
def Answering (K : Kernel κ) (P : ReturnT → Prop) (m : Act κ Reply) : Prop :=
  ∀ s : St κ, Ensures m s fun reply t =>
    P reply.rc ∧ (reply.rc.loses = true ∨ t.valid = s.valid) ∧ Hears K s t

namespace Answering

variable {α : Type} {P : ReturnT → Prop} {m m' : Act κ Reply} {buffer : Bytes} {result : Result}

theorem pure {reply : Reply} (h : P reply.rc) : Answering K P (pure reply) :=
  fun _ => ensures_pure.mpr ⟨h, .inr rfl, .rfl⟩

theorem after {m : Act κ α} {Q : α → Prop} {f : α → Act κ Reply} (h : Keeps (Notes K) Q m)
    (hf : ∀ a, Q a → Answering K P (f a)) : Answering K P (m >>= f) := fun s =>
  (h s).bind fun a t ht => (hf a ht.1 t).mono fun _ _ hu =>
    ⟨hu.1, hu.2.1.imp id fun hv => hv.trans ht.2.valid, ht.2.toHears.trans hu.2.2⟩

theorem code {m : Act κ ReturnT} {Q : ReturnT → Prop} (h : Keeps (Notes K) Q m) (hQ : ∀ rc, Q rc → P rc) :
    Answering K P (do let rc ← m; return ⟨rc, buffer, result⟩) :=
  .after h fun rc hrc => .pure (hQ rc hrc)

theorem ite {c : Prop} [Decidable c] (ht : c → Answering K P m) (hf : ¬c → Answering K P m') :
    Answering K P (if c then m else m') := fun s => ensures_ite (fun h => ht h s) fun h => hf h s

theorem read {m : Act κ (ReturnT × List InByte)} {f : ReturnT × List InByte → Act κ Reply} (h : Receives K m)
    (hok : ∀ cells, Answering K P (f (.success, cells))) (hfail : ∀ rc cells, rc.loses = true →
      Keeps (Hears K) (fun reply => P reply.rc ∧ reply.rc.loses = true) (f (rc, cells))) :
    Answering K P (m >>= f) := fun s =>
  (h s).bind fun r t ht => by
    obtain ⟨rc, cells⟩ := r
    obtain ⟨⟨rfl, hv⟩ | hl, hr⟩ := ht
    · exact (hok cells t).mono fun _ _ hu => ⟨hu.1, hu.2.1.imp id fun h => h.trans hv, hr.trans hu.2.2⟩
    · exact (hfail rc cells hl t).mono fun _ _ hu => ⟨hu.1.1, .inl hu.1.2, hr.trans hu.2⟩

end Answering

theorem setError_fails {P : ReturnT → Prop} (hP : P rc) (hl : rc.loses = true) :
    Keeps (Hears K) (fun reply => P reply.rc ∧ reply.rc.loses = true)
      (do let rc ← setError rc; return (⟨rc, buffer, result⟩ : Reply)) := fun s =>
  (setError_keeps (K := K) rc s).bind fun _ _ ht => ensures_pure.mpr ⟨ht.1.symm ▸ ⟨hP, hl⟩, ht.2.toHears⟩

theorem textualValueFetch_answering {buffer : Bytes} :
    Answering K (· ≠ .deleted) (textualValueFetch K buffer) := by
  refine fun s => ensures_bind.mpr (ensures_get.mpr ?_)
  split
  · refine (closeSocket_closes s).bind fun _ t ht => ensures_pure.mpr ⟨nofun, .inl rfl, ht.2⟩
  · refine Answering.ite (P := (· ≠ .deleted)) (fun _ => .code (setError_keeps _) (by rintro _ rfl; exact nofun))
      (fun _ => ?_) s
    refine .read memcachedIoRead_receives (fun cells => ?_) fun rc cells hl => ?_
    · dsimp only
      rw [if_neg (by decide)]
      split
      · exact .pure nofun
      · exact .code setErrorText_keeps (by rintro _ rfl; decide)
    · dsimp only
      rw [if_pos (ReturnT.isFailed_of_loses hl)]
      refine .ite (closeSocket_keeps.bind fun _ _ =>
        setError_fails (P := (· ≠ .deleted)) nofun rfl) (.pure ⟨?_, hl⟩)
      exact (ReturnT.ofPacket_of_loses hl).2

theorem textualDispatch_answering (buffer : Bytes) (totalRead : Nat) (result : Result) :
    Answering K (· = .deleted → starts "DELETED" buffer = true) (textualDispatch K buffer totalRead result) := by
  have reply {Q : ReturnT → Prop} {m : Act κ ReturnT} (h : Keeps (Notes K) Q m) (hQ : ∀ rc, Q rc → rc ≠ .deleted) :
      Answering K (· = .deleted → starts "DELETED" buffer = true)
        (do let rc ← m; return (⟨rc, buffer, result⟩ : Reply)) := .code h fun rc hrc h => absurd h (hQ rc hrc)
  have known {rc : ReturnT} (h : rc ≠ .deleted) :
      Answering K (· = .deleted → starts "DELETED" buffer = true)
        (do let rc ← pure rc; return (⟨rc, buffer, result⟩ : Reply)) :=
    reply (Q := (· ≠ .deleted)) (.pure h) fun _ h => h
  have counted {rc : ReturnT} (h : rc ≠ .deleted) : Keeps (Notes K) (· ≠ .deleted)
      (do responseIncrement; return rc : Act κ ReturnT) :=
    responseIncrement_keeps.bind fun _ _ => .pure h
  have told (rc : ReturnT) (h : rc ≠ .deleted) (message : String) :
      Answering K (· = .deleted → starts "DELETED" buffer = true)
        (do let rc ← setErrorText rc message; return (⟨rc, buffer, result⟩ : Reply)) :=
    reply setErrorText_keeps (by rintro _ rfl; exact h)
  unfold textualDispatch
  refine .ite (fun _ => .after responseIncrement_keeps fun _ _ s => ?_) fun _ => ?_
  · exact (textualValueFetch_answering s).mono fun _ _ h => ⟨fun hd => absurd hd h.1, h.2⟩
  refine .ite (fun _ => reply (readVersion_keeps _) (by rintro _ (rfl | rfl) <;> decide)) fun _ => ?_
  refine .ite (fun _ => known nofun) fun _ => .ite (fun _ => reply (counted nofun) fun _ h => h) fun _ => ?_
  refine .ite (fun _ => .ite (fun _ => known nofun) fun _ => .ite (fun _ => known nofun) fun _ =>
    .ite (fun _ => known nofun) fun _ => told _ (by decide) _) fun _ => .ite (fun _ => known nofun) fun _ => ?_
  refine .ite (fun h => .pure fun _ => h) fun _ => ?_
  iterate 6 refine .ite (fun _ => known nofun) fun _ => ?_
  refine .ite (fun _ => reply (counted nofun) fun _ h => h) fun _ => .ite (fun _ => told _ (by decide) _) fun _ => ?_
  refine .ite (fun _ => ?_) fun _ => .code setErrorText_keeps (by rintro _ rfl; exact nofun)
  split
  · exact .code setErrorText_keeps (by rintro _ rfl; exact nofun)
  · exact .pure nofun

/-- An answer was read: the connection is as it was, or the code is one that closes it. -/
structure AnswerRead (K : Kernel κ) (s : St κ) (rc : ReturnT) (t : St κ) : Prop extends Reads K s t where
  log : t.purgeLog = s.purgeLog
  steady : rc.loses = true ∨ t.valid = s.valid

theorem Hears.answer {reply : List InByte} (h : Hears K s t) (hv : t.valid = s.valid)
    (hu : (rc.loses = true ∨ u.valid = t.valid) ∧ Hears K { t with lastReply := reply } u) :
    AnswerRead K s rc u where
  toReads :=
    have hnote : Reads K t { t with lastReply := reply } :=
      ⟨Nat.le_refl _, .rfl, Eq.refl _, Eq.refl _, Eq.refl _, prefix_rfl, Eq.refl _, Eq.refl _,
        .inl ⟨Eq.refl _, Eq.refl _, Nat.le_refl _⟩⟩
    (h.toReads.trans hnote).trans hu.2.toReads
  log := hu.2.log.trans h.log
  steady := hu.1.imp id fun h => h.trans hv

theorem Hears.answer_loses (h : Hears K s t) (hl : rc.loses = true) : AnswerRead K s rc t :=
  ⟨h.toReads, h.log, .inl hl⟩

theorem textualReadOneResponse_reads (hb : 0 < bufferLength) {buffer : Bytes} {result : Result}
    (s : St κ) :
    Ensures (textualReadOneResponse K bufferLength buffer result) s fun reply t => AnswerRead K s reply.rc t := by
  refine (memcachedIoReadline_receives hb s).bind fun r t ht => ?_
  obtain ⟨rc, line⟩ := r
  obtain ⟨⟨rfl, hv⟩ | hl, hr⟩ := ht
  · refine ensures_ite (fun h => absurd h (by decide)) fun _ => ensures_bind.mpr (ensures_modify.mpr ?_)
    exact (textualDispatch_answering _ _ _ _).mono fun _ _ hu => hr.answer hv hu.2
  · refine ensures_ite (fun _ => ensures_pure.mpr (hr.answer_loses hl)) fun h => ?_
    exact absurd (ReturnT.isFailed_of_loses hl) h

/-- A part of a packet that cannot be read makes the code fatal. -/
theorem readPart_answering {f : Bytes → Act κ Reply} (hf : ∀ bytes, Answering K OfPacket (f bytes)) :
    Answering K OfPacket (readPart K size (return ⟨.unknownReadFailure, buffer, result⟩) f) := by
  refine .read (memcachedSafeRead_receives _) (fun cells => ?_) fun rc cells hl => ?_
  · dsimp only
    rw [if_pos rfl]
    exact hf _
  · dsimp only
    rw [if_neg (ReturnT.ne_success_of_loses hl)]
    exact .pure ⟨⟨nofun, nofun⟩, rfl⟩

theorem binaryValue_answering {header : Header} {buffer : Bytes} :
    Answering K OfPacket (binaryValue K header buffer) := by
  unfold binaryValue
  refine readPart_answering fun flags => readPart_answering fun key s => ensures_bind.mpr (ensures_get.mpr ?_)
  refine Answering.ite (fun _ => .code (setError_keeps _) (by rintro _ rfl; decide)) (fun _ => ?_) s
  exact readPart_answering fun value => .code (binaryStatus_keeps _) fun _ h => h

theorem binarySuccess_answering {header : Header} {buffer : Bytes} {result : Result} :
    Answering K OfPacket (binarySuccess K header bufferLength buffer result) := by
  have fail {buffer : Bytes} {result : Result} :
      Answering K OfPacket (return ⟨.unknownReadFailure, buffer, result⟩) := .pure ⟨nofun, nofun⟩
  have finish {buffer : Bytes} {result : Result} : Answering K OfPacket
      (do let rc ← binaryStatus header.status; return ⟨rc, buffer, result⟩) :=
    .code (binaryStatus_keeps _) fun _ h => h
  have refused {buffer : Bytes} {result : Result} : Answering K OfPacket
      (do let rc ← setError .unknownReadFailure; return ⟨rc, buffer, result⟩) :=
    .code (setError_keeps _) (by rintro _ rfl; decide)
  unfold binarySuccess
  split
  · exact .after responseIncrement_keeps fun _ _ => binaryValue_answering
  · exact binaryValue_answering
  · exact .ite (fun _ => refused) fun _ => readPart_answering fun _ => finish
  · exact .ite (fun _ => refused) fun _ => readPart_answering fun _ => finish
  · exact .ite (fun _ => fail) fun _ => readPart_answering fun _ => finish
  · refine readPart_answering fun text => .after (readVersion_keeps text) fun rc hrc => ?_
    exact .ite (fun _ => finish) fun _ => .pure (by rcases hrc with rfl | rfl <;> exact ⟨nofun, nofun⟩)
  · have hread : Receives K (if header.bodylen = 4 then memcachedSafeRead K 4 else pure (.success, [])) := fun s =>
      ensures_ite (fun _ => memcachedSafeRead_receives 4 s) fun _ => ensures_pure.mpr ⟨.inl ⟨rfl, rfl⟩, .rfl⟩
    refine .read hread (fun _ => .code (setError_keeps _) (by rintro _ rfl; decide)) fun rc _ hl => ?_
    exact setError_fails (ReturnT.ofPacket_of_loses hl) hl
  iterate 9 exact .pure ⟨nofun, nofun⟩
  · exact .ite (fun _ => .pure ⟨nofun, nofun⟩) fun _ => .ite (fun _ => fail) fun _ =>
      readPart_answering fun _ => readPart_answering fun _ => finish
  · exact readPart_answering fun _ => finish
  · exact readPart_answering fun _ => finish
  · exact refused

/-- The body of an error is taken whole. -/
theorem drainBody_reads {bodylen : Nat} (hf : bodylen ≤ fuel) :
    Ensures (drainBody K fuel bodylen) s fun rc s' =>
      (rc = .success ∧ (∃ cells, Drawn K bodylen s cells s') ∨ rc = .unknownReadFailure) ∧ Hears K s s' := by
  induction fuel generalizing bodylen s with
  | zero =>
    obtain rfl : bodylen = 0 := by omega
    exact ensures_pure.mpr ⟨.inl ⟨rfl, [], .rfl⟩, .rfl⟩
  | succ fuel ih =>
    cases bodylen with
    | zero => exact ensures_pure.mpr ⟨.inl ⟨rfl, [], .rfl⟩, .rfl⟩
    | succ bodylen =>
      refine (memcachedSafeRead_reads _ s).bind fun r t ht => ?_
      obtain ⟨⟨h1, htaken⟩ | hfail, hr⟩ := ht
      · have hmin : 1 ≤ min (bodylen + 1) smallStringLen := by simp only [smallStringLen]; omega
        simp only [h1, if_true]
        refine (ih (by omega)).mono fun rc u hu => ⟨hu.1.imp (fun h => ⟨h.1, ?_⟩) id, hr.trans hu.2⟩
        obtain ⟨-, cells, hcells⟩ := h
        have htotal := htaken.trans hcells
        rw [Nat.add_sub_cancel' (Nat.min_le_left _ _)] at htotal
        exact ⟨_, htotal⟩
      · have hrc : r.1 ≠ .success := ReturnT.ne_success_of_loses (ReturnT.loses_of_isIoFailure hfail)
        simp only [if_neg hrc]
        exact (setError_idle _ t).mono fun rc u hu => ⟨.inr hu.1, hr.trans hu.2.toHears⟩

/-- A packet that is thrown away used up a header. -/
theorem binaryReadOneResponse_reads {buffer : Bytes} {result : Result} (s : St κ) :
    Ensures (binaryReadOneResponse K bufferLength buffer result) s fun reply s' =>
      (reply.rc = .fetchNotFinished → s'.left K < s.left K) ∧ reply.rc ≠ .deleted ∧ AnswerRead K s reply.rc s' := by
  refine (memcachedSafeRead_reads _ s).bind fun r t ht => ?_
  obtain ⟨⟨h1, htaken⟩ | hfail, hr⟩ := ht
  · simp only [h1, ne_eq, not_true, if_false, ensures_bind, ensures_modify]
    have finished {m : Act κ Reply} (hm : Answering K OfPacket m) {u : St κ}
        (hu : Hears K { t with lastReply := r.2 } u) (hv : u.valid = t.valid) : Ensures m u fun reply s' =>
          (reply.rc = .fetchNotFinished → s'.left K < s.left K) ∧ reply.rc ≠ .deleted ∧ AnswerRead K s reply.rc s' :=
      (hm u).mono fun reply v h => ⟨fun hskip => absurd hskip h.1.1, h.1.2,
        hr.answer htaken.valid ⟨h.2.1.imp id fun h => h.trans hv, hu.trans h.2.2⟩⟩
    refine ensures_ite (fun _ => ?_) fun _ => ensures_ite (fun _ => ?_) fun _ => ?_
    · exact finished (.code (setError_keeps _) (by rintro _ rfl; decide)) .rfl rfl
    · exact finished binarySuccess_answering .rfl rfl
    · refine (drainBody_reads (Nat.le_refl _)).bind fun rc u hu => ?_
      obtain ⟨⟨rfl, cells, hdrained⟩ | rfl, hu⟩ := hu
      · simp only [not_true, if_false]
        refine ensures_ite (fun _ => ensures_pure.mpr ⟨fun _ => ?_, by simp, ?_⟩) fun _ => ?_
        · have hleft := htaken.left
          have hdrain := hdrained.left
          simp only [St.left, headerLength] at hleft hdrain ⊢
          omega
        · exact hr.answer htaken.valid ⟨.inr hdrained.valid, hu⟩
        · exact finished (.code (binaryStatus_keeps _) fun _ h => h) hu hdrained.valid
      · exact ensures_pure.mpr ⟨by simp, by simp, hr.answer htaken.valid ⟨.inl rfl, hu⟩⟩
  · have hl := ReturnT.loses_of_isIoFailure hfail
    simp only [ne_eq, ReturnT.ne_success_of_loses hl, not_false_eq_true, if_true]
    have hpacket := ReturnT.ofPacket_of_loses hl
    exact ensures_pure.mpr ⟨fun h => absurd h hpacket.1, hpacket.2, hr.answer_loses hl⟩

theorem binaryReadLoop_reads (bufferLength : Nat) (hf : s.left K < fuel) :
    Ensures (binaryReadLoop K bufferLength fuel buffer result) s fun reply s' =>
      reply.rc ≠ .deleted ∧ AnswerRead K s reply.rc s' := by
  induction fuel generalizing buffer result s with
  | zero => omega
  | succ fuel ih =>
    refine (binaryReadOneResponse_reads s).bind fun reply t ht => ?_
    refine ensures_ite (fun h => ?_) fun _ => ensures_pure.mpr ht.2
    -- an answer that is skipped was read to its end
    have hv : t.valid = s.valid := ht.2.2.steady.resolve_left (by rw [h]; decide)
    exact (ih (Nat.lt_of_lt_of_le (ht.1 h) (Nat.le_of_lt_succ hf))).mono fun _ _ hu =>
      ⟨hu.1, ht.2.2.toReads.trans hu.2.toReads, hu.2.log.trans ht.2.2.log, hu.2.steady.imp id fun h => h.trans hv⟩

variable (buffer : Bytes) (result : Result)

/-- `_read_one_response` returns, and closes the connection if the code is fatal. The text protocol
needs a line buffer. -/
theorem readOneResponse_reads {s : St κ} (hb : s.memc.flags.binaryProtocol = true ∨ 0 < bufferLength) :
    Ensures (readOneResponse K bufferLength buffer result) s fun reply s' =>
      (reply.rc.isFatal = true → s'.Closed) ∧ (reply.rc.isFatal = true ∨ s'.valid = s.valid) ∧
        s'.purgeLog = s.purgeLog ∧ Reads K s s' := by
  refine (responseDecrement_keeps (K := K) s).bind fun _ t ht => ?_
  have hflags : t.memc.flags = s.memc.flags := by rw [ht.2.memc]
  have hread : Ensures (if t.memc.flags.binaryProtocol then
        binaryReadLoop K bufferLength (t.readBuffer.length + K.supply t.net + 1) buffer result
      else textualReadOneResponse K bufferLength buffer result) t fun reply u => AnswerRead K t reply.rc u := by
    refine ensures_ite (fun _ => ?_) fun hn => ?_
    · exact (binaryReadLoop_reads _ (Nat.lt_succ_self _)).mono fun _ _ hu => hu.2
    · have hpos : 0 < bufferLength := hb.resolve_left fun h => hn (by rw [hflags]; exact h)
      exact textualReadOneResponse_reads hpos t
  simp only [ensures_bind, ensures_get]
  refine hread.mono fun reply u hu => ?_
  have hreads := ht.2.toReads.trans hu.toReads
  have hlog := hu.log.trans ht.2.log
  have hclose : Ensures (if reply.rc.isFatal then closeSocket K else pure ()) u fun _ v =>
      (reply.rc.isFatal = true → v.Closed) ∧ (reply.rc.isFatal = true ∨ v.valid = s.valid) ∧
        v.purgeLog = s.purgeLog ∧ Reads K s v := by
    refine ensures_ite (fun hf => ?_) fun hf => ensures_pure.mpr ⟨fun h => absurd h hf, .inr ?_, hlog, hreads⟩
    · exact (closeSocket_closes u).mono fun _ v hv =>
        ⟨fun _ => hv.1, .inl hf, hv.2.log.trans hlog, hreads.trans hv.2.toReads⟩
    · exact (hu.steady.resolve_left fun h => hf (ReturnT.isFatal_of_loses h)).trans ht.2.valid
  exact hclose.mono fun _ v hv => ensures_pure.mpr hv

theorem memcachedReadOneResponse_reads (s : St κ) :
    Ensures (memcachedReadOneResponse K buffer result) s fun reply s' =>
      (reply.rc.isFatal = true → s'.Closed) ∧ (reply.rc.isFatal = true ∨ s'.valid = s.valid) ∧
        s'.purgeLog = s.purgeLog ∧ Reads K s s' :=
  readOneResponse_reads buffer result (.inr (by decide))

end LM
