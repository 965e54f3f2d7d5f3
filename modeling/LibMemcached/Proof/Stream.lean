import LibMemcached.Proof.Reading

/-!
# Reading as consuming a byte stream

What the client has not read yet is the read buffer followed by what is on its way (`Conn.unread`).
Where `_io_fill` gets the next piece of that stream (`Fills`) the readers of `io.cc` are a plain
reader of it: `memcached_io_read` takes the first bytes (`memcachedIoRead_fills`) and
`memcached_io_readline` the bytes up to a line feed (`memcachedIoReadline_fills`, with `plainLine` for
the plain reader). How the stream was cut shows in the read buffer only, which the rest of the state
(`St.view`) leaves out. A kernel may deliver the pending bytes in whatever pieces (`Feeds`), and it
may also make the client wait for them (`Trickles`).
-/

namespace LM

open List

variable {κ : Type} {K : Kernel κ} {pending : κ → List InByte} {P : Memcached → Prop} {s : St κ}
  {fuel length size : Nat} {acc : List InByte} {n : Nat} {line : List InByte}

/-- `recv` delivers the pending bytes in order, some at a time. -/
structure Feeds (K : Kernel κ) (pending : κ → List InByte) : Prop where
  recv (k : κ) (cap : Nat) : 0 < cap → pending k ≠ [] →
    ∃ cells k', K.recv k cap = (.data cells, k') ∧ cells ++ pending k' = pending k

/-- `recv` delivers the pending bytes in order, some at a time, or has nothing to deliver yet; then
`poll` reports that there is something to read. -/
structure Trickles (K : Kernel κ) (pending : κ → List InByte) : Prop where
  recv (k : κ) (cap : Nat) : 0 < cap → pending k ≠ [] →
    (∃ cells k', K.recv k cap = (.data cells, k') ∧ cells ++ pending k' = pending k) ∨
      ∃ e k', K.recv k cap = (.error e, k') ∧ (e = .eintr ∨ e = .eagain) ∧ pending k' = pending k
  poll (k : κ) (t : Int32) : pending k ≠ [] →
    ∃ k', K.poll k .pollIn t = (.ready, k') ∧ pending k' = pending k

/-- When nothing is pending the stream is at its end. -/
structure Ends (K : Kernel κ) (pending : κ → List InByte) : Prop where
  eof (k : κ) (cap : Nat) : 0 < cap → pending k = [] →
    ∃ k', K.recv k cap = (.eof, k') ∧ pending k' = []

/-- What the client has still to read. -/
def Conn.unread (pending : κ → List InByte) (c : Conn κ) : List InByte := c.readBuffer ++ pending c.net

/-- The state without what depends on how the incoming stream is cut. -/
def St.view (s : St κ) : St Unit :=
  { s with net := (), readBuffer := [], ioBytesSent := 0 }

/-- The next `n` bytes of the stream were read, and nothing else happened. -/
structure Advance (pending : κ → List InByte) (s : St κ) (n : Nat) (s' : St κ) : Prop where
  unread : s'.unread pending = (s.unread pending).drop n
  view : s'.view = { s.view with consumed := s.consumed ++ (s.unread pending).take n }
  room : s.readBuffer.length ≤ maxBuffer → s'.readBuffer.length ≤ maxBuffer

namespace Advance

variable {s s' s'' : St κ} {n m : Nat}

theorem zero : Advance pending s 0 s := ⟨rfl, by simp [St.view], id⟩

variable (h : Advance pending s n s')
include h

theorem trans (h' : Advance pending s' m s'') : Advance pending s (n + m) s'' where
  unread := by rw [h'.unread, h.unread, drop_drop]
  view := by
    have hc : s'.consumed = s.consumed ++ (s.unread pending).take n := congrArg (·.consumed) h.view
    rw [h'.view, h.view, h.unread, hc, take_add, append_assoc]
  room hr := h'.room (h.room hr)

theorem valid : s'.valid = s.valid := congrArg (·.valid) h.view

theorem memc : s'.memc = s.memc := congrArg (·.memc) h.view

end Advance

/-- The stream ended: the connection is closed and the error recorded. -/
def St.lost (v : St Unit) : St Unit :=
  { v with
    valid := false, cursorActive := 0, writeBuffer := [],
    majorVersion := 255, minorVersion := 255, microVersion := 255, backoff.inTimeout := false,
    memc := v.memc.errorSet .connectionFailure "::rec() returned zero, server has disconnected" }

/-- All that was left of the stream was read, and then its end. -/
structure Ended (pending : κ → List InByte) (s s' : St κ) : Prop where
  readBuffer : s'.readBuffer = []
  view : s'.view = St.lost { s.view with consumed := s.consumed ++ s.unread pending }

theorem Ended.of_advance {s' s'' : St κ} (h : Advance pending s n s') (h' : Ended pending s' s'') :
    Ended pending s s'' where
  readBuffer := h'.readBuffer
  view := by
    have hc : s'.consumed = s.consumed ++ (s.unread pending).take n := congrArg (·.consumed) h.view
    rw [h'.view, h.view, h.unread, hc, append_assoc, take_append_drop]

/-! ## Filling the read buffer -/

/-- Under settings with `P`, `_io_fill` gets the next piece of the stream. -/
structure Fills (K : Kernel κ) (pending : κ → List InByte) (P : Memcached → Prop) : Prop where
  fill (s : St κ) : s.valid = true → P s.memc → s.readBuffer = [] → pending s.net ≠ [] →
    Ensures (ioFill K) s fun rc s' =>
      rc = .success ∧ s'.readBuffer ≠ [] ∧ Advance pending s 0 s'

theorem Feeds.fills (hf : Feeds K pending) : Fills K pending fun _ => True where
  fill s _ _ hb hp := by
    obtain ⟨cells, net, hrecv, happ⟩ := hf.recv s.net maxBuffer (by decide) hp
    obtain ⟨hne, hle⟩ := K.recv_data s.net maxBuffer cells (by rw [hrecv]) (by decide)
    simp only [ioFill, ioFillLoop, ensures_bind, ensures_get, hrecv, ensures_set]
    exact ensures_pure.mpr ⟨rfl, hne, by simp [Conn.unread, hb, happ], by simp [St.view], fun _ => hle⟩

section

variable (hd : Trickles K pending) (hv : s.valid = true) (ht : s.memc.pollTimeout ≠ 0)
include hd hv ht

/-- A wait for a kernel that has something pending. -/
theorem memcachedIoPoll_trickles (hp : pending s.net ≠ []) :
    Ensures (memcachedIoPoll K .pollIn) s fun rc s' => rc = .success ∧ ∃ net,
      s' = { s with net := net } ∧ pending net = pending s.net ∧
        K.patience net ≤ K.patience s.net := by
  obtain ⟨net, hpoll, hsame⟩ := hd.poll s.net s.memc.pollTimeout hp
  have hpat := K.poll_patience s.net .pollIn s.memc.pollTimeout
  rw [hpoll] at hpat
  simp only [memcachedIoPoll, ensures_bind, ensures_get, if_neg ht, hv, Bool.not_true,
    Bool.false_eq_true, if_false, hpoll, ensures_set]
  exact ensures_pure.mpr ⟨rfl, net, rfl, hsame, hpat⟩

/-- Each refusal takes from the patience of the kernel, so the loop of `_io_fill` ends with data. -/
theorem ioFillLoop_trickles (hb : s.readBuffer = []) (hp : pending s.net ≠ [])
    (hfuel : K.patience s.net < fuel) : Ensures (ioFillLoop K fuel) s fun rc s' =>
      rc = .success ∧ s'.readBuffer ≠ [] ∧ Advance pending s 0 s' := by
  induction fuel generalizing s with
  | zero => omega
  | succ fuel ih =>
    simp only [ioFillLoop, ensures_bind, ensures_get]
    rcases hd.recv s.net maxBuffer (by decide) hp with
      ⟨cells, net, hrecv, happ⟩ | ⟨e, net, hrecv, he, hsame⟩
    · obtain ⟨hne, hle⟩ := K.recv_data s.net maxBuffer cells (by rw [hrecv]) (by decide)
      simp only [hrecv, ensures_bind, ensures_set]
      exact ensures_pure.mpr ⟨rfl, hne, by simp [Conn.unread, hb, happ], by simp [St.view],
        fun _ => hle⟩
    · have hpat := K.recv_refused s.net maxBuffer e (by rw [hrecv]) he
      rw [hrecv] at hpat
      -- What a round that was refused leaves differs in the state of the kernel only.
      have next {net' : κ} (hsame' : pending net' = pending s.net)
          (hpat' : K.patience net' < K.patience s.net) :
          Ensures (ioFillLoop K fuel) { s with net := net' } fun rc s' =>
            rc = .success ∧ s'.readBuffer ≠ [] ∧ Advance pending s 0 s' := by
        have hzero : Advance pending s 0 { s with net := net' } :=
          ⟨by simp [Conn.unread, hsame'], by simp [St.view], id⟩
        refine (ih (s := { s with net := net' }) hv ht hb (hsame' ▸ hp) ?_).mono fun rc u hu =>
          ⟨hu.1, hu.2.1, hzero.trans hu.2.2⟩
        show K.patience net' < fuel
        omega
      simp only [hrecv, ensures_bind, ensures_set]
      rcases he with rfl | rfl
      · exact next hsame hpat
      · simp only [reduceCtorEq, if_false, if_true, ensures_bind]
        refine (memcachedIoPoll_trickles hd (s := { s with net := net }) hv ht
          (hsame ▸ hp)).mono fun rc t hpoll => ?_
        obtain ⟨rfl, net', rfl, hsame', hpat'⟩ := hpoll
        simp only [ReturnT.isSuccess, if_true]
        exact next (hsame'.trans hsame) (Nat.lt_of_le_of_lt hpat' hpat)

end

theorem Trickles.fills (hd : Trickles K pending) : Fills K pending (·.pollTimeout ≠ 0) where
  fill s hv ht hb hp := by
    simp only [ioFill, ensures_bind, ensures_get]
    exact ioFillLoop_trickles hd hv ht hb hp (Nat.lt_succ_self _)

theorem ioFill_ends (he : Ends K pending) (hb : s.readBuffer = []) (hp : pending s.net = []) :
    Ensures (ioFill K) s fun rc s' => rc = .connectionFailure ∧ Ended pending s s' := by
  obtain ⟨net, hrecv, -⟩ := he.eof s.net maxBuffer (by decide) hp
  simp only [ioFill, ioFillLoop, closeSocket, setErrorText, ensures_bind, ensures_get, hrecv,
    ensures_set, ensures_modify]
  exact ensures_pure.mpr ⟨rfl, rfl, by simp [St.view, St.lost, Conn.unread, hb, hp]⟩

/-! ## `memcached_io_read` -/

theorem Advance.consume {cells rest : List InByte} (h : cells ++ rest = s.readBuffer) :
    Advance pending s cells.length (s.consume cells rest) where
  unread := by simp [Conn.unread, St.consume, ← h]
  view := by simp [St.view, Conn.unread, St.consume, ← h]
  room hr := by
    rw [← h, length_append] at hr
    exact Nat.le_trans (Nat.le_add_left _ _) hr

theorem Advance.take (h : n ≤ s.readBuffer.length) :
    Advance pending s n (s.consume (s.readBuffer.take n) (s.readBuffer.drop n)) := by
  have : Advance pending s _ _ := .consume (take_append_drop n s.readBuffer)
  rwa [length_take_of_le h] at this

theorem Conn.unread_of_nil (hb : s.readBuffer = []) : s.unread pending = pending s.net := by
  simp [Conn.unread, hb]

section

variable (hf : Fills K pending P) (hv : s.valid = true) (hP : P s.memc)
include hf hv hP

theorem fill_fills (hu : s.unread pending ≠ []) :
    Ensures (if s.readBuffer = [] then ioFill K else pure .success) s fun rc s' =>
      rc = .success ∧ s'.readBuffer ≠ [] ∧ Advance pending s 0 s' :=
  ensures_ite (fun hb => hf.fill s hv hP hb (by rwa [Conn.unread_of_nil hb] at hu))
    fun hb => ensures_pure.mpr ⟨rfl, hb, .zero⟩

/-- A round of the loop takes what the read buffer has of the next bytes, which is at least one. -/
theorem ioReadLoop_round (hu : s.unread pending ≠ []) {Q : ReturnT × List InByte → St κ → Prop} (h : ∀ n t, 0 < n → n ≤ length + 1 → n ≤ (s.unread pending).length → Advance pending s n t →
      Ensures (ioReadLoop K fuel (length + 1 - n) (acc ++ (s.unread pending).take n)) t Q) :
    Ensures (ioReadLoop K (fuel + 1) (length + 1) acc) s Q := by
  simp only [ioReadLoop, ensures_bind, ensures_get]
  refine (fill_fills hf hv hP hu).mono fun rc t ht => ?_
  obtain ⟨rfl, hb, ht⟩ := ht
  simp only [ReturnT.isFatal, Bool.false_eq_true, if_false, ensures_bind, ensures_get, ensures_set]
  have hpos := length_pos_iff.mpr hb
  have hut : t.unread pending = s.unread pending := ht.unread
  generalize hn : min (length + 1) t.readBuffer.length = n
  have hcut : Advance pending t n _ := .take (by omega)
  have htake : t.readBuffer.take n = (s.unread pending).take n := by
    rw [← hut, Conn.unread, take_append_of_le_length (by omega)]
  have hle : n ≤ (s.unread pending).length := by
    rw [← hut, Conn.unread, length_append]
    omega
  rw [htake] at hcut ⊢
  have hadv := ht.trans hcut
  rw [Nat.zero_add] at hadv
  exact h n _ (by omega) (by omega) hle hadv

theorem ioReadLoop_fills (hfuel : length ≤ fuel) (hlen : length ≤ (s.unread pending).length) :
    Ensures (ioReadLoop K fuel length acc) s fun r s' =>
      r = (.success, acc ++ (s.unread pending).take length) ∧ Advance pending s length s' := by
  induction fuel generalizing length acc s with
  | zero =>
    obtain rfl : length = 0 := by omega
    exact ensures_pure.mpr ⟨by simp, .zero⟩
  | succ fuel ih =>
    cases length with
    | zero => exact ensures_pure.mpr ⟨by simp, .zero⟩
    | succ length =>
      refine ioReadLoop_round hf hv hP (ne_nil_of_length_pos (by omega)) fun n t _ hle _ ht => ?_
      refine (ih (ht.valid.trans hv) (ht.memc ▸ hP) (by omega) ?_).mono fun r u hu => ?_
      · rw [ht.unread, length_drop]
        omega
      · rw [ht.unread, append_assoc, ← take_add, Nat.add_sub_cancel' hle] at hu
        exact ⟨hu.1, Nat.add_sub_cancel' hle ▸ ht.trans hu.2⟩

theorem memcachedIoRead_fills (hlen : length ≤ (s.unread pending).length) :
    Ensures (memcachedIoRead K length) s fun r s' =>
      r = (.success, (s.unread pending).take length) ∧ Advance pending s length s' := by
  simp only [memcachedIoRead, ensures_bind, ensures_get, hv, Bool.not_true, Bool.false_eq_true,
    if_false]
  exact ioReadLoop_fills hf hv hP (Nat.le_refl length) hlen

end

section

variable (hf : Fills K pending P) (he : Ends K pending) (hv : s.valid = true) (hP : P s.memc)
include hf he hv hP

/-- Asked for more than there is, `memcached_io_read` reads what there is and finds the end. -/
theorem ioReadLoop_ends (hfuel : length ≤ fuel) (hlen : (s.unread pending).length < length) :
    Ensures (ioReadLoop K fuel length acc) s fun r s' =>
      r = (.connectionFailure, acc ++ s.unread pending) ∧ Ended pending s s' := by
  induction fuel generalizing length acc s with
  | zero => omega
  | succ fuel ih =>
    cases length with
    | zero => omega
    | succ length =>
      by_cases hu : s.unread pending = []
      · have hb : s.readBuffer = [] := (append_eq_nil_iff.mp hu).1
        simp only [ioReadLoop, ensures_bind, ensures_get, if_pos hb]
        refine (ioFill_ends he hb (append_eq_nil_iff.mp hu).2).mono fun rc t ht => ?_
        obtain ⟨rfl, ht⟩ := ht
        exact ensures_pure.mpr ⟨by simp [hu], ht⟩
      · refine ioReadLoop_round hf hv hP hu fun n t _ _ hle ht => ?_
        refine (ih (ht.valid.trans hv) (ht.memc ▸ hP) (by omega) ?_).mono fun r u hr => ?_
        · rw [ht.unread, length_drop]
          omega
        · rw [ht.unread, append_assoc, take_append_drop] at hr
          exact ⟨hr.1, .of_advance ht hr.2⟩

theorem memcachedIoRead_ends (hlen : (s.unread pending).length < length) :
    Ensures (memcachedIoRead K length) s fun r s' =>
      r = (.connectionFailure, s.unread pending) ∧ Ended pending s s' := by
  simp only [memcachedIoRead, ensures_bind, ensures_get, hv, Bool.not_true, Bool.false_eq_true,
    if_false]
  exact ioReadLoop_ends hf he hv hP (Nat.le_refl length) hlen

end

theorem memcachedIoRead_closed (hv : s.valid = false) (length : Nat) :
    Ensures (memcachedIoRead K length) s fun r s' => r = (.connectionFailure, []) ∧ s' = s := by
  simp only [memcachedIoRead, ensures_bind, ensures_get, hv, Bool.not_false, if_true]
  exact ensures_pure.mpr ⟨rfl, rfl⟩

/-! ## `memcached_io_readline` -/

/-- How a line that is read into a buffer of limited size ends. -/
inductive LineEnd where
  /-- The line fits, with room to spare. -/
  | complete
  /-- The buffer is full. -/
  | full
  /-- The stream ended. -/
  | cut
  deriving DecidableEq

/-- The plain reader of lines: at most `room` bytes of the stream, up to a line feed. -/
def plainLine : Nat → List InByte → List InByte × LineEnd
  | 0, _ => ([], .full)
  | _ + 1, [] => ([], .cut)
  | room + 1, c :: rest =>
    if c.byte = 10 then ([c], if room = 0 then .full else .complete)
    else (c :: (plainLine room rest).1, (plainLine room rest).2)

def LineEnd.toReturn : LineEnd → ReturnT
  | complete => .success
  | full => .protocolError
  | cut => .connectionFailure

variable {e : LineEnd}

/-- One piece of the stream: the inner loop stops where the plain reader stops, or at the end of the
piece, after which the plain reader goes on. -/
theorem copyLine_plainLine (room : Nat) (piece rest : List InByte) :
    (((copyLine room piece).2.2 = true ∨ (copyLine room piece).1.length = room) ∧
      plainLine room (piece ++ rest) = ((copyLine room piece).1,
        if (copyLine room piece).1.length = room then .full else .complete)) ∨
    ((copyLine room piece).2.2 = false ∧ (copyLine room piece).1.length < room ∧
      (copyLine room piece).1 = piece ∧
      plainLine room (piece ++ rest) = (piece ++ (plainLine (room - piece.length) rest).1,
        (plainLine (room - piece.length) rest).2)) := by
  induction piece generalizing room with
  | nil => cases room <;> simp [copyLine, plainLine]
  | cons c piece ih =>
    cases room with
    | zero => simp [copyLine, plainLine]
    | succ room =>
      simp only [copyLine, cons_append, plainLine]
      split
      · refine .inl ⟨.inl rfl, ?_⟩
        simp
      · rcases ih room with ⟨hstop, heq⟩ | ⟨hgo, hlt, hall, heq⟩
        · refine .inl ⟨by simpa using hstop, ?_⟩
          simp [heq]
        · refine .inr ⟨hgo, by simpa using hlt, by simp [hall], ?_⟩
          simp [heq]

/-- Whether the first byte of a piece came through `memcached_io_read` makes no difference. -/
theorem takeLine_eq_copyLine {room : Nat} {first buffer : List InByte} (hf : first.length ≤ 1)
    (hr : 0 < room) : copyLine room (first ++ buffer) =
      (first ++ (takeLine (room - first.length) first buffer).1,
        (takeLine (room - first.length) first buffer).2) := by
  obtain ⟨room, rfl⟩ : ∃ n, room = n + 1 := ⟨room - 1, by omega⟩
  match first, hf with
  | [], _ => simp [takeLine]
  | [c], _ =>
    by_cases hc : c.byte = 10 <;> simp [takeLine, copyLine, hc]

section

variable (hf : Fills K pending P) (hv : s.valid = true) (hP : P s.memc)
include hf hv hP

/-- The first byte of a piece, or none if the read buffer is not empty. -/
theorem firstByte_fills (hu : s.unread pending ≠ []) :
    Ensures (if s.readBuffer = [] then memcachedIoRead K 1 else pure (.success, [])) s fun r s' =>
      r.1 = .success ∧ r.2.length ≤ 1 ∧ r.2 ++ s'.readBuffer ≠ [] ∧
        r.2 ++ s'.unread pending = s.unread pending ∧ Advance pending s r.2.length s' := by
  refine ensures_ite (fun hb => ?_) fun hb => ensures_pure.mpr ⟨rfl, by simp, by simpa, rfl, .zero⟩
  have hlen : 1 ≤ (s.unread pending).length := length_pos_iff.mpr hu
  refine (memcachedIoRead_fills hf hv hP hlen).mono fun r t ht => ?_
  obtain ⟨rfl, ht⟩ := ht
  have hone : ((s.unread pending).take 1).length = 1 := length_take_of_le hlen
  refine ⟨rfl, Nat.le_of_eq hone, fun h => ?_, ?_, hone.symm ▸ ht⟩
  · exact absurd ((congrArg _ (append_eq_nil_iff.mp h).1).symm.trans hone) (by simp)
  · rw [ht.unread, take_append_drop]

/-- `memcached_io_readline` is the plain reader of lines, however the stream is cut. -/
theorem readlineLoop_fills (hfuel : size ≤ acc.length + fuel) (hroom : acc.length < size)
    (hline : plainLine (size - acc.length) (s.unread pending) = (line, e))
    (he : e = .cut → Ends K pending) : Ensures (readlineLoop K size fuel acc) s fun r s' =>
      r = (e.toReturn, acc ++ line) ∧ (e ≠ .cut → Advance pending s line.length s') ∧
        (e = .cut → Ended pending s s') := by
  induction fuel generalizing acc s line with
  | zero => omega
  | succ fuel ih =>
    simp only [readlineLoop, ensures_bind, ensures_get]
    obtain ⟨room, hsize⟩ : ∃ room, size - acc.length = room + 1 := ⟨size - acc.length - 1, by omega⟩
    by_cases hu : s.unread pending = []
    · have hb : s.readBuffer = [] := (append_eq_nil_iff.mp hu).1
      rw [hu, hsize] at hline
      cases hline
      rw [if_pos hb]
      refine (memcachedIoRead_ends hf (he rfl) hv hP (by simp [hu])).mono fun r t ht => ?_
      obtain ⟨rfl, ht⟩ := ht
      exact ensures_pure.mpr ⟨by simp [LineEnd.toReturn], fun h => absurd rfl h, fun _ => ht⟩
    · refine (firstByte_fills hf hv hP hu).mono fun r t ht => ?_
      obtain ⟨rc, first⟩ := r
      obtain ⟨rfl, hfirst, hne, hunread, hadv⟩ := ht
      simp only [ReturnT.isFailed, Bool.false_eq_true, if_false, ensures_bind, ensures_get, ensures_set]
      have hspec := (takeLine_spec (size - (acc ++ first).length) first t.readBuffer).1
      -- The round copies what the inner loop would copy from the whole piece.
      have hcopy : copyLine (size - acc.length) (first ++ t.readBuffer) = _ :=
        takeLine_eq_copyLine hfirst (by omega)
      rw [Nat.sub_sub, ← length_append] at hcopy
      have hplain := copyLine_plainLine (size - acc.length) (first ++ t.readBuffer) (pending t.net)
      rw [append_assoc, ← Conn.unread, hunread, hline, hcopy] at hplain
      generalize takeLine (size - (acc ++ first).length) first t.readBuffer = taken at hspec hplain ⊢
      obtain ⟨cells, rest, complete⟩ := taken
      have hread : Advance pending s (first ++ cells).length (t.consume cells rest) :=
        length_append ▸ hadv.trans (.consume hspec)
      have hfull : (acc ++ first ++ cells).length = size ↔ (first ++ cells).length = size - acc.length := by
        simp only [length_append]
        omega
      simp only at hplain
      rcases hplain with ⟨hstop, heq⟩ | ⟨rfl, hlt, hall, heq⟩
      · obtain ⟨rfl, rfl⟩ := Prod.mk.inj heq
        refine ensures_ite (fun h => ensures_pure.mpr ?_) fun h => ?_
        · rw [if_pos (hfull.mp h)]
          exact ⟨by simp [LineEnd.toReturn], fun _ => hread, by simp⟩
        · have hn := fun h' => h (hfull.mpr h')
          rw [if_pos (hstop.resolve_right hn), if_neg hn]
          exact ensures_pure.mpr ⟨by simp [LineEnd.toReturn], fun _ => hread, by simp⟩
      · have hn : ¬(acc ++ first ++ cells).length = size := by
          rw [hfull]
          omega
        have hpos := length_pos_iff.mpr hne
        rw [← hall] at hpos heq
        obtain ⟨rfl, rfl⟩ := Prod.mk.inj heq
        rw [if_neg hn]
        have hrest : (t.consume cells rest).unread pending = pending t.net := by
          have hnil : rest = [] := by
            have := congrArg List.length (hspec.trans (append_cancel_left hall).symm)
            simpa using this
          simp [Conn.unread, St.consume, hnil]
        have hsub : size - (acc ++ first ++ cells).length =
            size - acc.length - (first ++ cells).length := by
          simp only [length_append]
          omega
        simp only [length_append] at hlt hpos
        refine (ih (hread.valid.trans hv) (hread.memc ▸ hP) ?_ ?_ (by rw [hsub, hrest])).mono fun r u hu => ?_
        · simp only [length_append]
          omega
        · simp only [length_append]
          omega
        · obtain ⟨rfl, hon, hend⟩ := hu
          refine ⟨by simp, fun h => ?_, fun h => .of_advance hread (hend h)⟩
          exact length_append ▸ hread.trans (hon h)

end

theorem memcachedIoReadline_fills (hf : Fills K pending P) (hs : 0 < size) (hv : s.valid = true)
    (hP : P s.memc) (hline : plainLine size (s.unread pending) = (line, e)) (he : e = .cut → Ends K pending) :
    Ensures (memcachedIoReadline K size) s fun r s' =>
      r = (e.toReturn, line) ∧ (e ≠ .cut → Advance pending s line.length s') ∧
        (e = .cut → Ended pending s s') :=
  readlineLoop_fills hf hv hP (by simp) (by simpa using hs) (by simpa using hline) he

theorem memcachedIoReadline_closed (hs : 0 < size) (hv : s.valid = false) (hb : s.readBuffer = []) :
    Ensures (memcachedIoReadline K size) s fun r s' => r = (.connectionFailure, []) ∧ s' = s := by
  obtain ⟨size, rfl⟩ : ∃ n, size = n + 1 := ⟨size - 1, by omega⟩
  simp only [memcachedIoReadline, readlineLoop, ensures_bind, ensures_get, if_pos hb]
  refine (memcachedIoRead_closed hv 1).mono fun r t ht => ?_
  obtain ⟨rfl, rfl⟩ := ht
  exact ensures_pure.mpr ⟨rfl, rfl⟩

end LM
