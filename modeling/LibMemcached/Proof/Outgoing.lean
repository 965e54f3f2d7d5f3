import LibMemcached.Impl.Peer
import LibMemcached.Proof.Reading

/-!
# The outgoing byte stream

`io_flush` keeps its progress in local variables. It can leave early, when a wait runs out of time,
and it can be entered again, through the purge that a wait starts. Both are harmless as long as
nothing was sent yet, and after that both make it send bytes twice (`flush_resends_after_timeout`).
A run whose waits are all harmless hands every copied byte to `send` once and in order
(`sent_once_in_order`).

The induction is over the loop of `io_flush`: what is copied is what was accepted followed by what
the loop still has to send (`Pending`). Statements are made under the condition that the waits
logged so far are harmless, which the log's growth carries from the end of a run to its parts.
-/

namespace LM

open List

variable {κ : Type} {K : Kernel κ} {s s' : St κ} {sound : Prop} {p : Bool} {rest : List OutByte}
  {total : Nat} {w : Wait} {t : St κ} {fuel : Nat} {cells : List OutByte}

/-- A wait after which nothing is sent twice: it belongs to a flush that a purge started (which
closes the connection if it fails), or nothing was sent before it, or it neither ran a purge nor
ended by a time-out. -/
def Wait.Harmless (w : Wait) : Prop :=
  w.nested = false → w.progress = true → w.purged = false ∧ w.timedOut = false

instance (w : Wait) : Decidable w.Harmless := by
  unfold Wait.Harmless
  infer_instance

/-- All waits so far were harmless. -/
def St.Calm (s : St κ) : Prop := ∀ w ∈ s.waits, w.Harmless

/-- `s'` is `s` after some writing: whatever happened, the settings are what they were, the log of
waits grew and the write buffer holds. -/
structure Writes (K : Kernel κ) (s s' : St κ) : Prop where
  patience : K.patience s'.net ≤ K.patience s.net
  memc : SameSettings s.memc s'.memc
  isPurging : s'.isPurging = s.isPurging
  call : s'.call = s.call
  waits : s.waits <+: s'.waits
  purgeLog : s.purgeLog <+: s'.purgeLog
  writeBuffer : s.writeBuffer.length ≤ maxBuffer → s'.writeBuffer.length ≤ maxBuffer

namespace Writes

variable {s s' s'' : St κ}

theorem rfl : Writes K s s :=
  ⟨Nat.le_refl _, .rfl, Eq.refl _, Eq.refl _, prefix_rfl, prefix_rfl, id⟩

theorem trans (h : Writes K s s') (h' : Writes K s' s'') : Writes K s s'' :=
  ⟨Nat.le_trans h'.patience h.patience, h.memc.trans h'.memc, h'.isPurging.trans h.isPurging,
    h'.call.trans h.call,
    h.waits.trans h'.waits, h.purgeLog.trans h'.purgeLog, fun hs => h'.writeBuffer (h.writeBuffer hs)⟩

theorem calm (h : Writes K s s') (hc : s'.Calm) : s.Calm := fun w hw => hc w (h.waits.subset hw)

end Writes

theorem Reads.writes (h : Reads K s s') : Writes K s s' where
  patience := h.patience
  memc := h.memc
  isPurging := h.isPurging
  call := h.call
  waits := h.waits ▸ prefix_rfl
  purgeLog := h.purgeLog
  writeBuffer hs := by
    rcases h.connection with ⟨-, hw, -⟩ | hc
    · rwa [hw]
    · simp [hc.writeBuffer]

/-- Unless a wait was harmful, the accepted bytes are the first of those that were copied and, while
the connection is open, the others are `rest`. -/
def St.Pending (s : St κ) (rest : List OutByte) : Prop :=
  s.Calm → s.accepted <+: s.copied ∧ (s.valid = true → s.copied = s.accepted ++ rest)

/-- Unless a wait was harmful, the accepted bytes are the first of those that were copied. -/
def St.InOrder (s : St κ) : Prop := s.Calm → s.accepted <+: s.copied

theorem St.Pending.inOrder (h : s.Pending rest) : s.InOrder :=
  fun hc => (h hc).1

theorem St.InOrder.reads (h : s.InOrder) (hr : Reads K s s') : s'.InOrder := by
  intro hc
  rw [hr.copied, hr.accepted]
  exact h (hr.writes.calm hc)

/-- Nothing was lost or sent twice. -/
def St.Sound (s : St κ) : Prop := s.Pending s.writeBuffer

theorem St.Pending.reads (h : s.Pending rest) (hr : Reads K s s') : s'.Pending rest := by
  refine fun hc => ⟨h.inOrder.reads hr hc, fun hv => ?_⟩
  rcases hr.connection with ⟨hval, -⟩ | hclosed
  · rw [hr.copied, hr.accepted]
    exact (h (hr.writes.calm hc)).2 (hval ▸ hv)
  · simp [hclosed.valid] at hv

theorem St.Sound.reads (h : s.Sound) (hr : Reads K s s') : s'.Sound := by
  rcases hr.connection with ⟨-, hwb, -⟩ | hclosed
  · unfold St.Sound
    rw [hwb]
    exact St.Pending.reads h hr
  · exact fun hc => ⟨(St.Pending.reads h hr hc).1, fun hv => by simp [hclosed.valid] at hv⟩

/-- Closing the connection settles what is to be sent. -/
theorem St.InOrder.closed (h : s.InOrder) (hr : Reads K s s') (hclosed : s'.Closed) : s'.Sound :=
  fun hc => ⟨h.reads hr hc, fun hv => by simp [hclosed.valid] at hv⟩

theorem skipsPurge_of_idle (h : Idle K s s') : s'.skipsPurge = s.skipsPurge := by
  unfold St.skipsPurge
  rw [h.isPurging, h.cursorActive, h.ioBytesSent, h.memc]

theorem repackInputBuffer_idle {s : St κ} : Ensures (repackInputBuffer K) s fun _ s' => Idle K s s' := by
  have hp := K.recv_patience s.net (maxBuffer - s.readBuffer.length)
  have hs := K.recv_supply_le s.net (maxBuffer - s.readBuffer.length)
  have said {m : Act κ ReturnT} {rc : ReturnT} {t : St κ} (ht : Idle K s t)
      (hm : Ensures m t fun rc' s' => rc' = rc ∧ Idle K t s') :
      Ensures (do let _ ← m; return false) t fun _ s' => Idle K s s' :=
    hm.bind fun _ u hu => ensures_pure.mpr (ht.trans hu.2)
  simp only [repackInputBuffer, ensures_bind, ensures_get]
  refine ensures_ite (fun _ => ensures_pure.mpr .rfl) fun _ => ?_
  refine ensures_ite (fun _ => said .rfl (setErrorText_idle _ _ _)) fun _ => ?_
  split <;> rename_i h <;> rw [h] at hp hs <;> simp only [ensures_bind, ensures_set]
  · rename_i cells net
    have hl := K.recv_supply _ _ cells (by rw [h])
    rw [h] at hl
    have hl : (s.readBuffer ++ cells).length + K.supply net ≤ s.readBuffer.length + K.supply s.net := by
      simp only [length_append] at hl ⊢
      omega
    exact ensures_pure.mpr (.of_recv hp hl)
  · rw [← ensures_bind]
    exact said (.of_net hp hs) (setError_idle _ _)
  · refine ensures_ite (fun _ => ensures_pure.mpr (.of_net hp hs)) fun _ => ?_
    exact said (.of_net hp hs) (setErrorText_idle _ _ _)

/-! ## Flushing -/

/-- What a flush needs of the purge it calls, in states whose purging flag is `p`: it returns, it
does nothing if there is nothing to do, and otherwise it leaves an empty write buffer or fails. -/
def PurgeSpec (K : Kernel κ) (p : Bool) (purge : Act κ Bool) : Prop :=
  ∀ s : St κ, s.isPurging = p → Ensures purge s fun ok s' =>
    Writes K s s' ∧ (s.skipsPurge = true → ok = true ∧ s' = s) ∧
      (s.skipsPurge = false → (s.Sound → s'.Sound) ∧ (ok = true → s'.writeBuffer = []))

theorem ioWaitOut_writes {purge : Act κ Bool} (hpurge : PurgeSpec K p purge) (hp : s.isPurging = p) :
    Ensures (ioWaitOut K purge) s fun rc s' =>
      (s.skipsPurge = true → Reads K s s' ∧ (rc.isSuccess = true ∨ rc = .timeout → Idle K s s')) ∧
        Writes K s s' := by
  refine (hpurge s hp).bind fun ok t ht => ?_
  cases ok with
  | true =>
    refine (memcachedIoPoll_reads .pollOut t).mono fun rc u hu => ?_
    refine ⟨fun hskip => ?_, ht.1.trans hu.2.2.writes⟩
    obtain ⟨-, rfl⟩ := ht.2.1 hskip
    refine ⟨hu.2.2.toReads, fun hrc => ?_⟩
    refine hu.2.1 (hrc.imp_left fun h => hu.1.resolve_right fun hfail => ?_)
    simp [ReturnT.isSuccess_of_isIoFailure hfail] at h
  | false => exact ensures_pure.mpr ⟨fun hskip => (nomatch (ht.2.1 hskip).1), ht.1⟩

/-- The loop of a flush is at `rest`, of `total` bytes at first. As long as nothing was sent, the
write buffer is what is to be sent and a purge has nothing to do. The bytes are accounted for if
they were at the start (`sound`). -/
structure Flushing (sound : Prop) (p : Bool) (total : Nat) (rest : List OutByte) (s : St κ) :
    Prop where
  isPurging : s.isPurging = p
  le : rest.length ≤ total
  pending : sound → s.Pending rest
  first : rest ≠ [] → rest.length = total →
    (s.valid = true → s.writeBuffer = rest) ∧ s.skipsPurge = true

theorem Flushing.idle (h : Flushing sound p total rest s) (hi : Idle K s s') :
    Flushing sound p total rest s' where
  isPurging := hi.isPurging.trans h.isPurging
  le := h.le
  pending hb := (h.pending hb).reads hi.toReads
  first hne hlen := by
    rw [hi.valid, hi.writeBuffer, skipsPurge_of_idle hi]
    exact h.first hne hlen

theorem Writes.logged (h : Writes K s s') (w : Wait) : Writes K s (s'.logWait w) :=
  ⟨h.patience, h.memc, h.isPurging, h.call, h.waits.trans (prefix_append _ _), h.purgeLog,
    h.writeBuffer⟩

theorem harmless_of_calm (h : (s.logWait w).Calm) : w.Harmless :=
  h w (by simp [St.logWait])

theorem calm_of_logWait (h : (s.logWait w).Calm) : s.Calm :=
  fun v hv => h v (by simp [St.logWait, hv])

/-- At a wait that was harmless a purge had nothing to do. -/
theorem Flushing.skips {c : OutByte} {cs : List OutByte} {timedOut : Bool}
    (h : Flushing sound p total (c :: cs) s)
    (hw : Wait.Harmless ⟨s.isPurging, (c :: cs).length < total, !s.skipsPurge, timedOut⟩) :
    s.skipsPurge = true := by
  by_cases hlen : (c :: cs).length < total
  · cases hp : s.isPurging with
    | true => simp [St.skipsPurge, hp]
    | false => simpa using (hw hp (by simpa using hlen)).1
  · exact (h.first (cons_ne_nil _ _) (Nat.le_antisymm h.le (Nat.le_of_not_lt hlen))).2

theorem Flushing.sent {n : Nat} {net : κ} {sentBytes : Nat} (h : Flushing sound p total rest s)
    (hv : s.valid = true) (hn : 0 < n) (hn' : n ≤ rest.length) :
    Flushing sound p total (rest.drop n)
      { s with net := net, ioBytesSent := sentBytes, accepted := s.accepted ++ rest.take n } where
  isPurging := h.isPurging
  le := by
    have := h.le
    simp only [length_drop]
    omega
  pending hb hc := by
    obtain ⟨-, hrest⟩ := h.pending hb hc
    have hcopied : s.copied = s.accepted ++ rest.take n ++ rest.drop n := by
      rw [append_assoc, take_append_drop]
      exact hrest hv
    exact ⟨⟨_, hcopied.symm⟩, fun _ => hcopied⟩
  first _ hlen := by
    have := h.le
    simp only [length_drop] at hlen
    omega

/-- What a flush that started in `s` leaves: nothing to send if it succeeded, and everything
accounted for unless it failed inside a purge, which then closes the connection. -/
structure Flushed (K : Kernel κ) (sound : Prop) (p : Bool) (s : St κ) (ok : Bool) (s' : St κ) :
    Prop where
  empty : ok = true → s'.writeBuffer = []
  settled : ok = true ∨ p = false → sound → s'.Sound
  inOrder : sound → s'.InOrder
  writes : Writes K s s'

theorem Flushed.from {ok : Bool} (h : Flushed K sound p t ok s') (hw : Writes K s t) :
    Flushed K sound p s ok s' :=
  ⟨h.empty, h.settled, h.inOrder, hw.trans h.writes⟩

theorem closeSocket_fails {m : Act κ ReturnT} {P : ReturnT → Prop} (hw : Writes K s t)
    (ht : sound → t.InOrder) (hm : Keeps (Notes K) P m) :
    Ensures (do closeSocket K; let _ ← m; return false) t (Flushed K sound p s) := by
  refine (closeSocket_closes t).bind fun _ u hu => (hm u).bind fun _ v hv => ensures_pure.mpr ?_
  have hs (hb : sound) : v.Sound := ((ht hb).closed hu.2.toReads hu.1).reads hv.2.toReads
  exact ⟨by simp, fun _ => hs, fun hb => (hs hb).inOrder, (hw.trans hu.2.writes).trans hv.2.writes⟩

theorem flushLoop_writes {purge : Act κ Bool} (hpurge : PurgeSpec K p purge)
    (hf : rest.length + K.patience s.net ≤ fuel) (hs : Flushing sound p total rest s) :
    Ensures (flushLoop K purge total fuel rest) s (Flushed K sound p s) := by
  have done {t : St κ} (ht : Flushing sound p total [] t) (fuel : Nat) :
      Ensures (flushLoop K purge total fuel []) t (Flushed K sound p t) := by
    simp only [flushLoop, ensures_bind, ensures_modify]
    exact ensures_pure.mpr ⟨fun _ => rfl, fun _ => ht.pending, fun hb => (ht.pending hb).inOrder,
      Nat.le_refl _, .rfl, rfl, rfl, prefix_rfl, prefix_rfl, fun _ => Nat.zero_le _⟩
  induction fuel generalizing rest s with
  | zero =>
    obtain rfl : rest = [] := length_eq_zero_iff.mp (by omega)
    exact done hs 0
  | succ fuel ih =>
    cases rest with
    | nil => exact done hs _
    | cons c cs =>
      -- The loop goes on from a state reached by some writing.
      have again {rest' : List OutByte} {t : St κ} (hw : Writes K s t)
          (hf' : rest'.length + K.patience t.net ≤ fuel) (ht : Flushing sound p total rest' t) :
          Ensures (flushLoop K purge total fuel rest') t (Flushed K sound p s) :=
        (ih hf' ht).mono fun ok u hu => hu.from hw
      simp only [flushLoop, ensures_bind, ensures_get]
      rcases hres : (if s.valid = true then K.send s.net (c :: cs) else (.error .other, s.net))
        with ⟨res, net⟩
      have hnet : K.patience net ≤ K.patience s.net := by
        split at hres
        · have := K.send_patience s.net (c :: cs)
          rwa [hres] at this
        · cases hres
          exact Nat.le_refl _
      cases res with
      | sent n =>
        have hv : s.valid = true := by
          cases hv : s.valid with
          | true => rfl
          | false => simp [hv] at hres
        rw [if_pos hv] at hres
        obtain ⟨hn, hn'⟩ := K.send_sent s.net (c :: cs) n (by rw [hres]) (cons_ne_nil _ _)
        simp only [ensures_bind, ensures_set]
        refine again ⟨hnet, .rfl, rfl, rfl, prefix_rfl, prefix_rfl, id⟩ ?_ (hs.sent hv hn hn')
        simp only [length_drop] at hn' ⊢
        omega
      | error e =>
        have hw : Writes K s { s with net := net } := ⟨hnet, .rfl, rfl, rfl, prefix_rfl, prefix_rfl, id⟩
        have hsn : Flushing sound p total (c :: cs) { s with net := net } :=
          ⟨hs.isPurging, hs.le, hs.pending, hs.first⟩
        have refused (he : e = .enobufs ∨ e = .eagain) : (c :: cs).length + K.patience net ≤ fuel := by
          have hv : s.valid = true := by
            cases hv : s.valid with
            | true => rfl
            | false => rcases he with rfl | rfl <;> simp [hv] at hres
          rw [if_pos hv] at hres
          have := K.send_refused s.net (c :: cs) e (by rw [hres]) he
          rw [hres] at this
          simp only at this
          omega
        simp only [ensures_bind, ensures_set]
        split
        · exact again hw (refused (.inl rfl)) hsn
        · refine repackInputBuffer_idle.bind fun more t ht => ?_
          have hwt := hw.trans ht.toReads.writes
          have hpat := Nat.le_trans (Nat.add_le_add_left ht.patience _) (refused (.inr rfl))
          have hst := hsn.idle ht
          refine ensures_ite (fun _ => again hwt hpat hst) fun _ => ?_
          simp only [ensures_bind, ensures_get]
          refine (ioWaitOut_writes hpurge hst.isPurging).mono fun rc u hu => ?_
          simp only [ensures_modify]
          have hwu := (hwt.trans hu.2).logged
            ⟨t.isPurging, (c :: cs).length < total, !t.skipsPurge, rc == .timeout⟩
          -- Under a calm log a purge had nothing to do, so the wait changed nothing.
          refine ensures_ite (fun hrc => again hwu ?_ ?_) fun _ => ensures_ite (fun hrc => ?_) ?_
          · exact Nat.le_trans (Nat.add_le_add_left hu.2.patience _) hpat
          · refine ⟨hu.2.isPurging.trans hst.isPurging, hst.le, fun hb hc => ?_, fun hne hlen => ?_⟩
            · have hidle := (hu.1 (hst.skips (harmless_of_calm hc))).2 (.inl hrc)
              exact (hst.idle hidle).pending hb (calm_of_logWait hc)
            · exact (hst.idle ((hu.1 (hst.first hne hlen).2).2 (.inl hrc))).first hne hlen
          · have hpend (hb : sound) : (u.logWait
                ⟨t.isPurging, (c :: cs).length < total, !t.skipsPurge, rc == .timeout⟩).Pending
                  (c :: cs) := fun hc =>
              have hidle := hst.idle ((hu.1 (hst.skips (harmless_of_calm hc))).2 (.inr hrc))
              hidle.pending hb (calm_of_logWait hc)
            refine ensures_pure.mpr ⟨by simp, fun hp hb hc => ⟨(hpend hb hc).1, fun hv => ?_⟩,
              fun hb => (hpend hb).inOrder, hwu⟩
            have hw := harmless_of_calm hc
            have hidle := hst.idle ((hu.1 (hst.skips hw)).2 (.inr hrc))
            have hlen : ¬(c :: cs).length < total := fun hlt => by
              have := (hw (hst.isPurging.trans (hp.resolve_left (by simp))) (by simpa using hlt)).2
              simp [hrc] at this
            have hfirst := (hidle.first (cons_ne_nil _ _)
              (Nat.le_antisymm hidle.le (Nat.le_of_not_lt hlen))).1 hv
            show u.copied = u.accepted ++ u.writeBuffer
            rw [hfirst]
            exact (hpend hb hc).2 hv
          · refine fun _ => closeSocket_fails hwu (fun hb hc => ?_) setErrorText_keeps
            have hord := (hst.pending hb).inOrder.reads (hu.1 (hst.skips (harmless_of_calm hc))).1
            exact hord (calm_of_logWait hc)
        · exact closeSocket_fails hw (fun hb => (hsn.pending hb).inOrder) (setError_keeps _)
        · exact closeSocket_fails hw (fun hb => (hsn.pending hb).inOrder) (setError_keeps _)
        · exact closeSocket_fails hw (fun hb => (hsn.pending hb).inOrder) (setError_keeps _)
        · exact closeSocket_fails hw (fun hb => (hsn.pending hb).inOrder) setErrorText_keeps

theorem skipsPurge_of_isPurging (h : s.isPurging = true) : s.skipsPurge = true := by
  simp [St.skipsPurge, h]

/-- `io_flush` sends what is in the write buffer, or fails without having sent any of it unless it
was started by a purge. -/
theorem ioFlush_writes {purge : Act κ Bool} (hpurge : PurgeSpec K p purge) (hp : s.isPurging = p)
    (hs : sound → s.Sound) : Ensures (ioFlush K purge) s (Flushed K sound p s) := by
  refine (hpurge s hp).bind fun ok t ht => ?_
  have hpt := ht.1.isPurging.trans hp
  have flush (h : Flushing sound p t.writeBuffer.length t.writeBuffer t) :
      Ensures (flushLoop K purge t.writeBuffer.length
        (t.writeBuffer.length + K.patience t.net) t.writeBuffer) t (Flushed K sound p s) :=
    (flushLoop_writes hpurge (Nat.le_refl _) h).mono fun _ u hu => hu.from ht.1
  cases hskip : s.skipsPurge with
  | true =>
    obtain ⟨rfl, rfl⟩ := ht.2.1 hskip
    simp only [if_true, ensures_bind, ensures_get]
    exact flush ⟨hp, Nat.le_refl _, hs, fun _ _ => ⟨fun _ => rfl, hskip⟩⟩
  | false =>
    obtain ⟨hsound, hempty⟩ := ht.2.2 hskip
    cases ok with
    | true =>
      simp only [if_true, ensures_bind, ensures_get]
      exact flush ⟨hpt, Nat.le_refl _, fun hb => hsound (hs hb), fun hne => absurd (hempty rfl) hne⟩
    | false => exact ensures_pure.mpr ⟨by simp, fun _ hb => hsound (hs hb),
        fun hb => (hsound (hs hb)).inOrder, ht.1⟩

/-! ## The purge -/

theorem logPurge_reads (s : St κ) (wasOpen : Bool) (rc : ReturnT) : Reads K s (s.logPurge wasOpen rc) := by
  refine ⟨Nat.le_refl _, .rfl, rfl, rfl, rfl, ?_, rfl, rfl, .inl ⟨rfl, rfl, Nat.le_refl _⟩⟩
  unfold St.logPurge
  split
  · exact prefix_append _ _
  · exact prefix_rfl

theorem purgeLoop_reads (n : Nat) (ok : Bool) (s : St κ) :
    Ensures (purgeLoop K n ok) s fun _ s' => Reads K s s' := by
  induction n generalizing ok s with
  | zero => exact ensures_pure.mpr .rfl
  | succ n ih =>
    simp only [purgeLoop, ensures_bind, ensures_get]
    refine (memcachedReadOneResponse_reads _ _ s).mono fun reply t ht => ?_
    simp only [ensures_modify]
    exact (ih _ _).mono fun _ u hu => ht.2.2.2.trans ((logPurge_reads _ _ _).trans hu)

theorem purgeAnswers_reads (s : St κ) : Ensures (purgeAnswers K) s fun _ s' => Reads K s s' := by
  simp only [purgeAnswers, ensures_bind, ensures_get]
  refine ensures_ite (fun _ => ?_) fun _ => ensures_pure.mpr .rfl
  simp only [ensures_bind, ensures_modify]
  refine (purgeLoop_reads _ _ _).mono fun ok t ht => ensures_pure.mpr ?_
  refine ⟨ht.patience, ?_, ht.isPurging, ht.call, ht.waits, ht.purgeLog, ht.copied, ht.accepted,
    ht.connection.imp id fun hc => ⟨hc.valid, hc.writeBuffer⟩⟩
  show SameSettings s.memc { t.memc with pollTimeout := s.memc.pollTimeout }
  unfold SameSettings
  rw [ht.memc]

theorem memcachedPurge_zero : PurgeSpec K true (memcachedPurge K 0) := by
  intro s hp
  have hskip := skipsPurge_of_isPurging hp
  simp only [memcachedPurge, ensures_bind, ensures_get, hskip, if_true]
  exact ensures_pure.mpr ⟨.rfl, fun _ => ⟨rfl, rfl⟩, by simp⟩

theorem purgeBody_writes (hp : s.isPurging = false) :
    Ensures (purgeBody K (ioWrite K (memcachedPurge K 0) [] true)) s fun ok s' =>
      Writes K s s' ∧ (s.Sound → s'.Sound) ∧ (ok = true → s'.writeBuffer = []) := by
  simp only [purgeBody, ioWrite, ioWriteLoop, ensures_bind, ensures_modify, ensures_pure, if_true]
  refine (ioFlush_writes (s := { s with isPurging := true }) memcachedPurge_zero rfl
    fun h : s.Sound => h).mono fun ok t ht => ?_
  obtain ⟨hempty, hsound, hord, hw⟩ := ht
  -- The flag is set back at the end, so what happened meanwhile is writing from `s` to there.
  have back {u : St κ} (hu : Writes K t u) : Writes K s { u with isPurging := false } :=
    have h := hw.trans hu
    ⟨h.patience, h.memc, hp.symm, h.call, h.waits, h.purgeLog, h.writeBuffer⟩
  cases ok with
  | true =>
    simp only [if_true]
    refine (purgeAnswers_reads t).mono fun ok u hu => ?_
    have hwb : u.writeBuffer = [] := by
      rcases hu.connection with h | h
      · rw [h.2.1, hempty rfl]
      · exact h.writeBuffer
    have hsu (hs : s.Sound) : u.Sound := (hsound (.inl rfl) hs).reads hu
    exact ⟨back hu.writes, hsu, fun _ => hwb⟩
  | false =>
    simp only [Bool.false_eq_true, if_false, purgeFailed, ensures_bind]
    refine (closeSocket_closes t).mono fun _ u hu => ?_
    refine (setError_idle (K := K) _ u).mono fun _ v hv => ensures_pure.mpr ?_
    have hsv (hs : s.Sound) : v.Sound := ((hord hs).closed hu.2.toReads hu.1).reads hv.2.toReads
    exact ⟨back (hu.2.trans hv.2.toHears).toReads.writes, hsv, by simp⟩

theorem purge_spec : PurgeSpec K false (purge K) := by
  intro s hp
  simp only [purge, memcachedPurge, ensures_bind, ensures_get]
  refine ensures_ite (fun h => ?_) fun h => ?_
  · exact ensures_pure.mpr ⟨.rfl, fun _ => ⟨rfl, rfl⟩, fun hf => absurd h (by simp [hf])⟩
  · exact (purgeBody_writes hp).mono fun ok t ht => ⟨ht.1, fun hs => absurd hs h, fun _ => ht.2⟩

/-! ## Writing -/

theorem St.Sound.copyIn (h : s.Sound) (cells : List OutByte) : (s.copyIn cells).Sound := by
  intro hc
  obtain ⟨hpre, hrest⟩ := h hc
  refine ⟨hpre.trans (prefix_append _ _), fun hv => ?_⟩
  show s.copied ++ cells = s.accepted ++ (s.writeBuffer ++ cells)
  rw [hrest hv, append_assoc]

theorem copyIn_writes (hb : s.writeBuffer.length + cells.length ≤ maxBuffer) :
    Writes K s (s.copyIn cells) :=
  ⟨Nat.le_refl _, .rfl, rfl, rfl, prefix_rfl, prefix_rfl, fun _ => by simpa [St.copyIn] using hb⟩

/-- `_io_write` copies all bytes, flushing a full buffer, or fails in a flush. -/
theorem ioWriteLoop_writes (hp : s.isPurging = false) (hs : sound → s.Sound)
    (hb : s.writeBuffer.length ≤ maxBuffer)
    (hf : 2 * cells.length ≤ fuel ∨ 2 * cells.length ≤ fuel + 1 ∧ s.writeBuffer.length < maxBuffer) :
    Ensures (ioWriteLoop K (purge K) fuel cells) s fun _ s' => (sound → s'.Sound) ∧ Writes K s s' := by
  induction fuel generalizing cells s with
  | zero =>
    obtain rfl : cells = [] := length_eq_zero_iff.mp (by omega)
    exact ensures_pure.mpr ⟨hs, .rfl⟩
  | succ fuel ih =>
    cases cells with
    | nil => exact ensures_pure.mpr ⟨hs, .rfl⟩
    | cons c cs =>
      simp only [ioWriteLoop, ensures_bind, ensures_get, ensures_set]
      generalize hn : min (maxBuffer - s.writeBuffer.length) (cs.length + 1) = n
      have hlen : (s.copyIn ((c :: cs).take n)).writeBuffer.length = s.writeBuffer.length + n := by
        simp only [St.copyIn, length_append, length_take, length_cons]
        omega
      have hdrop : ((c :: cs).drop n).length = cs.length + 1 - n := by simp
      have hp₁ : (s.copyIn ((c :: cs).take n)).isPurging = false := hp
      have hs₁ (hb : sound) := (hs hb).copyIn ((c :: cs).take n)
      have hw₁ : Writes K s (s.copyIn ((c :: cs).take n)) := copyIn_writes <| by
        rw [length_take, length_cons]
        omega
      simp only [length_cons] at hf
      refine ensures_ite (fun hfull => ?_) fun hroom => ?_
      · refine (ioFlush_writes purge_spec hp₁ hs₁).bind fun ok t ht => ?_
        obtain ⟨hempty, hsound, -, hw⟩ := ht
        cases ok with
        | true =>
          have hwb : t.writeBuffer.length = 0 := by rw [hempty rfl]; rfl
          refine (ih (hw.isPurging.trans hp₁) (hsound (.inl rfl)) (by omega) ?_).mono
            fun _ u hu => ⟨hu.1, (hw₁.trans hw).trans hu.2⟩
          rw [hdrop, hwb]
          simp only [maxBuffer] at *
          omega
        | false => exact ensures_pure.mpr ⟨hsound (.inr rfl), hw₁.trans hw⟩
      · refine (ih hp₁ hs₁ (by omega) (.inl (by omega))).mono fun _ u hu =>
          ⟨hu.1, hw₁.trans hu.2⟩

theorem memcachedIoWrite_writes (cells : List OutByte) (withFlush : Bool) (hp : s.isPurging = false)
    (hs : sound → s.Sound) (hb : s.writeBuffer.length ≤ maxBuffer) :
    Ensures (memcachedIoWrite K cells withFlush) s fun _ s' => (sound → s'.Sound) ∧ Writes K s s' := by
  refine (ioWriteLoop_writes hp hs hb (.inl (Nat.le_refl _))).bind fun ok t ht => ?_
  refine ensures_ite (fun _ => ensures_ite (fun _ => ?_) fun _ => ensures_pure.mpr ht) fun _ =>
    ensures_pure.mpr ht
  refine (ioFlush_writes purge_spec (ht.2.isPurging.trans hp) ht.1).mono fun ok u hu => ?_
  exact ⟨hu.settled (.inr rfl), ht.2.trans hu.writes⟩

theorem writevLoop_writes (vector : List (List OutByte)) (hp : s.isPurging = false) (hs : sound → s.Sound)
    (hb : s.writeBuffer.length ≤ maxBuffer) :
    Ensures (writevLoop K vector) s fun _ s' => (sound → s'.Sound) ∧ Writes K s s' := by
  induction vector generalizing s with
  | nil => exact ensures_pure.mpr ⟨hs, .rfl⟩
  | cons v vs ih =>
    simp only [writevLoop]
    refine ensures_ite (fun _ => ih hp hs hb) fun _ => ?_
    refine (memcachedIoWrite_writes v false hp hs hb).bind fun ok t ht => ?_
    refine ensures_ite (fun _ => ?_) fun _ => ensures_pure.mpr ht
    exact (ih (ht.2.isPurging.trans hp) ht.1 (ht.2.writeBuffer hb)).mono fun _ u hu =>
      ⟨hu.1, ht.2.trans hu.2⟩

theorem memcachedIoWritev_writes (vector : List (List OutByte)) (withFlush : Bool)
    (hp : s.isPurging = false) (hs : sound → s.Sound) (hb : s.writeBuffer.length ≤ maxBuffer) :
    Ensures (memcachedIoWritev K vector withFlush) s fun _ s' => (sound → s'.Sound) ∧ Writes K s s' := by
  refine (writevLoop_writes vector hp hs hb).bind fun ok t ht => ?_
  refine ensures_ite (fun _ => ensures_ite (fun _ => ?_) fun _ => ensures_pure.mpr ht) fun _ =>
    ensures_pure.mpr ht
  exact (memcachedIoWrite_writes [] true (ht.2.isPurging.trans hp) ht.1
    (ht.2.writeBuffer hb)).mono fun _ u hu => ⟨hu.1, ht.2.trans hu.2⟩

/-! ## Every sequence of writes -/

/-- A call of one of the two writing functions. -/
inductive WriteCall where
  | write (cells : List OutByte) (withFlush : Bool)
  | writev (vector : List (List OutByte)) (withFlush : Bool)

def WriteCall.run (K : Kernel κ) : WriteCall → Act κ Bool
  | write cells withFlush => memcachedIoWrite K cells withFlush
  | writev vector withFlush => memcachedIoWritev K vector withFlush

/-- The calls of `calls`, one after the other. -/
def writeCalls (K : Kernel κ) : List WriteCall → Act κ Unit
  | [] => return ()
  | call :: calls => do
    let _ ← call.run K
    writeCalls K calls

theorem WriteCall.run_writes (call : WriteCall) (hp : s.isPurging = false) (hs : s.Sound)
    (hb : s.writeBuffer.length ≤ maxBuffer) : Ensures (call.run K) s fun _ s' => s'.Sound ∧ Writes K s s' := by
  have hrun : Ensures (call.run K) s fun _ s' => (True → s'.Sound) ∧ Writes K s s' := by
    cases call with
    | write cells withFlush => exact memcachedIoWrite_writes cells withFlush hp (fun _ => hs) hb
    | writev vector withFlush => exact memcachedIoWritev_writes vector withFlush hp (fun _ => hs) hb
  exact hrun.mono fun _ _ h => ⟨h.1 trivial, h.2⟩

theorem writeCalls_writes (calls : List WriteCall) (hp : s.isPurging = false) (hs : s.Sound)
    (hb : s.writeBuffer.length ≤ maxBuffer) :
    Ensures (writeCalls K calls) s fun _ s' => s'.Sound ∧ Writes K s s' := by
  induction calls generalizing s with
  | nil => exact ensures_pure.mpr ⟨hs, .rfl⟩
  | cons call calls ih =>
    refine (call.run_writes hp hs hb).bind fun _ t ht => ?_
    exact (ih (ht.2.isPurging.trans hp) ht.1 (ht.2.writeBuffer hb)).mono fun _ u hu =>
      ⟨hu.1, ht.2.trans hu.2⟩

/-- Whatever the system calls do and however the writes follow one another, from a connection on
which nothing was lost: the write buffer holds, and unless a flush that had already sent something
ran a purge in a wait or timed out in one, the accepted bytes are the first of the copied ones. -/
theorem sent_once_in_order (K : Kernel κ) (calls : List WriteCall) (s : St κ)
    (hp : s.isPurging = false) (hs : s.copied = s.accepted ++ s.writeBuffer)
    (hb : s.writeBuffer.length ≤ maxBuffer) :
    Ensures (writeCalls K calls) s fun _ s' => s'.writeBuffer.length ≤ maxBuffer ∧
      ((∀ w ∈ s'.waits, w.Harmless) → s'.accepted <+: s'.copied) := by
  have hsound : s.Sound := fun _ => ⟨⟨_, hs.symm⟩, fun _ => hs⟩
  refine (writeCalls_writes calls hp hsound hb).mono fun _ t ht => ?_
  exact ⟨ht.2.writeBuffer hb, St.Pending.inOrder ht.1⟩

/-- A new connection to a peer that never answers. -/
def silent (net : Peer) : St Peer := { valid := true, net := net, memc := .create }

/-- Two bytes to be written. -/
def twoBytes : List OutByte := [⟨97, none⟩, ⟨98, none⟩]

theorem sent_once_in_order_two_bytes :
    Ensures (writeCalls (peer fun _ => []) [.write twoBytes true]) (silent {}) fun _ s' =>
      s'.writeBuffer.length ≤ maxBuffer ∧
        ((∀ w ∈ s'.waits, w.Harmless) → s'.accepted <+: s'.copied) :=
  sent_once_in_order _ _ _ rfl rfl (by decide)

/-- `send` takes the first of two bytes, then it would block until the wait times out. The flush
leaves both bytes in the write buffer, so the next one sends the first byte again. -/
theorem flush_resends_after_timeout :
    Ensures (writeCalls (peer fun _ => []) [.write twoBytes true, .write [] true])
      (silent { sends := [.sent 1, .error .eagain], refusals := [.eagain], polls := [.timedOut] })
      fun _ s' => s'.valid = true ∧ s'.copied.map (·.byte) = [97, 98] ∧
        s'.accepted.map (·.byte) = [97, 97, 98] ∧ ¬s'.accepted <+: s'.copied := by
  decide +kernel

end LM
