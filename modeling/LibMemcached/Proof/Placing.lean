import LibMemcached.Proof.Issue
import LibMemcached.Proof.Writing

/-!
# What writing places in the stream

A write that succeeds has placed its bytes behind the others in the write stream of the connection, unless an
answer that a purge read in it closed the connection: the write goes on all the same. A write that fails has
recorded an error, unless such an answer made a purge fail. Both hold for every kernel (`Placed`), and with
them `memcached_vdo` that reports success has placed its command just if no purge met such an answer
(`memcachedVdo_places`).
-/

namespace LM

open List Memcached

variable {κ α β γ : Type} {K : Kernel κ} {s t u : St κ} {rc : ReturnT} {ok : Bool}

/-! ## What a step leaves as it is -/

/-- The step does not change `f`. -/
def Fixes (f : St κ → γ) (m : Act κ α) : Prop := ∀ s : St κ, Always m s fun _ t => f t = f s

namespace Fixes

variable {f : St κ → γ} {m m' : Act κ α} {g : α → Act κ β}

theorem pure {a : α} : Fixes f (pure a : Act κ α) := fun _ => .pure rfl

theorem bind (h : Fixes f m) (hg : ∀ a, Fixes f (g a)) : Fixes f (m >>= g) := fun s =>
  (h s).bind fun a t ht => (hg a t).mono fun _ _ hu => hu.trans ht

theorem modify {g : St κ → St κ} (h : ∀ s, f (g s) = f s) : Fixes f (modify g : Act κ PUnit) :=
  fun s => .modify (h s)

theorem setErrorText (rc : ReturnT) (message : String) (h : ∀ s memc, f { s with memc := memc } = f s) :
    Fixes f (setErrorText rc message : Act κ ReturnT) := .bind (.modify fun s => h s _) fun _ => .pure

theorem setError (rc : ReturnT) (h : ∀ s memc, f { s with memc := memc } = f s) :
    Fixes f (setError rc : Act κ ReturnT) := .bind (.modify fun s => h s _) fun _ => .pure

end Fixes

/-! ## Steps that make no connection -/

/-- No purge between the two states read an answer with a fatal code. -/
def CleanTo (s t : St κ) : Prop := ∀ rc ∈ t.purgeLog.drop s.purgeLog.length, rc.isFatal = false

theorem CleanTo.of_eq (h : t.purgeLog = s.purgeLog) : CleanTo s t := by
  simp [CleanTo, h]

theorem cleanTo_trans (hst : s.purgeLog <+: t.purgeLog) (htu : t.purgeLog <+: u.purgeLog) :
    CleanTo s u ↔ CleanTo s t ∧ CleanTo t u := by
  obtain ⟨codes, ht⟩ := hst
  obtain ⟨codes', hu⟩ := htu
  have hsu : u.purgeLog.drop s.purgeLog.length = codes ++ codes' := by
    rw [← hu, ← ht, append_assoc, drop_left]
  have hst : t.purgeLog.drop s.purgeLog.length = codes := by rw [← ht, drop_left]
  have htu : u.purgeLog.drop t.purgeLog.length = codes' := by rw [← hu, drop_left]
  simp only [CleanTo, hsu, hst, htu, mem_append, or_imp, forall_and]

/-- Nothing opens the connection, and an answer with a fatal code that a purge read has closed it. With at most
one answer outstanding no purge reads any: it stays outstanding unless the connection is closed, and then none
is. -/
structure Resets (s t : St κ) : Prop where
  isPurging : t.isPurging = s.isPurging
  log : s.purgeLog <+: t.purgeLog
  shut : s.valid = false → t.valid = false
  reset : ¬CleanTo s t → t.valid = false
  alone : s.cursorActive ≤ 1 → t.purgeLog = s.purgeLog ∧ t.cursorActive ≤ 1
  kept : s.cursorActive ≤ 1 → t.valid = true → t.cursorActive = s.cursorActive
  live : s.cursorActive ≤ 1 → (s.cursorActive ≠ 0 → s.valid = true) → t.cursorActive ≠ 0 → t.valid = true

namespace Resets

theorem rfl : Resets s s :=
  ⟨Eq.refl _, prefix_rfl, id, fun h => absurd (.of_eq (Eq.refl _)) h, fun h => ⟨Eq.refl _, h⟩, fun _ _ => Eq.refl _,
    fun _ h => h⟩

theorem trans (h : Resets s t) (h' : Resets t u) : Resets s u where
  isPurging := h'.isPurging.trans h.isPurging
  log := h.log.trans h'.log
  shut hv := h'.shut (h.shut hv)
  reset hc := by
    by_cases hst : CleanTo s t
    · exact h'.reset fun htu => hc ((cleanTo_trans h.log h'.log).mpr ⟨hst, htu⟩)
    · exact h'.shut (h.reset hst)
  alone hle := ⟨(h'.alone (h.alone hle).2).1.trans (h.alone hle).1, (h'.alone (h.alone hle).2).2⟩
  kept hle hv := by
    have ht : t.valid = true := by
      rw [← Bool.not_eq_false]
      exact fun hf => absurd (h'.shut hf) (by rw [hv]; decide)
    exact (h'.kept (h.alone hle).2 hv).trans (h.kept hle ht)
  live hle hlive := h'.live (h.alone hle).2 (h.live hle hlive)

theorem same (hv : t.valid = s.valid) (hl : t.purgeLog = s.purgeLog) (hp : t.isPurging = s.isPurging)
    (hc : t.cursorActive = s.cursorActive) : Resets s t :=
  ⟨hp, hl ▸ prefix_rfl, fun h => hv.trans h, fun h => absurd (.of_eq hl) h, fun h => ⟨hl, hc ▸ h⟩,
    fun _ _ => hc, fun _ h hne => hv.trans (h (hc ▸ hne))⟩

theorem closed (hv : t.valid = false) (hl : t.purgeLog = s.purgeLog) (hp : t.isPurging = s.isPurging)
    (hc : t.cursorActive = 0) : Resets s t :=
  ⟨hp, hl ▸ prefix_rfl, fun _ => hv, fun _ => hv, fun _ => ⟨hl, hc ▸ Nat.zero_le 1⟩,
    fun _ h => absurd hv (by rw [h]; decide), fun _ _ hne => absurd hc hne⟩

end Resets

/-- How `cells` are written: on success they are behind the others in the write stream, and the connection is
still there unless a purge met a fatal answer; otherwise an error was recorded, or a purge met such an answer. -/
structure Placed (s : St κ) (cells : List OutByte) (ok : Bool) (t : St κ) : Prop extends Resets s t where
  copied : ok = true → t.copied = s.copied ++ cells
  valid : ok = true → s.valid = true → CleanTo s t → t.valid = true
  told : ok = false → s.valid = true → CleanTo s t → t.memc.lastError.isFatal = true

namespace Placed

variable {cells cells' : List OutByte} {ok : Bool}

theorem trans (h : Placed s cells true t) (h' : Placed t cells' ok u) : Placed s (cells ++ cells') ok u where
  toResets := h.toResets.trans h'.toResets
  copied hok := by rw [h'.copied hok, h.copied rfl, append_assoc]
  valid hok hv hc := by
    obtain ⟨hst, htu⟩ := (cleanTo_trans h.log h'.log).mp hc
    exact h'.valid hok (h.valid rfl hv hst) htu
  told hok hv hc := by
    obtain ⟨hst, htu⟩ := (cleanTo_trans h.log h'.log).mp hc
    exact h'.told hok (h.valid rfl hv hst) htu

theorem same (hv : t.valid = s.valid) (hl : t.purgeLog = s.purgeLog) (hp : t.isPurging = s.isPurging)
    (hcur : t.cursorActive = s.cursorActive) (hcop : t.copied = s.copied ++ cells) : Placed s cells true t where
  toResets := .same hv hl hp hcur
  copied _ := hcop
  valid _ h _ := hv.trans h
  told h := absurd h (by decide)

/-- A step of `Placed` whose bytes are none. -/
theorem after (h : Placed s [] true t) (h' : Placed t cells ok u) : Placed s cells ok u := by
  simpa only [nil_append] using h.trans h'

theorem failed (h : Resets s t) (he : t.memc.lastError.isFatal = true) : Placed s cells false t where
  toResets := h
  copied h := absurd h (by decide)
  valid h := absurd h (by decide)
  told _ _ _ := he

end Placed

/-! ### Errors that are recorded -/

theorem Memcached.lastError_errorSet (memc : Memcached) (message : String) (h : rc.isFatal = true) :
    (memc.errorSet rc message).lastError = rc := by
  unfold errorSet
  simp [h, lastError]

variable {cells : List OutByte}

/-- A fatal code is recorded, in a state in which `cells` could not be written. -/
theorem setErrorText_records (message : String) (h : rc.isFatal = true) (hst : Resets s t) :
    Always (setErrorText rc message) t fun rc' u => rc' = rc ∧ Placed s cells false u := by
  refine Always.bind (Q := fun _ u => Placed s cells false u) (.modify ?_) fun _ u hu => .pure ⟨rfl, hu⟩
  refine .failed (hst.trans (.same rfl rfl rfl rfl)) ?_
  rw [lastError_errorSet _ _ h]
  exact h

theorem setError_records (h : rc.isFatal = true) (hst : Resets s t) :
    Always (setError rc) t fun rc' u => rc' = rc ∧ Placed s cells false u := by
  have hset : Always (setErrorText rc "") t fun rc' u => rc' = rc ∧ Placed s cells false u :=
    setErrorText_records "" h hst
  simpa only [setError, setErrorText, h, if_true] using hset

theorem setErrno_records (e : Errno) (hst : Resets s t) :
    Always (setErrno e) t fun rc u => rc = e.toReturn ∧ Placed s cells false u :=
  setErrorText_records "" (ReturnT.isFatal_of_isIoFailure e.toReturn_isIoFailure) hst

theorem closeSocket_resets (hst : Resets s t) : Always (closeSocket K) t fun _ u => Resets s u :=
  .modify (hst.trans (.closed rfl rfl rfl rfl))

theorem closeSocket_placed (h : Placed s cells false t) : Always (closeSocket K) t fun _ u => Placed s cells false u :=
  .modify
    { toResets := h.toResets.trans (.closed rfl rfl rfl rfl)
      copied := fun h => absurd h (by decide)
      valid := fun h => absurd h (by decide)
      told := h.told }

/-- A write gives up: the connection is closed and the reason recorded. -/
theorem closes_records {m : Act κ ReturnT} (hst : Resets s t)
    (hm : ∀ u, Resets s u → Always m u fun rc' v => rc' = rc ∧ Placed s cells false v) :
    Always (do closeSocket K; let _ ← m; return false) t fun ok v => Placed s cells ok v :=
  (closeSocket_resets hst).bind fun _ u hu => (hm u hu).bind fun _ _ hv => .pure hv.2

/-! ## Waiting and flushing -/

theorem memcachedIoPoll_placed (event : PollEvent) (s : St κ) :
    Always (memcachedIoPoll K event) s fun rc t => Placed s [] rc.isSuccess t := by
  have hnet (net : κ) : Resets s { s with net := net } := .same rfl rfl rfl rfl
  have fails {m : Act κ ReturnT} {t : St κ} {rc : ReturnT} (hs : rc.isSuccess = false)
      (hm : Always m t fun rc' u => rc' = rc ∧ Placed s [] false u) :
      Always m t fun rc u => Placed s [] rc.isSuccess u :=
    hm.mono fun rc' u hu => by rw [hu.1, hs]; exact hu.2
  have errno (e : Errno) {t : St κ} (ht : Resets s t) : Always (setErrno e) t fun rc u => Placed s [] rc.isSuccess u :=
    fails (ReturnT.isSuccess_of_isIoFailure e.toReturn_isIoFailure) (setErrno_records e ht)
  refine .get_bind (.ite (fun _ => fails rfl (setErrorText_records _ rfl .rfl)) fun _ => ?_)
  refine .ite (fun _ => errno _ .rfl) fun _ => ?_
  split
  · exact .set_bind (.pure (.same rfl rfl rfl rfl (append_nil _).symm))
  · exact .set_bind (fails rfl (setErrorText_records _ rfl (hnet _)))
  · exact .set_bind (errno _ (hnet _))
  · rename_i e net _
    have hrecord : Always (setErrno e) { s with net := net } fun rc t => rc = e.toReturn ∧ Placed s [] false t :=
      setErrno_records e (hnet net)
    refine .set_bind (hrecord.bind fun rc t ht => (closeSocket_placed ht.2).bind fun _ u hu => .pure ?_)
    rw [ht.1, ReturnT.isSuccess_of_isIoFailure e.toReturn_isIoFailure]
    exact hu
  · refine .set_bind ?_
    split
    · exact fails rfl (setError_records rfl (hnet _))
    · exact fails rfl (setErrorText_records _ rfl (hnet _))
    · exact errno _ (hnet _)

/-- A purge as `io_flush` is given it. -/
abbrev PurgePlaced (purge : Act κ Bool) : Prop := ∀ s : St κ, Always purge s fun ok t => Placed s [] ok t

theorem ioWaitOut_placed {purge : Act κ Bool} (hpurge : PurgePlaced purge) (s : St κ) :
    Always (ioWaitOut K purge) s fun rc t => Placed s [] rc.isSuccess t := by
  refine (hpurge s).bind fun ok t ht => ?_
  cases ok with
  | true => exact (memcachedIoPoll_placed _ t).mono fun _ _ hu => ht.after hu
  | false => exact .pure ht

/-- What `Placed` speaks of. -/
def St.stream (s : St κ) : Bool × List ReturnT × Bool × Nat × List OutByte :=
  (s.valid, s.purgeLog, s.isPurging, s.cursorActive, s.copied)

theorem Placed.of_stream (h : t.stream = s.stream) : Placed s [] true t := by
  simp only [St.stream, Prod.mk.injEq] at h
  obtain ⟨hv, hl, hp, hcur, hcop⟩ := h
  exact .same hv hl hp hcur (hcop.trans (append_nil _).symm)

theorem Placed.logWait (h : Placed s cells ok t) (w : Wait) : Placed s cells ok (t.logWait w) where
  toResets := h.toResets.trans (.same rfl rfl rfl rfl)
  copied := h.copied
  valid := h.valid
  told := h.told

theorem repackInputBuffer_stream : Fixes St.stream (repackInputBuffer K) := by
  intro s
  have errno (e : Errno) (net : κ) : Always (do let _ ← setErrno e; return false) { s with net := net }
      fun _ t => t.stream = s.stream :=
    Fixes.bind (.setErrorText e.toReturn "" fun _ _ => rfl) (fun _ => .pure) _
  refine .get_bind (.ite (fun _ => .pure rfl) fun _ => .ite (fun _ => errno _ s.net) fun _ => ?_)
  split
  · exact .set_bind (.pure rfl)
  · refine .set_bind ?_
    exact Fixes.bind (f := St.stream) (.setError _ fun _ _ => rfl) (fun _ => .pure) _
  · exact .set_bind (.ite (fun _ => .pure rfl) fun _ => errno _ _)

theorem flushLoop_placed {purge : Act κ Bool} (hpurge : PurgePlaced purge) (total fuel : Nat) (rest : List OutByte)
    (s : St κ) : Always (flushLoop K purge total fuel rest) s fun ok t => Placed s [] ok t := by
  have done (s : St κ) : Always (do modify fun s : St κ => { s with writeBuffer := [] }; return true) s
      fun ok t => Placed s [] ok t :=
    Always.bind (Q := fun _ t => Placed s [] true t) (.modify (.of_stream rfl)) fun _ _ ht => .pure ht
  induction fuel generalizing rest s with
  | zero =>
    cases rest with
    | nil => exact done s
    | cons c cs => exact .failure
  | succ fuel ih =>
    cases rest with
    | nil => exact done s
    | cons c cs =>
      -- the rest of the loop, from a state reached by steps that write nothing
      have next {rest : List OutByte} {t : St κ} (ht : Placed s [] true t) :
          Always (flushLoop K purge total fuel rest) t fun ok u => Placed s [] ok u :=
        (ih rest t).mono fun _ _ hu => ht.after hu
      have errno (e : Errno) {t : St κ} (ht : Resets s t) :
          Always (do closeSocket K; let _ ← setErrno e; return false) t fun ok u => Placed s [] ok u :=
        closes_records ht fun u hu => setErrno_records e hu
      have lost {t : St κ} (ht : Resets s t) :
          Always (do closeSocket K; let _ ← setError .connectionFailure; return false) t fun ok u => Placed s [] ok u :=
        closes_records ht fun u hu => setError_records rfl hu
      have hnet (net : κ) : Placed s [] true { s with net := net } := .of_stream rfl
      refine .get_bind ?_
      dsimp only
      split
      · exact .set_bind (next (.of_stream rfl))
      · rename_i net _
        refine .set_bind ?_
        split
        · exact next (hnet _)
        · refine (repackInputBuffer_stream _).bind fun repacked t ht => ?_
          have hst : Placed s [] true t := .of_stream ht
          refine .ite (fun _ => next hst) fun _ => .get_bind ?_
          refine (ioWaitOut_placed hpurge t).bind fun rc u hu => ?_
          have hsu : Placed s [] rc.isSuccess u := hst.after hu
          refine Always.bind (Q := fun _ v => Placed s [] rc.isSuccess v) (.modify (hsu.logWait _)) fun _ v hv => ?_
          refine .ite (fun h => ?_) fun h => .ite (fun _ => ?_) fun _ => ?_
          · rw [h] at hv
            exact next hv
          · rw [Bool.not_eq_true] at h
            rw [h] at hv
            exact .pure hv
          · exact errno _ hv.toResets
        · exact lost (hnet _).toResets
        · exact lost (hnet _).toResets
        · exact lost (hnet _).toResets
        · exact errno _ (hnet _).toResets

theorem ioFlush_placed {purge : Act κ Bool} (hpurge : PurgePlaced purge) (s : St κ) :
    Always (ioFlush K purge) s fun ok t => Placed s [] ok t := by
  refine (hpurge s).bind fun ok t ht => ?_
  cases ok with
  | true => exact .get_bind ((flushLoop_placed hpurge _ _ _ t).mono fun _ _ hu => ht.after hu)
  | false => exact .pure ht

/-! ## The purge -/

/-- The answers of a purge: the connection stays as it is until one of them has a fatal code, and only such a
code makes the purge fail. -/
structure Purged (ok : Bool) (s : St κ) (ok' : Bool) (t : St κ) : Prop where
  isPurging : t.isPurging = s.isPurging
  copied : t.copied = s.copied
  log : s.purgeLog <+: t.purgeLog
  shut : s.valid = false → t.valid = false
  reset : ¬CleanTo s t → t.valid = false
  clean : CleanTo s t → s.valid = true → t.valid = true ∧ ok' = ok

theorem purgeFails_isFatal (h : rc.isFatal = false) : purgeFails rc = false := by
  cases rc <;> revert h <;> decide

theorem Purged.trans {ok' ok'' : Bool} (h : Purged ok s ok' t) (h' : Purged ok' t ok'' u) :
    Purged ok s ok'' u where
  isPurging := h'.isPurging.trans h.isPurging
  copied := h'.copied.trans h.copied
  log := h.log.trans h'.log
  shut hv := h'.shut (h.shut hv)
  reset hc := by
    by_cases hst : CleanTo s t
    · exact h'.reset fun htu => hc ((cleanTo_trans h.log h'.log).mpr ⟨hst, htu⟩)
    · exact h'.shut (h.reset hst)
  clean hc hv := by
    obtain ⟨hst, htu⟩ := (cleanTo_trans h.log h'.log).mp hc
    obtain ⟨hvt, rfl⟩ := h.clean hst hv
    exact h'.clean htu hvt

theorem Purged.answer {reply : Reply} (hr : Reads K s t) (hlog : t.purgeLog = s.purgeLog)
    (hclosed : reply.rc.isFatal = true → t.Closed) (hsteady : reply.rc.isFatal = true ∨ t.valid = s.valid) :
    Purged ok s (ok && !purgeFails reply.rc) (t.logPurge s.valid reply.rc) := by
  have hnew : (t.logPurge s.valid reply.rc).purgeLog = if s.valid then s.purgeLog ++ [reply.rc] else s.purgeLog := by
    simp only [St.logPurge, hlog]
  have hclean : CleanTo s (t.logPurge s.valid reply.rc) ↔ (s.valid = true → reply.rc.isFatal = false) := by
    unfold CleanTo
    rw [hnew]
    cases s.valid <;> simp
  refine ⟨hr.isPurging, hr.copied, ?_, fun hv => ?_, fun hc => ?_, fun hc hv => ?_⟩
  · rw [hnew]
    split
    · exact prefix_append _ _
    · exact prefix_rfl
  · exact hr.connection.elim (fun h => h.1.trans hv) fun h => h.1
  · rw [hclean, Classical.not_imp, Bool.not_eq_false] at hc
    exact (hclosed hc.2).1
  · have hrc := hclean.mp hc hv
    rw [purgeFails_isFatal hrc, Bool.not_false, Bool.and_true]
    exact ⟨(hsteady.resolve_left (by rw [hrc]; decide)).trans hv, rfl⟩

theorem purgeLoop_purged {n : Nat} (ok : Bool) (s : St κ) :
    Always (purgeLoop K n ok) s fun ok' t => Purged ok s ok' t := by
  induction n generalizing ok s with
  | zero => exact .pure ⟨rfl, rfl, prefix_rfl, id, fun h => absurd (.of_eq rfl) h, fun _ h => ⟨h, rfl⟩⟩
  | succ n ih =>
    refine .get_bind ?_
    refine (memcachedReadOneResponse_reads _ _ s).always.bind fun reply t ⟨hclosed, hsteady, hlog, hreads⟩ => ?_
    refine Always.bind (Q := fun _ u => Purged ok s (ok && !purgeFails reply.rc) u)
      (.modify (.answer hreads hlog hclosed hsteady)) fun _ u hu => ?_
    exact (ih _ u).mono fun _ _ hv => hu.trans hv

theorem purgeAnswers_placed (s : St κ) : Always (purgeAnswers K) s fun ok t => Placed s [] ok t := by
  refine .get_bind (.ite (fun hmore => ?_) fun _ => .pure (.of_stream rfl))
  have hslow : Purged true s true { s with memc := { s.memc with pollTimeout := 50 } } :=
    ⟨rfl, rfl, prefix_rfl, id, fun h => absurd (.of_eq rfl) h, fun _ h => ⟨h, rfl⟩⟩
  refine Always.bind (Q := fun _ t => Purged true s true t) (.modify hslow) fun _ t ht => ?_
  refine (purgeLoop_purged true t).bind fun ok u hu => ?_
  have hpurged : Purged true s ok u := ht.trans hu
  refine Always.bind (Q := fun _ v => Placed s [] ok v) (.modify ?_) fun _ v hv => .pure hv
  exact
    { isPurging := hpurged.isPurging
      log := hpurged.log
      shut := hpurged.shut
      reset := hpurged.reset
      alone := fun h => absurd hmore (Nat.not_lt.mpr h)
      kept := fun h => absurd hmore (Nat.not_lt.mpr h)
      live := fun h => absurd hmore (Nat.not_lt.mpr h)
      copied := fun _ => hpurged.copied.trans (append_nil _).symm
      valid := fun _ hv hc => (hpurged.clean hc hv).1
      told := fun hok hv hc => absurd (hpurged.clean hc hv).2 (by rw [hok]; decide) }

theorem memcachedPurge_zero_placed : PurgePlaced (memcachedPurge K 0) := fun _ =>
  .get_bind (.ite (fun _ => .pure (.of_stream rfl)) fun _ => .failure)

theorem Placed.purging (h : Placed { s with isPurging := true } cells ok t) (hp : s.isPurging = false) :
    Placed s cells ok { t with isPurging := false } where
  isPurging := hp.symm
  log := h.log
  shut := h.shut
  reset := h.reset
  alone := h.alone
  kept := h.kept
  live := h.live
  copied := h.copied
  valid := h.valid
  told := h.told

theorem purge_placed : PurgePlaced (purge K) := by
  intro s
  refine .get_bind (.ite (fun _ => .pure (.of_stream rfl)) fun hbusy => ?_)
  have hidle : s.isPurging = false := by
    simp only [St.skipsPurge, Bool.or_eq_true, not_or, Bool.not_eq_true] at hbusy
    exact hbusy.1.1
  obtain ⟨begun, hbegun⟩ : ∃ begun : St κ, begun = { s with isPurging := true } := ⟨_, rfl⟩
  have hwrite : Always (ioWrite K (memcachedPurge K 0) [] true) begun fun ok t => Placed begun [] ok t :=
    .bind (Q := fun ok t => ok = true ∧ t = begun) (.pure ⟨rfl, rfl⟩) fun ok t ht => by
      rw [ht.1, ht.2, if_pos rfl, if_pos rfl]
      exact ioFlush_placed memcachedPurge_zero_placed begun
  have hrest (written : Bool) (t : St κ) (ht : Placed begun [] written t) :
      Always (if written then purgeAnswers K else purgeFailed K) t fun ok u => Placed begun [] ok u := by
    cases written with
    | true => exact (purgeAnswers_placed t).mono fun _ _ hu => ht.after hu
    | false => exact closes_records ht.toResets fun u hu => setError_records rfl hu
  refine Always.bind (Q := fun _ t => t = begun) (.modify hbegun.symm) fun _ t ht => ?_
  rw [ht]
  refine hwrite.bind fun written u hu => (hrest written u hu).bind fun ok v hv => ?_
  subst hbegun
  exact Always.bind (Q := fun _ w => Placed s [] ok w) (.modify (hv.purging hidle)) fun _ _ hw => .pure hw

/-! ## Writing -/

theorem placed_written : Written K (Placed (κ := κ)) where
  refl _ := .of_stream rfl
  trans := Placed.trans
  stop cells' h :=
    { toResets := h.toResets
      copied := fun h => absurd h (by decide)
      valid := fun h => absurd h (by decide)
      told := h.told }
  copyIn _ := .same rfl rfl rfl rfl rfl
  flush := ioFlush_placed purge_placed

/-! ## One command -/

/-- A command is written to a connection: `before` is the state in which its first byte is placed, `after` the one
in which its last byte was, or in which the writing was given up. -/
structure Issue (κ : Type) where
  request : Request
  vector : List Bytes
  before : St κ
  ok : Bool
  after : St κ

/-- `memcached_vdo`, started in `s`, writes the command. -/
structure Issue.Of (K : Kernel κ) (quiet : Bool) (s : St κ) (i : Issue κ) : Prop where
  connect : ∃ rc t, memcachedConnect K s = some (rc, t) ∧ t.valid = true ∧ i.before = { t with issued := t.issued + 1 } ∧
    i.request = ⟨t.issued, quiet, i.vector.flatten⟩
  write : writevLoop K (pieces i.vector (command i.request)) i.before = some (i.ok, i.after)

/-- All bytes of the command were placed in the stream of a connection that was not reset since the first of them
was. -/
def Issue.Placed (i : Issue κ) : Prop := i.after.valid = true ∧ command i.request <:+ i.after.copied

/-- No purge read an answer with a fatal code while the bytes were placed. -/
def Issue.Clean (i : Issue κ) : Prop := CleanTo i.before i.after

theorem memcachedConnect_opens (s : St κ) : Always (memcachedConnect K) s fun rc t =>
    rc = .success ∧ t.valid = true ∨ rc.isFatal = true ∧ t.memc.lastError = rc := by
  refine .get_bind (.ite (fun hv => .pure (.inl ⟨rfl, hv⟩)) fun _ => ?_)
  split
  · exact .set_bind (.pure (.inl ⟨rfl, rfl⟩))
  · rename_i rc _ net hconnect
    have hfatal : rc.isFatal = true := K.connect_isFatal s.memc s.backoff s.net rc (by rw [hconnect])
    refine .set_bind (Always.bind (Q := fun _ t => t.memc.lastError = rc) (.modify ?_) fun _ t ht => ?_)
    · exact lastError_errorSet _ _ hfatal
    · exact .pure (.inr ⟨hfatal, ht⟩)

theorem vdoFailed_code (s : St κ) : Always (vdoFailed K) s fun rc t =>
    rc = s.memc.lastError ∧ (rc ≠ .success → t.memc.lastError = rc) := by
  refine .get_bind ?_
  have hset : Always (if s.memc.lastError = .success then setError .writeFailure else pure s.memc.lastError) s
      fun _ t => s.memc.lastError ≠ .success → t.memc = s.memc :=
    .ite (fun h => fun _ _ _ hne => absurd h hne) fun _ => .pure fun _ => rfl
  refine hset.bind fun _ t ht => ?_
  refine Always.bind (Q := fun _ u => s.memc.lastError ≠ .success → u.memc = s.memc) (.modify ht) fun _ u hu => ?_
  exact .pure ⟨rfl, fun hne => by rw [hu hne]⟩

/-- A command that was written: it is placed just if no purge met a fatal answer, or an error was recorded. -/
theorem Issue.placed_iff {i : Issue κ} (hv : i.before.valid = true)
    (h : LM.Placed i.before (command i.request) i.ok i.after) :
    (i.Placed ↔ i.Clean) ∨ i.ok = false ∧ i.after.memc.lastError.isFatal = true := by
  have hclean (h' : i.Placed) : i.Clean := by
    by_contra hc
    rw [Issue.Placed, h.reset hc] at h'
    exact absurd h'.1 (by decide)
  cases hok : i.ok with
  | true => exact .inl ⟨hclean, fun hc => ⟨h.valid hok hv hc, _, (h.copied hok).symm⟩⟩
  | false =>
    by_cases hc : i.Clean
    · exact .inr ⟨rfl, h.told hok hv hc⟩
    · exact .inl ⟨hclean, fun h' => absurd h' hc⟩

theorem memcachedIoWritev_places (quiet : Bool) (vector : List Bytes) (flush : Bool) {id : Nat} (hv : s.valid = true) :
    Always (memcachedIoWritev K (pieces vector (command ⟨id, quiet, vector.flatten⟩)) flush) s fun sent t =>
      (∃ i : Issue κ, i.vector = vector ∧ i.request = ⟨id, quiet, vector.flatten⟩ ∧ i.before = s ∧
        writevLoop K (pieces i.vector (command i.request)) i.before = some (i.ok, i.after) ∧ (i.Placed ↔ i.Clean)) ∨
      sent = false ∧ t.memc.lastError.isFatal = true := by
  refine Always.bind (Q := fun ok t => writevLoop K _ s = some (ok, t)) (fun _ _ h => h) fun ok t hrun => ?_
  have hplaced := placed_written.writevLoop _ s ok t hrun
  rw [pieces_flatten length_command] at hplaced
  rcases Issue.placed_iff (i := ⟨⟨id, quiet, vector.flatten⟩, vector, s, ok, t⟩) hv hplaced with hiff | hfail
  · exact fun _ _ _ => .inl ⟨_, rfl, rfl, rfl, hrun, hiff⟩
  · obtain ⟨hok, hfatal⟩ : ok = false ∧ t.memc.lastError.isFatal = true := hfail
    rw [hok]
    exact .pure (.inr ⟨rfl, hfatal⟩)

/-- `memcached_vdo` either reports an error that it recorded, or has placed its command just if no purge met a
fatal answer in between. -/
theorem memcachedVdo_places {quiet : Bool} {vector : List Bytes} {flush : Bool} {s : St κ} :
    Always (memcachedVdo K quiet vector flush) s fun rc t =>
      (rc.isFatal = true ∧ t.memc.lastError = rc) ∨
        ∃ i : Issue κ, i.vector = vector ∧ i.Of K quiet s ∧ (i.Placed ↔ i.Clean) := by
  refine Always.bind (Q := fun rc t => memcachedConnect K s = some (rc, t)) (fun _ _ h => h) fun rc t hrun => ?_
  rcases memcachedConnect_opens s rc t hrun with ⟨rfl, hopen⟩ | hfail
  · rw [if_neg (by decide)]
    refine .get_bind (.set_bind ?_)
    refine (memcachedIoWritev_places (s := { t with issued := t.issued + 1 }) quiet vector flush hopen).bind
      fun sent u hu => ?_
    rcases hu with ⟨i, rfl, hrequest, hbefore, hwrite, hiff⟩ | ⟨rfl, hfatal⟩
    · exact fun _ _ _ => .inr ⟨i, rfl, ⟨⟨_, t, hrun, hopen, hbefore, hrequest⟩, hwrite⟩, hiff⟩
    · refine (vdoFailed_code u).mono fun rc v hcode => .inl ?_
      rw [← hcode.1] at hfatal
      exact ⟨hfatal, hcode.2 fun h => by rw [h] at hfatal; exact absurd hfatal (by decide)⟩
  · rw [if_pos (ReturnT.isFailed_of_isFatal hfail.1)]
    exact .pure (.inl hfail)

end LM
