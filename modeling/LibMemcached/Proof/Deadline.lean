import Mathlib.Algebra.Order.BigOperators.Group.List
import Mathlib.Algebra.Ring.Int.Defs
import LibMemcached.Impl.Poll

/-!
# The deadline of an interrupted wait

`memcached_io_poll` subtracts, at each interruption, the time since it was entered
from the timeout of the last call. So the time up to the first interruption is
subtracted again at the second, and the timeouts are `timeout` less the sum of the
times of all interruptions. They stay within the deadline exactly when that sum
stays below the timeout (`deadline_kept_iff`).
-/

namespace LM.Poll

open List

variable {w : Wait} {p : Int32} {polled : Polled} {reading last : Reading} {rest : List Polled}
  {ended : Ended}

/-! ## Times -/

/-- The milliseconds from the beginning of the wait to a reading. -/
def Wait.ms (w : Wait) (reading : Reading) : Int := (reading.ns.toInt - w.start.ns.toInt) / 1000000

theorem Wait.ms_nonneg (w : Wait) (h : w.start.ns ≤ reading.ns) : 0 ≤ w.ms reading := by
  rw [Int64.le_iff_toInt_le] at h
  unfold Wait.ms
  omega

/-- The code's elapsed time is the one in integers: no reading is negative. -/
theorem Wait.toInt_elapsedMs (w : Wait) (h : w.start.ns ≤ reading.ns) :
    (w.elapsedMs reading).toInt = w.ms reading := by
  have hstart := Int64.le_iff_toInt_le.mp w.start.nonneg
  have hlt := reading.ns.toInt_lt
  rw [Int64.le_iff_toInt_le] at h
  have hzero : (0 : Int64).toInt = 0 := rfl
  have hsub : (reading.ns - w.start.ns).toInt = reading.ns.toInt - w.start.ns.toInt := by
    rw [Int64.toInt_sub]
    exact Int.bmod_eq_of_le (by omega) (by omega)
  have hms : nsPerMs.toInt = 1000000 := rfl
  unfold Wait.elapsedMs Wait.ms
  rw [Int64.toInt_div_of_ne_right _ _ (by decide), hsub, hms]
  exact Int.tdiv_eq_ediv_of_nonneg (by omega)

/-- The readings of the clock at the interruptions. -/
def readings (polled : List Polled) : List Reading :=
  polled.filterMap fun
    | .interrupted reading => some reading
    | _ => none

/-- The last reading of the clock. -/
def lastReading (start : Reading) (polled : List Polled) : Reading :=
  (readings polled).getLast?.getD start

/-- `poll` is called again behind this report. -/
def Wait.goesOn (w : Wait) : Polled → Bool
  | .interrupted reading => w.ms reading < w.timeout.toInt && w.start.ns ≠ 0
  | .active revents trouble _ =>
    (revents &&& pollTrouble = 0 || trouble = .none) && revents &&& w.events = 0 &&
      !(w.events = ioPollConnect && revents &&& pollOut ≠ 0)
  | _ => false

/-- The times of the interruptions behind which the wait goes on, added up. -/
def Wait.timeInterrupted (w : Wait) (polled : List Polled) : Int :=
  ((readings (polled.takeWhile w.goesOn)).map w.ms).sum

/-- The clock does not go back behind the beginning of the wait. -/
def Wait.ClockForward (w : Wait) (polled : List Polled) : Prop :=
  ∀ reading ∈ readings polled, w.start.ns ≤ reading.ns

/-- Every call of `poll` gets a positive timeout that ends by the deadline, as far as the clock was
read before the call; `last` is the reading before the first. -/
def Wait.KeepsDeadline (w : Wait) (last : Reading) (polled : List Polled) (timeouts : List Int32) :
    Prop :=
  ∀ i t, timeouts[i]? = some t →
    1 ≤ t.toInt ∧ t.toInt ≤ w.timeout.toInt - w.ms (lastReading last (polled.take i))

/-! ## One round -/

theorem ioSockErr_success_iff {reason : String} {err : SockErr} :
    (ioSockErr reason err).1 = .success ↔ err = .none := by
  cases err with
  | none => simp [ioSockErr]
  | pending e | failed e => cases e <;> simp [ioSockErr, Errno.toReturn]

theorem afterPoll_of_not_goesOn (p : Int32) (hclock : w.ClockForward [polled]) (h : w.goesOn polled = false) :
    ∃ ended, afterPoll w p polled = .inl ended := by
  cases polled with
  | interrupted reading =>
    have hms := w.toInt_elapsedMs (hclock reading (by simp [readings]))
    have hend : w.elapsedMs reading ≥ w.timeout.toInt64 ∨ w.start.ns = 0 := by
      rw [ge_iff_le, Int64.le_iff_toInt_le, hms, Int32.toInt_toInt64]
      simpa [Wait.goesOn, Classical.or_iff_not_imp_left] using h
    exact ⟨_, if_pos hend⟩
  | timedOut err =>
    simp only [afterPoll]
    repeat' split
    all_goals exact ⟨_, rfl⟩
  | active revents trouble connected =>
    by_cases hready : revents &&& w.events ≠ 0 ∨ (w.events = ioPollConnect ∧ revents &&& pollOut ≠ 0)
    · simp only [afterPoll, hready, if_true]
      repeat' split
      all_goals exact ⟨_, rfl⟩
    · -- nothing that was asked for, so the socket is in trouble
      obtain ⟨hevents, hconnect⟩ := not_or.mp hready
      have htrouble : revents &&& pollTrouble ≠ 0 ∧ trouble ≠ .none := by
        simpa [Wait.goesOn, Decidable.not_not.mp hevents, hconnect] using h
      have hrc : (ioSockErr "poll(POLLERR|POLLHUP|POLLNVAL)" trouble).1 ≠ .success :=
        fun hs => htrouble.2 (ioSockErr_success_iff.mp hs)
      simp only [afterPoll, htrouble.1, ne_eq, not_false_eq_true, if_true, hrc]
      exact ⟨_, rfl⟩
  | noMemory | invalid | failed => exact ⟨_, rfl⟩

theorem afterPoll_interrupted (p : Int32) (hle : w.start.ns ≤ reading.ns)
    (h : w.goesOn (.interrupted reading) = true) :
    afterPoll w p (.interrupted reading) = .inr (p.toInt64 - w.elapsedMs reading).toInt32 := by
  have hgo : ¬ (w.elapsedMs reading ≥ w.timeout.toInt64 ∨ w.start.ns = 0) := by
    rw [ge_iff_le, Int64.le_iff_toInt_le, w.toInt_elapsedMs hle, Int32.toInt_toInt64]
    simpa [Wait.goesOn] using h
  exact if_neg hgo

/-- As long as the timeout is positive, the subtraction is the one of integers. -/
theorem toInt_next (hle : w.start.ns ≤ reading.ns) (h : w.goesOn (.interrupted reading) = true)
    (hp : 1 ≤ p.toInt) : (p.toInt64 - w.elapsedMs reading).toInt32.toInt = p.toInt - w.ms reading := by
  have hms := w.ms_nonneg hle
  have hlt : w.ms reading < w.timeout.toInt := by
    simp only [Wait.goesOn, Bool.and_eq_true, decide_eq_true_eq] at h
    exact h.1
  have htimeout := w.timeout.toInt_lt
  have hplt := p.toInt_lt
  have hsub : (p.toInt64 - w.elapsedMs reading).toInt = p.toInt - w.ms reading := by
    rw [Int64.toInt_sub, Int32.toInt_toInt64, w.toInt_elapsedMs hle]
    exact Int.bmod_eq_of_le (by omega) (by omega)
  rw [Int64.toInt_toInt32, hsub]
  exact Int.bmod_eq_of_le (by omega) (by omega)

theorem afterPoll_active {revents : UInt16} {trouble connected : SockErr} (p : Int32)
    (h : w.goesOn (.active revents trouble connected) = true) :
    afterPoll w p (.active revents trouble connected) = .inr p := by
  simp only [Wait.goesOn, Bool.and_eq_true, Bool.or_eq_true, decide_eq_true_eq,
    Bool.not_eq_true', Bool.and_eq_false_iff, decide_eq_false_iff_not] at h
  obtain ⟨⟨hquiet, hevents⟩, hconnect⟩ := h
  have hrc : (if revents &&& pollTrouble ≠ 0 then
      ioSockErr "poll(POLLERR|POLLHUP|POLLNVAL)" trouble else (.success, "")).1 = .success := by
    split
    · exact ioSockErr_success_iff.mpr (hquiet.resolve_left ‹_›)
    · rfl
  have hready : ¬ (revents &&& w.events ≠ 0 ∨
      (w.events = ioPollConnect ∧ revents &&& pollOut ≠ 0)) := by
    rintro (h | ⟨h, h'⟩)
    · exact h hevents
    · exact hconnect.elim (fun hne => hne h) (fun hne => hne h')
  unfold afterPoll
  dsimp only
  generalize (if revents &&& pollTrouble ≠ 0 then
      ioSockErr "poll(POLLERR|POLLHUP|POLLNVAL)" trouble else (.success, "")) = result at hrc ⊢
  rw [if_neg fun h => h hrc, if_neg hready]

/-! ## The loop -/

theorem Wait.ClockForward.cons (h : w.ClockForward (polled :: rest)) :
    w.ClockForward [polled] ∧ w.ClockForward rest := by
  rw [Wait.ClockForward, ← singleton_append, readings, filterMap_append] at h
  exact forall_mem_append.mp h

theorem Wait.timeInterrupted_nonneg {polled : List Polled} (h : w.ClockForward polled) :
    0 ≤ w.timeInterrupted polled := by
  refine sum_nonneg fun t ht => ?_
  obtain ⟨reading, hmem, rfl⟩ := mem_map.mp ht
  have hsub : (polled.takeWhile w.goesOn).Sublist polled := takeWhile_sublist _
  exact w.ms_nonneg (h reading ((hsub.filterMap _).subset hmem))

theorem lastReading_cons_interrupted (last reading : Reading) (polled : List Polled) :
    lastReading last (.interrupted reading :: polled) = lastReading reading polled := by
  simp [lastReading, readings, List.getLast?_cons]

theorem lastReading_cons_active (last : Reading) (revents : UInt16) (trouble connected : SockErr)
    (polled : List Polled) :
    lastReading last (.active revents trouble connected :: polled) = lastReading last polled := rfl

/-- The first call is judged by the last reading, the others by the rest of the run. -/
theorem keepsDeadline_cons {next : Reading} {timeouts : List Int32}
    (hnext : ∀ l, lastReading last (polled :: l) = lastReading next l) :
    w.KeepsDeadline last (polled :: rest) (p :: timeouts) ↔
      (1 ≤ p.toInt ∧ p.toInt ≤ w.timeout.toInt - w.ms last) ∧ w.KeepsDeadline next rest timeouts := by
  constructor
  · intro h
    refine ⟨h 0 p rfl, fun i t ht => ?_⟩
    have := h (i + 1) t ht
    rwa [take_succ_cons, hnext] at this
  · rintro ⟨hfirst, hrest⟩ i t ht
    cases i with
    | zero =>
      obtain rfl := Option.some.inj ht
      exact hfirst
    | succ i =>
      rw [take_succ_cons, hnext]
      exact hrest i t ht

theorem keepsDeadline_singleton {polled : List Polled} :
    w.KeepsDeadline last polled [p] ↔ 1 ≤ p.toInt ∧ p.toInt ≤ w.timeout.toInt - w.ms last := by
  constructor
  · intro h
    exact h 0 p rfl
  · intro h i t ht
    cases i with
    | zero =>
      obtain rfl := Option.some.inj ht
      exact h
    | succ i => simp at ht

theorem pollLoop_head {polled : List Polled} (h : w.KeepsDeadline last polled (pollLoop w p polled).1) :
    1 ≤ p.toInt := by
  refine (h 0 p ?_).1
  cases polled with
  | nil => rfl
  | cons polled rest =>
    simp only [pollLoop]
    split <;> rfl

/-- A run of the loop from a timeout of which `spent` has been subtracted. -/
theorem pollLoop_keepsDeadline_iff {polled : List Polled} (hclock : w.ClockForward polled) {spent : Int}
    (hp : p.toInt = w.timeout.toInt - spent) (hnonneg : 0 ≤ spent) (hpos : spent < w.timeout.toInt)
    (hlast : w.ms last ≤ spent) : w.KeepsDeadline last polled (pollLoop w p polled).1 ↔
      spent + w.timeInterrupted polled < w.timeout.toInt := by
  have hfirst : 1 ≤ p.toInt ∧ p.toInt ≤ w.timeout.toInt - w.ms last := by omega
  induction polled generalizing p spent last with
  | nil => simpa [pollLoop, keepsDeadline_singleton, hfirst, Wait.timeInterrupted, readings] using hpos
  | cons polled rest ih =>
    cases hgo : w.goesOn polled with
    | false =>
      obtain ⟨ended, hended⟩ := afterPoll_of_not_goesOn p hclock.cons.1 hgo
      simpa [pollLoop, hended, keepsDeadline_singleton, hfirst, Wait.timeInterrupted, hgo, readings]
        using hpos
    | true =>
      cases polled with
      | interrupted reading =>
        have hle := hclock.cons.1 reading (by simp [readings])
        have hms := w.ms_nonneg hle
        have hrest := w.timeInterrupted_nonneg hclock.cons.2
        have hnext := toInt_next hle hgo hfirst.1
        have hsum : w.timeInterrupted (.interrupted reading :: rest) =
            w.ms reading + w.timeInterrupted rest := by
          simp [Wait.timeInterrupted, hgo, readings]
        simp only [pollLoop, afterPoll_interrupted p hle hgo]
        rw [keepsDeadline_cons (lastReading_cons_interrupted last reading), hsum]
        by_cases hspent : spent + w.ms reading < w.timeout.toInt
        · have hih : w.KeepsDeadline reading rest
                (pollLoop w (p.toInt64 - w.elapsedMs reading).toInt32 rest).1 ↔
              spent + w.ms reading + w.timeInterrupted rest < w.timeout.toInt :=
            ih hclock.cons.2 (by omega) (by omega) hspent (by omega) (by omega)
          rw [hih, Int.add_assoc]
          exact and_iff_right hfirst
        · -- the next call already gets a timeout that is not positive
          have hbroken : ¬ w.KeepsDeadline reading rest
              (pollLoop w (p.toInt64 - w.elapsedMs reading).toInt32 rest).1 := by
            intro h
            have := pollLoop_head h
            omega
          constructor
          · exact fun h => absurd h.2 hbroken
          · intro h
            omega
      | active revents trouble connected =>
        have hsum : w.timeInterrupted (.active revents trouble connected :: rest) =
            w.timeInterrupted rest := by
          simp [Wait.timeInterrupted, hgo, readings]
        simp only [pollLoop, afterPoll_active p hgo]
        rw [keepsDeadline_cons (lastReading_cons_active last revents trouble connected), hsum,
          and_iff_right hfirst]
        exact ih hclock.cons.2 hp hnonneg hpos hlast hfirst
      | noMemory | invalid | failed | timedOut => exact absurd hgo (by simp [Wait.goesOn])

/-- A wait with a positive timeout keeps its deadline, whatever `poll` reports and however often it
is interrupted, exactly when the times of the interruptions add up to less than the timeout. -/
theorem deadline_kept_iff (root : Memcached) (events : UInt16) (already : Bool) (start : Reading)
    (polled : List Polled) (htimeout : 0 < timeoutOf root events)
    (hclock : ∀ reading ∈ readings polled, start.ns ≤ reading.ns) :
    (⟨events, already, timeoutOf root events, start⟩ : Wait).KeepsDeadline start polled
        (memcachedIoPoll root events already (.ok start) polled).1 ↔
      (⟨events, already, timeoutOf root events, start⟩ : Wait).timeInterrupted polled <
        (timeoutOf root events).toInt := by
  have hpos : 0 < (timeoutOf root events).toInt := by
    rw [Int32.lt_iff_toInt_lt] at htimeout
    simpa using htimeout
  have hne : timeoutOf root events ≠ 0 := by
    intro h
    rw [h] at htimeout
    exact absurd htimeout (by decide)
  have hstart : Wait.ms ⟨events, already, timeoutOf root events, start⟩ start = 0 := by
    simp [Wait.ms]
  have hrun := pollLoop_keepsDeadline_iff (w := ⟨events, already, timeoutOf root events, start⟩)
    hclock (p := timeoutOf root events) (Int.sub_zero _).symm (le_refl 0) hpos (le_of_eq hstart)
  rw [Int.zero_add] at hrun
  rw [memcachedIoPoll, if_neg hne]
  exact hrun

theorem deadline_kept_iff_once :
    (⟨1, false, 100, ⟨1000000000, by decide⟩⟩ : Wait).KeepsDeadline ⟨1000000000, by decide⟩
        [.interrupted ⟨1040000000, by decide⟩]
        (memcachedIoPoll { pollTimeout := 100 } 1 false (.ok ⟨1000000000, by decide⟩)
          [.interrupted ⟨1040000000, by decide⟩]).1 ↔
      (⟨1, false, 100, ⟨1000000000, by decide⟩⟩ : Wait).timeInterrupted
        [.interrupted ⟨1040000000, by decide⟩] < (100 : Int32).toInt :=
  deadline_kept_iff { pollTimeout := 100 } 1 false ⟨1000000000, by decide⟩
    [.interrupted ⟨1040000000, by decide⟩] (by decide) (by decide)

/-- A wait of 100 ms that is interrupted after 40 ms and after 80 ms: the third call waits for ever. -/
theorem interrupted_wait_is_endless :
    (memcachedIoPoll { pollTimeout := 100 } 1 false (.ok ⟨1000000000, by decide⟩)
      [.interrupted ⟨1040000000, by decide⟩, .interrupted ⟨1080000000, by decide⟩]).1 =
      [100, 60, -20] := by
  decide +kernel

/-! ## The client's view -/

/-- What one wait of the client's model is told when the loop ends behind a report. -/
def Polled.result (w : Wait) : Polled → PollResult
  | .interrupted _ => .timedOut
  | .noMemory => .failed .enomem
  | .invalid => .failed .einval
  | .failed errno => .failed errno
  | .timedOut .none => .timedOut
  | .timedOut (.pending e) | .timedOut (.failed e) =>
    if w.already then .timedOut else .timedOutError e
  | .active revents trouble _ =>
    if revents &&& pollTrouble = 0 then .ready
    else
      match trouble with
      | .none => .ready
      | .pending e | .failed e => .hangup e

/-- The code that the client's wait returns. -/
def pollCode : PollResult → ReturnT
  | .ready => .success
  | .timedOut => .timeout
  | .timedOutError e | .hangup e | .failed e => e.toReturn

theorem memcachedIoPoll_code {κ : Type} (K : Kernel κ) {s : St κ} (event : PollEvent)
    (hvalid : s.valid = true) (htimeout : s.memc.pollTimeout ≠ 0) :
    Ensures (LM.memcachedIoPoll K event) s fun rc _ =>
      rc = pollCode (K.poll s.net event s.memc.pollTimeout).1 := by
  rcases hpoll : K.poll s.net event s.memc.pollTimeout with ⟨result, net⟩
  unfold LM.memcachedIoPoll
  simp only [ensures_bind, ensures_get, htimeout, if_false, hvalid, Bool.not_true, hpoll]
  cases result with
  | failed e => cases e <;> simp [pollCode, setErrno, setError, setErrorText, Errno.toReturn]
  | ready | timedOut | timedOutError | hangup =>
    simp [pollCode, setErrno, setErrorText, closeSocket]

theorem afterPoll_rc (hevents : w.events ≠ ioPollConnect) (h : afterPoll w p polled = .inl ended) :
    ended.rc = pollCode (polled.result w) := by
  have hfatal (e : Errno) : e.toReturn ≠ .success := by cases e <;> simp [Errno.toReturn]
  cases polled with
  | interrupted reading =>
    simp only [afterPoll] at h
    split at h
    · cases h
      rfl
    · cases h
  | timedOut err =>
    cases hal : w.already <;> cases err <;>
      simp [afterPoll, hal, ioSockErr, hfatal] at h <;> subst h <;> simp [Polled.result, pollCode, hal]
  | active revents trouble connected =>
    have hready {x : Ended ⊕ Int32} (hx : x = .inl ended)
        (hif : x = if revents &&& w.events = 0 then .inr p else .inl ⟨.success, "", .kept⟩) :
        ended.rc = .success := by
      rw [hif] at hx
      split at hx
      · cases hx
      · cases hx
        rfl
    by_cases hquiet : revents &&& pollTrouble = 0
    · rw [hready h (by simp [afterPoll, hquiet, hevents])]
      simp [Polled.result, pollCode, hquiet]
    · cases trouble with
      | none =>
        rw [hready h (by simp [afterPoll, hquiet, hevents, ioSockErr])]
        simp [Polled.result, pollCode, hquiet]
      | pending e | failed e =>
        simp [afterPoll, hquiet, ioSockErr, hfatal, hevents] at h
        simp [Polled.result, pollCode, hquiet, ← h]
  | noMemory | invalid | failed =>
    cases h
    rfl

/-- A wait that ends returns what the client's model of one wait returns when it is told how the
loop ended. -/
theorem pollLoop_returns {polled : List Polled} (hevents : w.events ≠ ioPollConnect)
    (h : (pollLoop w p polled).2 = some ended) :
    ∃ result, ∀ {κ : Type} (K : Kernel κ) (s : St κ) (event : PollEvent), s.valid = true →
      s.memc.pollTimeout ≠ 0 → (K.poll s.net event s.memc.pollTimeout).1 = result →
      Ensures (LM.memcachedIoPoll K event) s fun rc _ => rc = ended.rc := by
  induction polled generalizing p with
  | nil => cases h
  | cons polled rest ih =>
    simp only [pollLoop] at h
    split at h
    · rename_i ended' hended
      obtain rfl := Option.some.inj h
      refine ⟨polled.result w, fun K s event hvalid htimeout hpoll => ?_⟩
      rw [afterPoll_rc hevents hended, ← hpoll]
      exact memcachedIoPoll_code K event hvalid htimeout
    · exact ih h

end LM.Poll
