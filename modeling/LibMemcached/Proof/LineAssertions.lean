import LibMemcached.Proof.LineSafety
import LibMemcached.Proof.Output

/-!
# The assertion on pending output

`ascii_raw_response_handler` drains the output and then asserts that there is some. So it can only be
called while the socket takes less than is waiting: a line that is answered through it fails the
assertion on a connection with nothing to send, and is safe as long as the results of `send` during
the line stay below what was waiting before it.
-/

namespace LM

open List

variable {σ : Type} {α : Type} {events : List LineEvent} (out : Output)

namespace Output

/-- The number of bytes that the results of `send` report. -/
def sentBytes (results : List SendResult) : Nat :=
  (results.map fun
    | .sent n => n
    | .error _ => 0).sum

theorem waiting_length : out.waiting.length = (out.chunks.map fun chunk => chunk.rest.length).sum := by
  rw [waiting, length_flatten, map_map]
  rfl

/-- A drain takes no more than `send` reports. -/
theorem drainOutput_waiting (results : List SendResult) (out : Output) :
    out.waiting.length ≤ (drainOutput results out).2.waiting.length + sentBytes results := by
  induction results generalizing out with
  | nil => exact Nat.le_refl _
  | cons r rs ih =>
    have hsent : sentBytes (r :: rs) = (match r with
        | .sent n => n
        | .error _ => 0) + sentBytes rs := sum_cons
    rw [drainOutput, hsent]
    cases hchunks : out.chunks with
    | nil =>
      dsimp only
      omega
    | cons chunk next =>
      cases r with
      | sent n =>
        have hbefore : out.waiting.length =
            chunk.rest.length + (next.map fun chunk => chunk.rest.length).sum := by
          rw [waiting_length, hchunks, map_cons, sum_cons]
        have hrest : chunk.rest.length = chunk.data.length - chunk.offset := length_drop
        dsimp only
        split
        · rename_i hend
          have h := ih { out with
            chunks := next, accepted := out.accepted ++ chunk.rest.take (min n chunk.rest.length) }
          rw [waiting_length] at h
          dsimp only at h
          simp only [Chunk.nbytes] at hend
          omega
        · have h := ih { out with
            chunks := { chunk with offset := chunk.offset + min n chunk.rest.length } :: next,
            accepted := out.accepted ++ chunk.rest.take (min n chunk.rest.length) }
          rw [waiting_length, map_cons, sum_cons] at h
          have hrest' : (Chunk.mk chunk.data (chunk.offset + min n chunk.rest.length)).rest.length =
              chunk.data.length - (chunk.offset + min n chunk.rest.length) := length_drop
          omega
      | error e =>
        have hstay : out.waiting.length ≤ out.waiting.length + (0 + sentBytes rs) := by omega
        have hfailed (e : Errno) : out.waiting.length ≤
            ({ out with chunks := chunk :: next, error := some e }).waiting.length + (0 + sentBytes rs) := by
          rw [waiting_length] at hstay ⊢
          rw [waiting_length, hchunks] at *
          exact hstay
        cases e
        case eagain => exact hstay
        case eintr =>
          have h := ih out
          dsimp only
          omega
        all_goals exact hfailed _

theorem sum_modify_le {g : α → Nat} {f : α → α} (h : ∀ a, g a ≤ g (f a)) (l : List α) (x : Nat) :
    (l.map g).sum ≤ ((l.modify x f).map g).sum := by
  induction l generalizing x with
  | nil => simp
  | cons a l ih =>
    cases x with
    | zero =>
      have := h a
      simp only [modify_zero_cons, map_cons, sum_cons]
      omega
    | succ x =>
      have := ih x
      simp only [modify_succ_cons, map_cons, sum_cons]
      omega

theorem allocateOutputChunk_waiting : out.allocateOutputChunk.waiting.length = out.waiting.length := by
  simp [waiting_length, allocateOutputChunk, Chunk.rest]

theorem chunkToFill_waiting (chunk : Option Nat) :
    (out.chunkToFill chunk).2.waiting.length = out.waiting.length := by
  cases chunk with
  | none => exact allocateOutputChunk_waiting out
  | some x =>
    rw [chunkToFill]
    split
    · exact allocateOutputChunk_waiting out
    · rfl

/-- What is spooled takes nothing away. -/
theorem spoolLoop_waiting (data : Bytes) (fuel offset : Nat) (chunk : Option Nat) (out : Output) :
    out.waiting.length ≤ (spoolLoop data fuel offset chunk out).waiting.length := by
  induction fuel generalizing offset chunk out with
  | zero => exact Nat.le_refl _
  | succ fuel ih =>
    rw [spoolLoop]
    split
    · refine Nat.le_trans ?_ (ih _ _ _)
      rw [← chunkToFill_waiting out chunk, waiting_length, waiting_length]
      refine sum_modify_le (fun c => ?_) _ _
      simp only [Chunk.rest, length_drop, length_append]
      omega
    · exact Nat.le_refl _

theorem spoolOutput_waiting (data : Bytes) (out : Output) :
    out.waiting.length ≤ (spoolOutput data out).waiting.length := by
  rw [spoolOutput]
  split
  · exact Nat.le_refl _
  · exact spoolLoop_waiting data _ _ _ out

/-- It makes no difference to a drain whether the client is muted. -/
theorem drainOutput_mute (results : List SendResult) (out : Output) (on : Bool) :
    drainOutput results { out with mute := on } =
      ((drainOutput results out).1, { (drainOutput results out).2 with mute := on }) := by
  induction results generalizing out with
  | nil => rfl
  | cons r rs ih =>
    obtain ⟨chunks, mute, error, accepted⟩ := out
    rw [drainOutput, drainOutput]
    cases chunks with
    | nil => rfl
    | cons chunk next =>
      cases r with
      | sent n => exact ih ⟨_, mute, error, _⟩
      | error e =>
        cases e
        case eintr => exact ih _
        all_goals rfl

theorem sentBytes_append {results results' : List SendResult} :
    sentBytes (results ++ results') = sentBytes results + sentBytes results' := by
  rw [sentBytes, map_append, sum_append]
  rfl

theorem asciiRawResponseHandler_waiting (text : Bytes) {results : List SendResult} {out : Output}
    (h : sentBytes results < out.waiting.length) :
    (out.asciiRawResponseHandler text results).1 = true ∧ out.waiting.length ≤
        (out.asciiRawResponseHandler text results).2.waiting.length + sentBytes results := by
  have hdrain := drainOutput_waiting results out
  rw [asciiRawResponseHandler]
  generalize drainOutput results out = drained at hdrain
  obtain ⟨ok, out'⟩ := drained
  cases ok with
  | false => exact ⟨rfl, hdrain⟩
  | true =>
    have hspool := spoolOutput_waiting text out'
    have hne : out'.chunks ≠ [] := by
      intro hnil
      rw [waiting_length out', hnil] at hdrain
      simp only [map_nil, sum_nil] at hdrain
      omega
    exact ⟨decide_eq_true hne, by dsimp only at hdrain ⊢; omega⟩

end Output

/-! ## Responses -/

/-- While less is sent than is waiting, every assertion holds. -/
theorem emit_holds (events : List LineEvent) (drains : List (List SendResult)) (out : Output)
    (h : Output.sentBytes drains.flatten < out.waiting.length) : (emit events drains out).1 = true := by
  induction events generalizing drains out with
  | nil => rfl
  | cons event events ih =>
    cases event with
    | raw text =>
      have hsplit : Output.sentBytes drains.flatten =
          Output.sentBytes (drains.headD []) + Output.sentBytes drains.tail.flatten := by
        cases drains with
        | nil => rfl
        | cons results drains => exact Output.sentBytes_append
      obtain ⟨hheld, hleft⟩ := @Output.asciiRawResponseHandler_waiting text (drains.headD []) out (by omega)
      have hrest := ih drains.tail (out.asciiRawResponseHandler text (drains.headD [])).2 (by omega)
      simp only [emit, hheld, hrest, Bool.and_self]
    | spool data => exact ih drains _ (Nat.lt_of_lt_of_le h (Output.spoolOutput_waiting data out))
    | mute on => exact ih drains _ h
    | call invocation => exact ih drains out h
    | token index => exact ih drains out h
    | region start len => exact ih drains out h
    | abort => exact ih drains out h

/-- Nothing is answered through `ascii_raw_response_handler`. -/
def Quiet (events : List LineEvent) : Prop := ∀ text, .raw text ∉ events

theorem emit_quiet (h : Quiet events) (drains : List (List SendResult)) (out : Output) :
    (emit events drains out).1 = true := by
  induction events generalizing out with
  | nil => rfl
  | cons event events ih =>
    have hevents : Quiet events := fun text hmem => h text (mem_cons_of_mem _ hmem)
    cases event with
    | raw text => exact absurd mem_cons_self (h text)
    | spool data => exact ih hevents _
    | mute on => exact ih hevents _
    | call invocation => exact ih hevents out
    | token index => exact ih hevents out
    | region start len => exact ih hevents out
    | abort => exact ih hevents out

/-- The first response is one of `ascii_raw_response_handler`. -/
def firstIsRaw : List LineEvent → Bool
  | [] => false
  | .raw _ :: _ => true
  | .spool _ :: _ => false
  | _ :: events => firstIsRaw events

/-- The socket takes everything that is waiting. -/
def Drains (results : List SendResult) (out : Output) : Prop :=
  (Output.drainOutput results out).1 = true ∧ (Output.drainOutput results out).2.chunks = []

theorem drains_mute {results : List SendResult} {out : Output} (h : Drains results out) (on : Bool) :
    Drains results { out with mute := on } := by
  rw [Drains, Output.drainOutput_mute]
  exact h

/-- If the socket takes everything, such a response fails the assertion. -/
theorem emit_fails (h : firstIsRaw events = true) {drains : List (List SendResult)} {out : Output}
    (hall : Drains (drains.headD []) out) : (emit events drains out).1 = false := by
  induction events generalizing out with
  | nil => exact nomatch h
  | cons event events ih =>
    cases event with
    | raw text =>
      obtain ⟨hok, hempty⟩ := hall
      have hheld : (out.asciiRawResponseHandler text (drains.headD [])).1 = false := by
        rw [Output.asciiRawResponseHandler]
        generalize Output.drainOutput (drains.headD []) out = drained at hok hempty
        obtain ⟨ok, out'⟩ := drained
        cases hok
        exact decide_eq_false (not_not_intro hempty)
      simp only [emit, hheld, Bool.false_and]
    | spool data => exact nomatch h
    | mute on => exact ih h (drains_mute hall on)
    | call invocation => exact ih h hall
    | token index => exact ih h hall
    | region start len => exact ih h hall
    | abort => exact ih h hall

/-- Whether the events have such responses, of which the first is before any other. -/
def Opens (raw : Bool) (events : List LineEvent) : Prop :=
  if raw then firstIsRaw events = true else Quiet events

section Opens

variable {raw : Bool} {events : List LineEvent}

theorem opens_response (text : String) {events : List LineEvent} : Opens true (.response text :: events) := rfl

theorem opens_usage {command : AsciiCmd} : Opens true (usageEvents command) := rfl

theorem opens_nil : Opens false [] := fun _ h => nomatch h

theorem Opens.cons {event : LineEvent} (hraw : ∀ text, event ≠ .raw text)
    (hspool : ∀ data, event ≠ .spool data) (h : Opens raw events) : Opens raw (event :: events) := by
  cases raw with
  | false =>
    intro text hmem
    rcases mem_cons.mp hmem with heq | hmem
    · exact hraw text heq.symm
    · exact h text hmem
  | true =>
    cases event with
    | raw text => exact absurd rfl (hraw text)
    | spool data => exact absurd rfl (hspool data)
    | mute on => exact h
    | call invocation => exact h
    | token index => exact h
    | region start len => exact h
    | abort => exact h

theorem Opens.call (invocation : Invocation) (h : Opens raw events) :
    Opens raw (.call invocation :: events) := h.cons (by simp) (by simp)

theorem Opens.region (start len : Nat) (h : Opens raw events) : Opens raw (.region start len :: events) := h.cons (by simp) (by simp)

theorem Opens.token (index : Int) (h : Opens raw events) : Opens raw (.token index :: events) :=
  h.cons (by simp) (by simp)

theorem Opens.mute (on : Bool) (h : Opens raw events) : Opens raw (.mute on :: events) :=
  h.cons (by simp) (by simp)

theorem Opens.number (t : Tokenized) (i : Nat) (h : Opens raw events) : Opens raw (t.number i ++ events) := .token _ (.region _ _ h)

theorem opens_flatMap {events : α → List LineEvent}
    (h : ∀ a, ∃ text more, events a = .response text :: more) {entries : List α} :
    Opens (entries ≠ []) (entries.flatMap events) := by
  cases entries with
  | nil => exact opens_nil
  | cons a entries =>
    obtain ⟨text, more, heq⟩ := h a
    rw [flatMap_cons, heq]
    exact opens_response text

end Opens

/-! ## Which lines are answered -/

/-- The data of a storage command is not there yet, with everything before it legal. -/
def Tokenized.waits (t : Tokenized) : Bool :=
  (t.key 1).isSome && !(strtoull (t.string 2)).2.2 && !(strtoull (t.string 3)).2.2 &&
    !(strtoull (t.string 4)).2.2 &&
    t.lacksData (strtoull (t.string 4)).1

/-- Whether the `switch` answers through `ascii_raw_response_handler`, with all callbacks there: not
when data is waited for, when a number is out of range, when the connection ends, and when the
application has nothing to hand over. -/
def Tokenized.answers (I : Interface σ) (t : Tokenized) (s : Serving σ) : Bool :=
  match s.asciiCommand with
  | .set | .add | .replace | .append | .prepend => !(t.ntokens = 5 && t.waits)
  | .cas => !(t.ntokens = 6 && t.waits)
  | .incr | .decr => !(t.ntokens = 3 && (t.key 1).isSome && (strtoull (t.string 2)).2.2)
  | .flushAll => !(t.ntokens = 2 && (strtoull (t.string 1)).2.2)
  | .quit => t.ntokens ≠ 1 || s.mute
  | .version => s.mute || t.ntokens ≠ 1 || decide ((I.answer s.app .version).1.versions ≠ [])
  | .stats =>
    s.mute ||
      decide ((I.answer s.app (.stat (slice t.recovered t.statsKey.1 t.statsKey.2))).1.stats ≠ [])
  | .get | .gets => false
  | .delete | .verbosity | .unknown => true

/-- Whether the line is answered so. A `get` line is, if it has no key. -/
def TextConn.answers (I : Interface σ) (c : TextConn σ) (input : LineInput) : Bool :=
  let command := asciiToCmd (input.line ++ [10])
  let tokens := (asciiTokenizeCommand input.line).1
  if command = .get ∨ command = .gets then
    let start := if command = .gets then 5 else 4
    !(start < input.line.length && (parseAsciiKey (input.mem.drop start)).2 ≠ 0)
  else
    tokens ≠ [] && (tokenizeLine input.mem input.line.length input.length).answers I
      (setMute tokens { c.serving with asciiCommand := command })

section Answers

variable {I : Interface σ} (hpresent : ∀ callback, I.present callback = true) (t : Tokenized)
  (s : Serving σ)
include hpresent

theorem processDeleteEvents_opens : Opens true (processDeleteEvents I t s) := by
  refine .token _ ?_
  split
  · exact opens_usage
  · split
    · exact opens_usage
    · refine .region _ _ ?_
      rw [if_pos (hpresent _)]
      exact .call _ (opens_response _)

theorem processArithmeticEvents_opens :
    Opens (!(t.ntokens = 3 && (t.key 1).isSome && (strtoull (t.string 2)).2.2))
      (processArithmeticEvents I t s) := by
  refine .token _ ?_
  by_cases hcount : t.ntokens = 3
  · rw [if_neg (not_not_intro hcount)]
    cases t.key 1 with
    | none => simpa [hcount] using opens_usage
    | some key =>
      simp only [hcount, decide_true, Option.isSome_some, Bool.true_and]
      refine .region _ _ (.number _ _ ?_)
      generalize strtoull (t.string 2) = delta
      obtain ⟨delta, used, range⟩ := delta
      cases range with
      | true => exact opens_nil
      | false =>
        dsimp only
        rw [if_pos (hpresent _)]
        exact .call _ (opens_response _)
  · rw [if_pos hcount]
    simpa [hcount] using opens_usage

theorem processFlushEvents_opens :
    Opens (!(t.ntokens = 2 && (strtoull (t.string 1)).2.2)) (processFlushEvents I t s) := by
  unfold processFlushEvents
  dsimp only
  by_cases hmany : 2 < t.ntokens
  · have hcount : ¬t.ntokens = 2 := by omega
    rw [if_pos hmany]
    simpa [hcount] using opens_usage
  · rw [if_neg hmany, if_pos (hpresent _)]
    by_cases hcount : t.ntokens = 2
    · rw [if_pos hcount]
      simp only [hcount, decide_true, Bool.true_and]
      refine .number _ _ ?_
      generalize strtoull (t.string 1) = timeout
      obtain ⟨timeout, used, range⟩ := timeout
      cases range with
      | true => exact opens_nil
      | false => exact .call _ (opens_response _)
    · rw [if_neg hcount]
      simp only [hcount, decide_false, Bool.false_and, Bool.not_false]
      exact .call _ (opens_response _)

theorem processVersionEvents_opens :
    Opens (t.ntokens ≠ 1 || decide ((I.answer s.app .version).1.versions ≠ []))
      (processVersionEvents I t s) := by
  rw [processVersionEvents]
  by_cases hcount : t.ntokens = 1
  · rw [if_neg (not_not_intro hcount), if_pos (hpresent _)]
    simp only [hcount, ne_eq, not_true_eq_false, decide_false, Bool.false_or]
    exact .call _ (opens_flatMap (fun text => ⟨_, _, rfl⟩))
  · rw [if_pos hcount]
    simpa [hcount] using opens_usage

theorem processStatsEvents_opens :
    Opens (decide ((I.answer s.app (.stat (slice t.recovered t.statsKey.1 t.statsKey.2))).1.stats ≠ []))
      (processStatsEvents I t s) := by
  rw [processStatsEvents, if_pos (hpresent _)]
  refine .region _ _ (.call _ (opens_flatMap (fun entry => ?_)))
  rw [statEvents]
  cases entry.key <;> exact ⟨_, _, rfl⟩

omit hpresent in
theorem storeEvents_opens (hshape : (storageShape s.asciiCommand).isSome) (key : Bytes) (flags : Nat)
    {timeout nbytes : Nat} : Opens true (storeEvents I t s key flags timeout nbytes) := by
  rw [storeEvents]
  revert hshape
  cases s.asciiCommand <;> intro hshape
  case cas =>
    refine .number _ _ ?_
    split
    · exact opens_response _
    · exact .call _ (opens_response _)
  all_goals first | exact .call _ (opens_response _) | exact absurd hshape Bool.false_ne_true

omit hpresent in
theorem processStorageEvents_opens (hshape : (storageShape s.asciiCommand).isSome) :
    Opens (!t.waits) (processStorageEvents I t s) := by
  refine .token _ ?_
  rw [Tokenized.waits]
  cases t.key 1 with
  | none => exact opens_response _
  | some key =>
    refine .region _ _ (.number _ _ ?_)
    generalize strtoull (t.string 2) = flags, strtoull (t.string 3) = timeout,
      strtoull (t.string 4) = nbytes
    obtain ⟨flags, u2, r2⟩ := flags
    obtain ⟨timeout, u3, r3⟩ := timeout
    obtain ⟨nbytes, u4, r4⟩ := nbytes
    cases r2 with
    | true => exact opens_response _
    | false =>
      refine .number _ _ ?_
      cases r3 with
      | true => exact opens_response _
      | false =>
        refine .number _ _ ?_
        cases r4 with
        | true => exact opens_response _
        | false =>
          dsimp only [Option.isSome_some, Bool.not_false, Bool.true_and]
          cases t.lacksData nbytes with
          | true => exact opens_nil
          | false => exact storeEvents_opens t s hshape _ _

theorem checkedStorageEvents_opens {ntokens : Nat} {callback : Callback}
    (hshape : storageShape s.asciiCommand = some (ntokens, callback)) :
    Opens (!(t.ntokens = ntokens && t.waits)) (checkedStorageEvents I t s ntokens callback) := by
  rw [checkedStorageEvents]
  by_cases hcount : t.ntokens = ntokens
  · rw [if_neg (not_not_intro hcount), if_pos (hpresent _), decide_eq_true hcount, Bool.true_and]
    exact processStorageEvents_opens t s (by rw [hshape]; rfl)
  · rw [if_pos hcount, decide_eq_false hcount]
    exact opens_usage

theorem processCommandEvents_opens (hget : ¬(s.asciiCommand = .get ∨ s.asciiCommand = .gets)) :
    Opens (t.answers I s) (processCommandEvents I t s) := by
  rw [processCommandEvents, Tokenized.answers]
  cases hcommand : s.asciiCommand
  case get => exact absurd (.inl hcommand) hget
  case gets => exact absurd (.inr hcommand) hget
  case delete => exact processDeleteEvents_opens hpresent t s
  case incr => exact processArithmeticEvents_opens hpresent t s
  case decr => exact processArithmeticEvents_opens hpresent t s
  case flushAll => exact processFlushEvents_opens hpresent t s
  case stats =>
    cases s.mute with
    | true => exact opens_usage
    | false => exact processStatsEvents_opens hpresent t s
  case version =>
    cases s.mute with
    | true => exact opens_usage
    | false => exact processVersionEvents_opens hpresent t s
  case quit =>
    have hmute : (decide (t.ntokens ≠ 1) || s.mute) = true ↔ (t.ntokens ≠ 1 ∨ s.mute = true) := by simp
    by_cases hstay : t.ntokens ≠ 1 ∨ s.mute = true
    · dsimp only
      rw [if_pos hstay, hmute.mpr hstay]
      exact opens_usage
    · dsimp only
      rw [if_neg hstay, if_pos (hpresent _), Bool.eq_false_iff.mpr (fun h => hstay (hmute.mp h))]
      exact .call _ opens_nil
  case verbosity =>
    dsimp only
    split
    · exact opens_usage
    · exact opens_response _
  case unknown => exact opens_usage
  all_goals exact checkedStorageEvents_opens hpresent t s (by rw [hcommand]; rfl)

end Answers

theorem getsLoopEvents_quiet (I : Interface σ) (mem : Bytes) (end_ fuel key : Nat) (s : Serving σ) :
    Quiet (getsLoopEvents I mem end_ fuel key s) := by
  have hhits (command : AsciiCmd) (hits : List Hit) : Quiet (hits.flatMap (hitEvents command)) := by
    intro text hmem
    obtain ⟨hit, -, hmem⟩ := mem_flatMap.mp hmem
    rw [hitEvents] at hmem
    split at hmem <;> simp at hmem
  induction fuel generalizing key s with
  | zero => exact fun _ h => absurd h not_mem_nil
  | succ fuel ih =>
    intro text hmem
    rw [getsLoopEvents] at hmem
    split at hmem
    · dsimp only at hmem
      split at hmem
      · exact absurd hmem not_mem_nil
      · simp only [mem_cons, mem_append, reduceCtorEq, false_or] at hmem
        rcases hmem with hmem | hmem
        · exact hhits _ _ text hmem
        · exact ih _ _ text hmem
    · exact absurd hmem not_mem_nil

/-- A `get` line is answered through `ascii_raw_response_handler` if it has no key. -/
theorem processGetsEvents_opens (I : Interface σ) (mem : Bytes) (end_ : Nat) (s : Serving σ) :
    let start := if s.asciiCommand = .gets then 5 else 4
    Opens (!(start < end_ && (parseAsciiKey (mem.drop start)).2 ≠ 0)) (processGetsEvents I mem end_ s) := by
  intro start
  have hquiet := getsLoopEvents_quiet I mem end_ end_ start s
  have hnil : getsLoopEvents I mem end_ end_ start s = [] ↔
      ¬(start < end_ ∧ (parseAsciiKey (mem.drop start)).2 ≠ 0) := by
    cases end_ with
    | zero => simp [getsLoopEvents]
    | succ fuel =>
      rw [getsLoopEvents]
      split
      · dsimp only
        split <;> simp_all
      · simp_all
  rw [processGetsEvents]
  by_cases hkey : start < end_ ∧ (parseAsciiKey (mem.drop start)).2 ≠ 0
  · rw [if_neg (fun h => hnil.mp h hkey), decide_eq_true hkey.1, decide_eq_true hkey.2]
    intro text hmem
    rcases mem_append.mp hmem with hmem | hmem
    · exact hquiet text hmem
    · simp at hmem
  · have hfalse : (decide (start < end_) && decide ((parseAsciiKey (mem.drop start)).2 ≠ 0)) = false := by
      rw [← Bool.not_eq_true, Bool.and_eq_true, decide_eq_true_iff, decide_eq_true_iff]
      exact hkey
    rw [if_pos (hnil.mpr hkey), hfalse]
    exact opens_usage

theorem events_opens {I : Interface σ} (hpresent : ∀ callback, I.present callback = true)
    (c : TextConn σ) (input : LineInput) : Opens (c.answers I input) (c.events I input) := by
  have hcommand := asciiToCmd_take input.after input.complete
  rw [TextConn.events, TextConn.answers, LineInput.mem]
  simp only [roundEvents, hcommand, take_left]
  by_cases hget : asciiToCmd (input.line ++ [10]) = .get ∨ asciiToCmd (input.line ++ [10]) = .gets
  · rw [if_pos hget, if_pos hget, if_pos (hpresent _)]
    exact processGetsEvents_opens I (input.line ++ 10 :: input.after) input.line.length
      { c.serving with asciiCommand := asciiToCmd (input.line ++ [10]) }
  · rw [if_neg hget, if_neg hget]
    by_cases hnil : (asciiTokenizeCommand input.line).1 = []
    · rw [if_pos hnil]
      simp only [hnil, ne_eq, not_true_eq_false, decide_false, Bool.false_and]
      exact .token _ opens_nil
    · rw [if_neg hnil, decide_eq_true hnil, Bool.true_and]
      have hswitch := processCommandEvents_opens hpresent
        (tokenizeLine (input.line ++ 10 :: input.after) input.line.length input.length)
        (setMute (asciiTokenizeCommand input.line).1
          { c.serving with asciiCommand := asciiToCmd (input.line ++ [10]) })
        (by rwa [setMute_asciiCommand])
      split
      · exact .token _ (.mute _ hswitch)
      · exact hswitch

/-! ## Runs -/

/-- The line stays in its bytes and every assertion in its responses holds. -/
def TextConn.Safe (I : Interface σ) (c : TextConn σ) : TextAction → Prop
  | .line input =>
    StaysIn (asciiTokenizeCommand input.line).1.length input.line.length (c.events I input) ∧
      (c.respond I input).1 = true
  | .drain _ => True

/-- The line is clean, and if it is answered through `ascii_raw_response_handler`, less is sent during
the line than was waiting before it. -/
def TextConn.Fit (I : Interface σ) (c : TextConn σ) : TextAction → Prop
  | .line input =>
    CleanLine input.line input.after c.serving ∧
      (c.answers I input = true → Output.sentBytes input.drains.flatten < c.out.waiting.length)
  | .drain _ => True

/-- In every run of complete lines, whatever they are, each line stays in its bytes exactly when it is
clean. While nothing is waiting, its assertions hold exactly when it is not answered through
`ascii_raw_response_handler`. And if every line of the run is fit, every line is safe. -/
theorem lines_are_safe {I : Interface σ} (hpresent : ∀ callback, I.present callback = true) :
    (∀ (c : TextConn σ) (input : LineInput),
        (StaysIn (asciiTokenizeCommand input.line).1.length input.line.length (c.events I input) ↔
          CleanLine input.line input.after c.serving) ∧
        (Drains (input.drains.headD []) c.out →
          ((c.respond I input).1 = true ↔ c.answers I input = false))) ∧
      ∀ (c : TextConn σ) (actions : List TextAction),
        Guarded (TextConn.step I) (TextConn.Fit I) c actions →
          Guarded (TextConn.step I) (TextConn.Safe I) c actions := by
  have hstays (c : TextConn σ) (input : LineInput) :
      StaysIn (asciiTokenizeCommand input.line).1.length input.line.length (c.events I input) ↔
        CleanLine input.line input.after c.serving :=
    roundEvents_staysIn hpresent input.line input.after input.complete c.serving
  refine ⟨fun c input => ⟨hstays c input, fun hall => ?_⟩, fun c actions h => ?_⟩
  · have hopens := events_opens hpresent c input
    cases hanswers : c.answers I input with
    | true =>
      rw [hanswers] at hopens
      have hfails : (c.respond I input).1 = false := emit_fails hopens (drains_mute hall _)
      simp [hfails]
    | false =>
      rw [hanswers] at hopens
      exact iff_of_true (emit_quiet hopens input.drains _) rfl
  · refine h.imp fun c action hfit => ?_
    cases action with
    | drain results => trivial
    | line input =>
      obtain ⟨hclean, hwaiting⟩ := hfit
      refine ⟨(hstays c input).mpr hclean, ?_⟩
      cases hanswers : c.answers I input with
      | true => exact emit_holds _ _ _ (hwaiting hanswers)
      | false =>
        have hopens := events_opens hpresent c input
        rw [hanswers] at hopens
        exact emit_quiet hopens input.drains _

/-- `get k`, whose answer is not taken by the socket, and then `delete k`. -/
theorem lines_are_safe_two :
    Guarded (TextConn.step echo) (TextConn.Safe echo) ⟨{ app := () }, {}⟩
      [.line ⟨ascii "get k\r", [], 7, [], by decide, by decide⟩,
        .line ⟨ascii "delete k\r", [], 10, [], by decide, by decide⟩] :=
  (lines_are_safe fun _ => rfl).2 _ _
    ⟨⟨by decide +kernel, by decide +kernel⟩, ⟨by decide +kernel, by decide +kernel⟩, trivial⟩

/-- A blank line, `delete` and `stats` without an argument, and `get k` with another command behind it
leave their bytes; and on a new connection `delete k` fails the assertion. -/
theorem lines_leave_and_abort :
    let stays (line after : String) : Prop :=
      StaysIn (asciiTokenizeCommand (ascii line)).1.length (ascii line).length
        (roundEvents echo (ascii line ++ 10 :: ascii after) (ascii line).length
          ((ascii line).length + 1 + (ascii after).length) { app := () })
    ¬stays "\r" "" ∧ ¬stays "delete\r" "" ∧ ¬stays "stats\r" "" ∧ ¬stays "get k\r" "delete d\r\n" ∧
      (TextConn.respond echo ⟨{ app := () }, {}⟩
        ⟨ascii "delete k\r", [], 10, [], by decide, by decide⟩).1 = false := by
  refine ⟨?_, ?_, ?_, ?_, ?_⟩ <;> decide +kernel

end LM
