import LibMemcached.Proof.TextCommands

/-!
# Every text command is answered by itself

What the commands of a connection spool, one round after the other. `commands_answered_iff` says for
which runs every command is answered by its own round, and a command with `noreply` by nothing. Two
things of earlier rounds remain: `mute`, which `get` does not set, and the memory behind the line, in
which `get` may find another key. Apart from these, a number out of range and a callback that hands
nothing over leave a command without an answer.

`Appends` is what a response handler does, `Replies` a complete answer that `mute` may hold back and
`Complains` the usage text, which it does not.
-/

namespace LM

open List TextCommand

variable {σ : Type} {s : Serving σ} {I : Interface σ} {length ntokens : Nat} {α : Type} {command : AsciiCmd}
  {tokens : List Bytes} {c : TextCommand} {line text after : Bytes} {callback : Callback}
  {handler : α → Serving σ → Serving σ} {s' : Serving σ} {entries : List α} {end_ : Nat} {hit : Hit}

/-- A text that ends a reply line. -/
def EndsLine (text : Bytes) : Prop := [13, 10] <:+ text

instance (text : Bytes) : Decidable (EndsLine text) := inferInstanceAs (Decidable (_ <:+ _))

theorem EndsLine.append (h : EndsLine line) (text : Bytes) : EndsLine (text ++ line) :=
  h.trans (suffix_append text line)

theorem endsLine_ofList {l : List Char} (h : ['\r', '\n'] <:+ l) : EndsLine (ascii (String.ofList l)) := by
  have hcrlf : ['\r', '\n'].map Char.toUInt8 = [13, 10] := by decide
  rw [EndsLine, ascii, String.toList_ofList, ← hcrlf]
  exact h.map _

theorem endsLine_ascii {text : String} : EndsLine (ascii (text ++ "\r\n")) := by
  rw [ascii_append]
  exact suffix_append _ _

theorem EndsLine.ne_nil (h : EndsLine text) : text ≠ [] := by
  rintro rfl
  exact absurd h (by decide)

/-! ## What is appended -/

/-- A text is spooled, unless the connection is muted. -/
structure Appends (s s' : Serving σ) (text : Bytes) : Prop where
  spooled : s'.spooled = s.spooled ++ if s.mute then [] else text
  mute : s'.mute = s.mute
  command : s'.asciiCommand = s.asciiCommand

theorem Appends.nil (s : Serving σ) : Appends s s [] := ⟨by simp, rfl, rfl⟩

theorem Appends.trans {s₁ s₂ s₃ : Serving σ} {a b : Bytes} (h₁ : Appends s₁ s₂ a)
    (h₂ : Appends s₂ s₃ b) : Appends s₁ s₃ (a ++ b) := by
  refine ⟨?_, h₂.mute.trans h₁.mute, h₂.command.trans h₁.command⟩
  rw [h₂.spooled, h₁.spooled, h₁.mute, append_assoc]
  cases s₁.mute <;> rfl

theorem Appends.muted (h : Appends s s' text) (hm : s.mute = true) : s'.spooled = s.spooled := by
  rw [h.spooled, hm]
  exact append_nil _

theorem Appends.heard (h : Appends s s' text) (hm : s.mute = false) : s'.spooled = s.spooled ++ text := by
  rw [h.spooled, hm]
  rfl

theorem appends_spool (s : Serving σ) {data : Bytes} : Appends s (s.spool data) data := by
  rw [Serving.spool]
  split
  · rename_i h
    exact ⟨by simp [h], rfl, rfl⟩
  · rename_i h
    exact ⟨by simp [h], rfl, rfl⟩

theorem appends_invoke (I : Interface σ) (call : Invocation) (s : Serving σ) :
    Appends s (s.invoke I call).2 [] := ⟨by simp [Serving.invoke], rfl, rfl⟩

/-- What a callback hands to its response handler. -/
theorem appends_foldl {text : α → Bytes}
    (h : ∀ a ∈ entries, ∀ t : Serving σ, t.asciiCommand = command → Appends t (handler a t) (text a))
    (hs : s.asciiCommand = command) :
    Appends s (entries.foldl (fun s a => handler a s) s) (entries.flatMap text) := by
  induction entries generalizing s with
  | nil => exact .nil s
  | cons a entries ih =>
    have ha := h a mem_cons_self s hs
    exact ha.trans (ih (fun b hb => h b (mem_cons_of_mem _ hb)) (ha.command.trans hs))

theorem appends_invokeWith {text : α → Bytes} {I : Interface σ} {call : Invocation}
    {handed : Answer → List α} {s : Serving σ}
    (h : ∀ a ∈ handed (I.answer s.app call).1, ∀ t : Serving σ, t.asciiCommand = s.asciiCommand → Appends t (handler a t) (text a)) :
    Appends s (s.invokeWith I call handed handler) ((handed (I.answer s.app call).1).flatMap text) :=
  (appends_invoke I call s).trans (appends_foldl h rfl)

theorem endsLine_flatMap {text : α → Bytes} (hne : entries ≠ []) (h : ∀ a, EndsLine (text a)) :
    EndsLine (entries.flatMap text) := by
  rw [← dropLast_append_getLast hne, flatMap_append, flatMap_singleton]
  exact (h _).append _

/-- A complete answer, unless the connection is muted. -/
def Replies (s s' : Serving σ) : Prop := ∃ text, EndsLine text ∧ Appends s s' text

/-- A complete answer. -/
def Complains (s s' : Serving σ) : Prop := ∃ text, EndsLine text ∧ s'.spooled = s.spooled ++ text

theorem replies_raw (I : Interface σ) (call : Invocation) (s : Serving σ) {text : String}
    (h : EndsLine (ascii text)) : Replies s (asciiRawResponseHandler text (s.invoke I call).2) :=
  ⟨_, h, (appends_invoke I call s).trans (appends_spool _)⟩

theorem complains_usage (s : Serving σ) : Complains s (sendCommandUsage s) := by
  refine ⟨ascii s.asciiCommand.usage, ?_, rfl⟩
  cases s.asciiCommand <;> exact endsLine_ofList (by decide)

/-! ## The commands -/

/-- A line of `ascii_stat_response_handler`. -/
def statText (entry : StatEntry) : Bytes :=
  match entry.key with
  | some key => ascii "STAT " ++ key ++ (ascii " " ++ entry.body) ++ ascii "\r\n"
  | none => ascii "END\r\n"

theorem endsLine_statText (entry : StatEntry) : EndsLine (statText entry) := by
  rw [statText]
  split
  · exact EndsLine.append (by decide) _
  · decide

theorem appends_statText (entry : StatEntry) (s : Serving σ) :
    Appends s (asciiStatResponseHandler entry s) (statText entry) := by
  rw [asciiStatResponseHandler, statText]
  cases entry.key with
  | some key =>
    exact (((appends_spool s).trans (appends_spool _)).trans
      ((appends_spool _).trans (appends_spool _))).trans (appends_spool _)
  | none => exact appends_spool s

theorem appends_versionText (text : Bytes) (s : Serving σ) :
    Appends s (asciiVersionResponseHandler text s) (ascii "VERSION " ++ text ++ [13, 10]) :=
  ((appends_spool s).trans (appends_spool _)).trans (appends_spool _)

/-- Whether the tokens, without `noreply`, make a command that is carried out. -/
def accepted (command : AsciiCmd) (tokens : List Bytes) : Bool :=
  match command with
  | .set | .add | .replace | .append | .prepend => tokens.length = 5
  | .cas => tokens.length = 6
  | .delete =>
    match tokens with
    | [_, key] => (tokenKey key).isSome
    | _ => false
  | .incr | .decr =>
    match tokens with
    | [_, key, _] => (tokenKey key).isSome
    | _ => false
  | .flushAll => tokens.length ≤ 2
  | .verbosity => tokens.length = 2
  | _ => false

/-- The key that `process_stats` passes on. -/
def statsKey (mem : Bytes) (end_ : Nat) : Bytes :=
  let key := 6 + ((mem.drop 6).takeWhile isSpace).length
  slice mem key ((end_ + 2 ^ 32 - key) % 2 ^ 16)

/-- The number of `incr` or `decr` is out of range. -/
def deltaOutOfRange : List Bytes → Bool
  | [_, key, delta] => (tokenKey key).isSome && (strtoull delta).2.2
  | _ => false

/-- The number of `flush_all` is out of range. -/
def timeoutOutOfRange : List Bytes → Bool
  | [_, timeout] => (strtoull timeout).2.2
  | _ => false

/-- A command that is carried out and not answered: a number is out of range, or the callback hands
nothing over. -/
def Silent (I : Interface σ) (tokens : List Bytes) (line after : Bytes) (s : Serving σ) : Prop :=
  match s.asciiCommand with
  | .incr | .decr => deltaOutOfRange tokens
  | .flushAll => timeoutOutOfRange tokens
  | .stats =>
    s.mute = false ∧ (I.answer s.app
      (.stat (statsKey (recoverTokenizeCommand line ++ after) (line.length - 1)))).1.stats = []
  | .version => s.mute = false ∧ tokens.length = 1 ∧ (I.answer s.app .version).1.versions = []
  | _ => False

theorem accepted_of_storage (h : storageShape command = some (ntokens, callback)) (tokens : List Bytes) :
    accepted command tokens = decide (tokens.length = ntokens) := by
  cases command <;> cases h <;> rfl

theorem not_silent_of_storage (h : storageShape s.asciiCommand = some (ntokens, callback)) :
    ¬Silent I tokens line after s := by
  unfold Silent
  revert h
  cases s.asciiCommand <;> intro h <;> cases h <;> exact id

theorem processArithmetic_silent (hrange : deltaOutOfRange tokens) : processArithmetic I tokens s = s := by
  rcases tokens with _ | ⟨w, _ | ⟨key, _ | ⟨delta, _ | ⟨x, rest⟩⟩⟩⟩
  case cons.cons.cons.nil =>
    rw [deltaOutOfRange, Bool.and_eq_true] at hrange
    obtain ⟨key', hkey⟩ := Option.isSome_iff_exists.mp hrange.1
    rw [processArithmetic, hkey]
    generalize strtoull delta = number at hrange ⊢
    obtain ⟨delta, used, range⟩ := number
    cases hrange.2
    rfl
  all_goals cases hrange

theorem processFlush_silent (hpresent : I.present .flushObject) (hrange : timeoutOutOfRange tokens) :
    processFlush I tokens s = s := by
  rcases tokens with _ | ⟨w, _ | ⟨timeout, _ | ⟨x, rest⟩⟩⟩
  case cons.cons.nil =>
    rw [timeoutOutOfRange] at hrange
    simp only [processFlush, hpresent]
    generalize strtoull timeout = number at hrange ⊢
    obtain ⟨timeout, used, range⟩ := number
    cases hrange
    rfl
  all_goals cases hrange

section Commands

variable {I : Interface σ} (hpresent : ∀ callback, I.present callback = true) {tokens : List Bytes}
  {s : Serving σ}
include hpresent

theorem processDelete_replies : if accepted .delete tokens then Replies s (processDelete I tokens s)
    else Complains s (processDelete I tokens s) := by
  rcases tokens with _ | ⟨w, _ | ⟨key, _ | ⟨x, rest⟩⟩⟩
  case cons.cons.nil =>
    rw [processDelete, accepted]
    cases tokenKey key with
    | none => exact complains_usage s
    | some key =>
      simp only [hpresent, Option.isSome_some, if_true]
      split
      · exact replies_raw I _ s (endsLine_ofList (by decide))
      · exact replies_raw I _ s (endsLine_ofList (by decide))
      · exact replies_raw I _ s endsLine_ascii
  all_goals exact complains_usage s

theorem processArithmetic_replies (hrange : deltaOutOfRange tokens = false) :
    if accepted .incr tokens then Replies s (processArithmetic I tokens s)
    else Complains s (processArithmetic I tokens s) := by
  rcases tokens with _ | ⟨w, _ | ⟨key, _ | ⟨delta, _ | ⟨x, rest⟩⟩⟩⟩
  case cons.cons.cons.nil =>
    rw [deltaOutOfRange] at hrange
    rw [processArithmetic, accepted]
    cases hkey : tokenKey key with
    | none => exact complains_usage s
    | some key =>
      rw [hkey, Option.isSome_some, Bool.true_and] at hrange
      generalize strtoull delta = number at hrange ⊢
      obtain ⟨delta, used, range⟩ := number
      cases hrange
      simp only [hpresent, Option.isSome_some, if_true]
      generalize (if s.asciiCommand = .incr then Invocation.increment key delta 0 0
        else .decrement key delta 0 0) = call
      split
      · exact replies_raw I _ s endsLine_ascii
      · exact replies_raw I _ s (endsLine_ofList (by decide))
  all_goals exact complains_usage s

theorem processFlush_replies (hrange : timeoutOutOfRange tokens = false) :
    if accepted .flushAll tokens then Replies s (processFlush I tokens s)
    else Complains s (processFlush I tokens s) := by
  have hflush (timeout : Nat) : Replies s
      (if (s.invoke I (.flushObject timeout)).1.status = .success then
        asciiRawResponseHandler "OK\r\n" (s.invoke I (.flushObject timeout)).2
      else asciiRawResponseHandler "SERVER_ERROR: internal error\r\n"
        (s.invoke I (.flushObject timeout)).2) := by
    split
    · exact replies_raw I _ s (endsLine_ofList (by decide))
    · exact replies_raw I _ s (endsLine_ofList (by decide))
  rcases tokens with _ | ⟨w, _ | ⟨timeout, _ | ⟨x, rest⟩⟩⟩
  · simpa [processFlush, accepted, hpresent] using hflush 0
  · simpa [processFlush, accepted, hpresent] using hflush 0
  · rw [timeoutOutOfRange] at hrange
    simp only [processFlush, accepted, hpresent]
    generalize strtoull timeout = number at hrange ⊢
    obtain ⟨timeout, used, range⟩ := number
    cases hrange
    exact hflush (timeout % 2 ^ 32)
  · simpa [processFlush, accepted] using complains_usage s

theorem processStats_appends {mem : Bytes} : Appends s (processStats I mem end_ s)
      ((I.answer s.app (.stat (statsKey mem end_))).1.stats.flatMap statText) := by
  rw [processStats, if_pos (hpresent _)]
  exact appends_invokeWith fun entry _ t _ => appends_statText entry t

theorem processVersion_appends (hcount : tokens.length = 1) :
    Appends s (processVersion I tokens s) ((I.answer s.app .version).1.versions.flatMap
      fun text => ascii "VERSION " ++ text ++ [13, 10]) := by
  rw [processVersion, if_neg (not_not_intro hcount), if_pos (hpresent _)]
  exact appends_invokeWith fun text _ t _ => appends_versionText text t

theorem checkedStorage_replies (hshape : (storageShape s.asciiCommand).isSome)
    (hready : tokens.length = ntokens → legalStorage s.asciiCommand tokens ∧ (strtoull (tokens.getD 4 [])).1 + end_ + 3 ≤ length)
    (hlength : length < 2 ^ 63) :
    if tokens.length = ntokens then Replies s (checkedStorage I ntokens callback tokens after end_ length s).2
    else Complains s (checkedStorage I ntokens callback tokens after end_ length s).2 := by
  rw [checkedStorage]
  by_cases hcount : tokens.length = ntokens
  · obtain ⟨hlegal, hneed⟩ := hready hcount
    obtain ⟨_, _, call, _, hdone⟩ := processStorageCommand_legal I hshape hlegal hneed hlength
    rw [if_pos hcount, if_neg (not_not_intro hcount), if_pos (hpresent _), hdone]
    refine replies_raw I call s ?_
    rw [storageReply]
    split
    · exact endsLine_ofList (by decide)
    · split
      · split
        · exact endsLine_ofList (by decide)
        · split
          · exact endsLine_ofList (by decide)
          · exact endsLine_ofList (by decide)
      · exact endsLine_ofList (by decide)
  · rw [if_neg hcount, if_pos hcount]
    exact complains_usage s

theorem processCommand_outcome
    (hready : readsData I s.asciiCommand tokens → legalStorage s.asciiCommand tokens ∧ (strtoull (tokens.getD 4 [])).1 + (line.length - 1) + 3 ≤ length)
    (hlength : length < 2 ^ 63) (hquit : s.asciiCommand = .quit → tokens.length ≠ 1 ∨ s.mute = true) :
    let s' := (processCommand I tokens line after length s).2
    (Silent I tokens line after s → s'.spooled = s.spooled) ∧
      (¬Silent I tokens line after s →
        if accepted s.asciiCommand tokens then Replies s s'
        else Complains s s' ∨ s.mute = false ∧ Replies s s') := by
  intro s'
  cases hshape : storageShape s.asciiCommand with
  | some shape =>
    obtain ⟨ntokens, callback⟩ := shape
    have hs' : s' = (checkedStorage I ntokens callback tokens after (line.length - 1) length s).2 := by
      change (processCommand I tokens line after length s).2 = _
      rw [processCommand_storage I hshape]
    have hready' (hcount : tokens.length = ntokens) := hready (by
      simp [readsData, hshape, hcount, hpresent])
    have hreplies : if tokens.length = ntokens then Replies s s' else Complains s s' := by
      rw [hs']
      exact checkedStorage_replies hpresent (by rw [hshape]; rfl) hready' hlength
    refine ⟨fun h => absurd h (not_silent_of_storage hshape), fun _ => ?_⟩
    rw [accepted_of_storage hshape]
    by_cases hcount : tokens.length = ntokens
    · simpa [hcount] using hreplies
    · simp only [hcount, if_false, decide_false, Bool.false_eq_true] at hreplies ⊢
      exact .inl hreplies
  | none =>
    have husage : Complains s (sendCommandUsage s) := complains_usage s
    change (_ → (processCommand I tokens line after length s).2.spooled = s.spooled) ∧
      (_ → if _ then Replies s (processCommand I tokens line after length s).2
        else Complains s (processCommand I tokens line after length s).2 ∨ s.mute = false ∧
          Replies s (processCommand I tokens line after length s).2)
    have hor {accepted : Bool} {s' : Serving σ}
        (h : if accepted then Replies s s' else Complains s s') :
        if accepted then Replies s s' else Complains s s' ∨ s.mute = false ∧ Replies s s' := by
      cases accepted
      · exact .inl h
      · exact h
    unfold Silent
    simp only [processCommand]
    cases hc : s.asciiCommand with
    | set | add | replace | cas | append | prepend =>
      rw [hc] at hshape
      cases hshape
    | get | gets | unknown => exact ⟨by simp, fun _ => .inl husage⟩
    | delete => exact ⟨by simp, fun _ => hor (processDelete_replies hpresent)⟩
    | incr | decr =>
      exact ⟨fun h => congrArg _ (processArithmetic_silent h),
        fun h => hor (processArithmetic_replies hpresent (Bool.not_eq_true _ ▸ h))⟩
    | flushAll =>
      exact ⟨fun h => congrArg _ (processFlush_silent (hpresent _) h),
        fun h => hor (processFlush_replies hpresent (Bool.not_eq_true _ ▸ h))⟩
    | stats =>
      cases hm : s.mute with
      | true => exact ⟨by simp, fun _ => .inl husage⟩
      | false =>
        refine ⟨fun h => ?_, fun h => .inr ⟨rfl, ?_⟩⟩
        · exact (processStats_appends hpresent).spooled.trans (by rw [h.2, hm]; exact append_nil _)
        · exact ⟨_, endsLine_flatMap (fun hnil => h ⟨rfl, hnil⟩) endsLine_statText,
            processStats_appends hpresent⟩
    | version =>
      cases hm : s.mute with
      | true => exact ⟨by simp, fun _ => .inl husage⟩
      | false =>
        by_cases hcount : tokens.length = 1
        · have happends := processVersion_appends hpresent (s := s) hcount
          refine ⟨fun h => ?_, fun h => .inr ⟨rfl, ?_⟩⟩
          · exact happends.spooled.trans (by rw [h.2.2, hm]; exact append_nil _)
          · exact ⟨_, endsLine_flatMap (fun hnil => h ⟨rfl, hcount, hnil⟩)
              fun text => EndsLine.append (by decide) _, happends⟩
        · refine ⟨fun h => absurd h.2.1 hcount, fun _ => .inl ?_⟩
          rw [if_neg Bool.false_ne_true, processVersion, if_pos hcount]
          exact husage
    | quit =>
      refine ⟨by simp, fun _ => ?_⟩
      rw [if_pos (hquit hc)]
      exact .inl husage
    | verbosity =>
      refine ⟨by simp, fun _ => hor ?_⟩
      rw [accepted]
      by_cases hcount : tokens.length = 2
      · rw [if_neg (not_not_intro hcount), if_pos (decide_eq_true hcount)]
        exact ⟨_, endsLine_ofList (by decide), appends_spool s⟩
      · rw [if_pos hcount, if_neg (by simpa using hcount)]
        exact husage

end Commands

/-! ## Values -/

/-- The block of a hit. -/
def valueBlock (command : AsciiCmd) (hit : Hit) : Bytes :=
  ascii "VALUE " ++ hit.key ++ (spaced hit.flags.toNat ++ spaced hit.body.length ++
    (if command = .gets then spaced hit.cas.toNat else []) ++ ascii "\r\n") ++ hit.body ++ ascii "\r\n"

theorem valueLine_eq (h : hit.key.length ≤ 240) :
    valueLine command hit ++ hit.body ++ ascii "\r\n" = valueBlock command hit := by
  have hspaced {n k : Nat} (hk : 0 < k) (hn : n < 10 ^ k) : (spaced n).length ≤ k + 1 := by
    rw [spaced_natCast, length_cons]
    exact Nat.succ_le_succ ((length_decimal_le_iff hk).mpr hn)
  have hflags : (spaced hit.flags.toNat).length ≤ 11 :=
    hspaced (by decide) (Nat.lt_trans hit.flags.toNat_lt (by decide))
  have hbody : (spaced hit.body.length).length ≤ 11 :=
    hspaced (by decide) (Nat.lt_trans hit.body_lt (by decide))
  have hcas : (if command = .gets then spaced hit.cas.toNat else []).length ≤ 21 := by
    split
    · exact hspaced (by decide) (Nat.lt_trans hit.cas.toNat_lt (by decide))
    · exact Nat.zero_le _
  have hcrlf : (ascii "\r\n").length = 2 := by decide
  rw [valueLine, valueBlock, take_of_length_le]
  simp only [length_append]
  omega

theorem appends_valueBlock (hl : hit.key.length ≤ 240) (hkey : ∀ b ∈ hit.key, keyByte b = true) :
    Appends s (asciiGetResponseHandler hit s) (valueBlock s.asciiCommand hit) := by
  have hgraphic : graphicKey hit.key = true := all_eq_true.mpr hkey
  rw [asciiGetResponseHandler, if_pos hgraphic, ← valueLine_eq hl]
  exact ((appends_spool s).trans (appends_spool _)).trans (appends_spool _)

theorem valueBlock_ne_nil : valueBlock command hit ≠ [] := by
  simp [valueBlock, ascii]

/-- `get` hands over items with the key that was asked for. -/
def Interface.GetsOwnKey (I : Interface σ) : Prop :=
  ∀ app key, ∀ hit ∈ (I.answer app (.get key)).1.hits, hit.key = key

/-- The hits of keys that are asked for one after the other. -/
def getHits (I : Interface σ) : σ → List Bytes → List Hit
  | _, [] => []
  | app, key :: keys =>
    (I.answer app (.get key)).1.hits ++ getHits I (I.answer app (.get key)).2 keys

theorem getHits_append (I : Interface σ) (app : σ) (keys extra : List Bytes) :
    ∃ more, getHits I app (keys ++ extra) = getHits I app keys ++ more := by
  induction keys generalizing app with
  | nil => exact ⟨getHits I app extra, rfl⟩
  | cons key keys ih =>
    obtain ⟨more, hmore⟩ := ih (I.answer app (.get key)).2
    refine ⟨more, ?_⟩
    rw [cons_append, getHits, hmore, ← append_assoc]
    rfl

theorem foldl_app (h : ∀ a (s : Serving σ), (handler a s).app = s.app) {s : Serving σ} :
    (entries.foldl (fun s a => handler a s) s).app = s.app := by
  induction entries generalizing s with
  | nil => rfl
  | cons a entries ih => rw [foldl_cons, ih, h]

theorem spool_app (s : Serving σ) (data : Bytes) : (s.spool data).app = s.app := by
  rw [Serving.spool]
  split <;> rfl

theorem getKey_app (I : Interface σ) (s : Serving σ) (key : Bytes) :
    (getKey I s key).app = (I.answer s.app (.get key)).2 := by
  refine foldl_app (fun hit t => ?_)
  rw [asciiGetResponseHandler]
  split
  · rw [spool_app, spool_app, spool_app]
  · rfl

theorem appends_getKeys (hI : I.GetsOwnKey) {keys : List Bytes}
    (hkeys : ∀ key ∈ keys, key.length ≤ 240 ∧ ∀ b ∈ key, keyByte b = true) (s : Serving σ) :
    Appends s (keys.foldl (getKey I) s) ((getHits I s.app keys).flatMap (valueBlock s.asciiCommand)) := by
  induction keys generalizing s with
  | nil => exact .nil s
  | cons key keys ih =>
    have hkey : Appends s (getKey I s key)
        ((I.answer s.app (.get key)).1.hits.flatMap (valueBlock s.asciiCommand)) := by
      refine appends_invokeWith fun hit hmem t ht => ?_
      obtain ⟨hl, hb⟩ := hkeys key mem_cons_self
      rw [← hI s.app key hit hmem] at hl hb
      exact ht ▸ appends_valueBlock hl hb
    have htail := ih (fun k hk => hkeys k (mem_cons_of_mem _ hk)) (getKey I s key)
    rw [getKey_app, hkey.command] at htail
    rw [foldl_cons, getHits, flatMap_append]
    exact hkey.trans htail

/-! ## Answers -/

/-- The keys that `get` finds, with the memory that is behind the command. -/
def TextCommand.keys (c : TextCommand) (after : Bytes) : List Bytes :=
  getsKeys (c.bytes ++ after) c.line.length c.line.length (if c.command = .gets then 5 else 4)

/-- The last token is `noreply`. -/
def TextCommand.Noreply (c : TextCommand) : Prop := c.tokens.getLast? = some (ascii "noreply")

instance (c : TextCommand) : Decidable c.Noreply := inferInstanceAs (Decidable (_ = _))

/-- What the round of a command has to spool: for `get` the values of its own keys and `END`, or the
usage text if there is no key, nothing if the command is accepted with `noreply`, and otherwise at
least one reply line. -/
def TextAnswered (I : Interface σ) (c : TextCommand) (s s' : Serving σ) : Prop :=
  ∃ answer, s'.spooled = s.spooled ++ answer ∧
    if c.Reads then
      answer = (getHits I s.app (c.keys [])).flatMap (valueBlock c.command) ++ ascii "END\r\n" ∨
        c.keys [] = [] ∧ answer = ascii c.command.usage
    else if c.Noreply then accepted c.command (dropNoreply c.tokens) → answer = []
    else EndsLine answer

/-- The condition for it. For `get`: the connection is not muted, and there is no hit for a key behind
the line. For another command: it is not one of those that are not answered. -/
def Heard (I : Interface σ) (c : TextCommand) (after : Bytes) (s : Serving σ) : Prop :=
  if c.Reads then
    (s.mute = false ∨ c.keys after = []) ∧ getHits I s.app (c.keys after) = getHits I s.app (c.keys [])
  else
    c.Noreply ∨ ¬Silent I (dropNoreply c.tokens) (asciiTokenizeCommand c.line).2 (c.block ++ after)
      (c.entering s)

theorem accepted_length (h : accepted command tokens) : tokens.length ≤ 6 := by
  unfold accepted at h
  cases command
  case delete | incr | decr =>
    dsimp only at h
    split at h
    · simp
    · cases h
  all_goals first
    | cases h
    | have hcount := of_decide_eq_true h
      omega

theorem length_dropNoreply (tokens : List Bytes) : tokens.length ≤ (dropNoreply tokens).length + 1 := by
  rw [dropNoreply]
  split
  · rw [length_dropLast]
    omega
  · omega

theorem TextCommand.entering_mute (s : Serving σ) (h : c.tokens.length < maxTokens) :
    (c.entering s).mute = hasNoreply c.tokens := by
  rw [entering, setMute, if_pos h]

theorem TextCommand.entering_spooled (c : TextCommand) (s : Serving σ) :
    (c.entering s).spooled = s.spooled := by
  rw [entering, setMute]
  split <;> rfl

theorem TextCommand.hasNoreply_iff (h : c.tokens.length < maxTokens) :
    hasNoreply c.tokens = true ↔ c.Noreply := by
  rw [hasNoreply, decide_eq_true h, Bool.true_and, beq_iff_eq, Noreply]

section Rounds

variable {I : Interface σ} (hpresent : ∀ callback, I.present callback = true) {c : TextCommand}
  (hc : c.Complete I) (hends : terminates I c.command c.tokens = false)
include hpresent hc hends

variable (hreads : ¬c.Reads) (after : Bytes) (hlength : c.bytes.length ≤ length) (hshort : length < 2 ^ 63) (s : Serving σ)
include hreads hlength hshort

theorem asciiRound_outcome :
    let s' := (asciiRound I (c.bytes ++ after) c.line.length length s).2.2
    let silent := Silent I (dropNoreply c.tokens) (asciiTokenizeCommand c.line).2 (c.block ++ after)
      (c.entering s)
    (silent → s'.spooled = (c.entering s).spooled) ∧
      (¬silent → if accepted c.command (dropNoreply c.tokens) then Replies (c.entering s) s'
        else Complains (c.entering s) s' ∨ (c.entering s).mute = false ∧ Replies (c.entering s) s') := by
  intro s' silent
  have hround := congrArg Prod.snd (asciiRound_eq hc hreads after hlength s)
  change s' = _ at hround
  have hentering : (c.entering s).asciiCommand = c.command := setMute_asciiCommand
  have hblock := hc.block
  rw [if_neg hreads] at hblock
  have hbytes := c.length_bytes
  have hline : (asciiTokenizeCommand c.line).2.length - 1 = c.line.length := by
    rw [asciiTokenizeCommand, length_tokenizeLoop, Nat.add_sub_cancel]
  simp only [terminates, Bool.or_eq_false_iff] at hends
  rw [hround, ← hentering]
  refine processCommand_outcome hpresent ?_ hshort ?_
  · intro hdata
    rw [hentering] at hdata ⊢
    have hlegal := hends.1
    rw [hdata, Bool.true_and, Bool.not_eq_false'] at hlegal
    rw [blockLength, hdata, legalLine_of_legalStorage hlegal, Bool.true_and, if_pos rfl] at hblock
    exact ⟨hlegal, by omega⟩
  · intro hquit
    rw [hentering] at hquit
    cases hnoreply : hasNoreply c.tokens with
    | true =>
      exact .inr ((entering_mute s (hasNoreply_lt hnoreply)).trans hnoreply)
    | false =>
      have hcount := hends.2
      simp only [hquit, hnoreply, decide_true, Bool.true_and, Bool.not_false, Bool.and_true,
        decide_eq_false_iff_not] at hcount
      rw [dropNoreply, hnoreply]
      exact .inl hcount

theorem textAnswered_iff_command :
    TextAnswered I c s (asciiRound I (c.bytes ++ after) c.line.length length s).2.2 ↔ Heard I c after s := by
  obtain ⟨hsilent, hheard⟩ := asciiRound_outcome hpresent hc hends hreads after hlength hshort s
  rw [TextAnswered, Heard, if_neg hreads]
  simp only [if_neg hreads]
  generalize (asciiRound I (c.bytes ++ after) c.line.length length s).2.2 = s' at hsilent hheard ⊢
  generalize Silent I (dropNoreply c.tokens) (asciiTokenizeCommand c.line).2 (c.block ++ after)
    (c.entering s) = silent at hsilent hheard ⊢
  have hs := c.entering_spooled s
  -- An accepted command has few tokens, so that `mute` is set.
  have hmute (ha : accepted c.command (dropNoreply c.tokens) = true) :
      (c.entering s).mute = true ↔ c.Noreply := by
    have h1 := accepted_length ha
    have h2 := length_dropNoreply c.tokens
    have hlt : c.tokens.length < maxTokens := by
      rw [maxTokens]
      omega
    rw [entering_mute s hlt, hasNoreply_iff hlt]
  constructor
  · rintro ⟨answer, hspooled, hanswer⟩
    by_cases hn : c.Noreply
    · exact .inl hn
    · rw [if_neg hn] at hanswer
      refine .inr fun hsil => hanswer.ne_nil ?_
      have := (hsilent hsil).symm.trans hspooled
      rw [hs] at this
      exact (append_right_eq_self.mp this.symm)
  · intro hcond
    by_cases hsil : silent
    · have hn : c.Noreply := hcond.resolve_right (not_not_intro hsil)
      refine ⟨[], by rw [hsilent hsil, hs, append_nil], ?_⟩
      rw [if_pos hn]
      exact fun _ => rfl
    · have hout := hheard hsil
      split at hout
      · rename_i ha
        obtain ⟨text, hends', happends⟩ := hout
        by_cases hn : c.Noreply
        · refine ⟨[], by rw [happends.muted ((hmute ha).mpr hn), hs, append_nil], ?_⟩
          rw [if_pos hn]
          exact fun _ => rfl
        · have hm : (c.entering s).mute = false := Bool.not_eq_true _ ▸ fun h => hn ((hmute ha).mp h)
          refine ⟨text, by rw [happends.heard hm, hs], ?_⟩
          rw [if_neg hn]
          exact hends'
      · rename_i ha
        have hsome : ∃ text, EndsLine text ∧ s'.spooled = s.spooled ++ text := by
          rcases hout with ⟨text, hends', hspooled⟩ | ⟨hm, text, hends', happends⟩
          · exact ⟨text, hends', hs ▸ hspooled⟩
          · exact ⟨text, hends', hs ▸ happends.heard hm⟩
        obtain ⟨text, hends', hspooled⟩ := hsome
        refine ⟨text, hspooled, ?_⟩
        split
        · exact fun h => absurd h ha
        · exact hends'

end Rounds

theorem TextCommand.keys_append (hc : c.Complete I) (hreads : c.Reads) (after : Bytes) :
    ∃ extra, c.keys after = c.keys [] ++ extra := by
  have hblock := hc.block
  rw [if_pos hreads] at hblock
  have hbytes (more : Bytes) : c.bytes ++ more = c.line ++ 10 :: more := by
    rw [c.bytes_append, length_eq_zero_iff.mp hblock, nil_append]
  rw [keys, keys, hbytes, hbytes]
  exact getsKeys_append c.line after _ _

theorem asciiProcessGets_eq (I : Interface σ) {mem : Bytes} (s : Serving σ) :
    let keys := getsKeys mem end_ end_ (if s.asciiCommand = .gets then 5 else 4)
    asciiProcessGets I mem end_ s =
      if keys = [] then sendCommandUsage s else (keys.foldl (getKey I) s).spool (ascii "END\r\n") := by
  rw [asciiProcessGets, getsLoop_eq]
  dsimp only
  generalize getsKeys mem end_ end_ (if s.asciiCommand = .gets then 5 else 4) = keys
  rw [Nat.zero_add]
  by_cases hnil : keys = []
  · rw [if_pos hnil, if_pos (by rw [hnil]; rfl), hnil]
    rfl
  · rw [if_neg hnil, if_neg (by rwa [length_eq_zero_iff])]

theorem usage_ne_end (h : command = .get ∨ command = .gets) (text : Bytes) :
    text ++ ascii "END\r\n" ≠ ascii command.usage := by
  intro heq
  have hsuffix : ascii "END\r\n" <:+ ascii command.usage := ⟨text, heq⟩
  rcases h with rfl | rfl
  · exact absurd hsuffix (by decide +kernel)
  · exact absurd hsuffix (by decide +kernel)

theorem textAnswered_iff_reads (hpresent : ∀ callback, I.present callback = true) (hI : I.GetsOwnKey)
    (hc : c.Complete I) (hreads : c.Reads) (after : Bytes) (hlength : c.bytes.length ≤ length)
    (s : Serving σ) : TextAnswered I c s (asciiRound I (c.bytes ++ after) c.line.length length s).2.2 ↔
      Heard I c after s := by
  let s₁ : Serving σ := { s with asciiCommand := c.command }
  let block := (getHits I s.app (c.keys after)).flatMap (valueBlock c.command)
  have hround : (asciiRound I (c.bytes ++ after) c.line.length length s).2.2 =
      if c.keys after = [] then sendCommandUsage s₁
      else ((c.keys after).foldl (getKey I) s₁).spool (ascii "END\r\n") := by
    rw [asciiRound_reads hreads after hlength, if_pos (hpresent _)]
    exact asciiProcessGets_eq I s₁
  have happends : Appends s₁ (((c.keys after).foldl (getKey I) s₁).spool (ascii "END\r\n"))
      (block ++ ascii "END\r\n") :=
    (appends_getKeys hI (fun key hkey => mem_getsKeys hkey) s₁).trans (appends_spool _)
  obtain ⟨extra, hextra⟩ := keys_append hc hreads after
  obtain ⟨more, hmore⟩ := getHits_append I s.app (c.keys []) extra
  rw [← hextra] at hmore
  rw [hround, TextAnswered, Heard, if_pos hreads]
  simp only [if_pos hreads]
  by_cases hnil : c.keys after = []
  · have hown : c.keys [] = [] := by
      rw [hnil] at hextra
      exact (append_eq_nil_iff.mp hextra.symm).1
    rw [if_pos hnil]
    refine iff_of_true ⟨ascii c.command.usage, rfl, .inr ⟨hown, rfl⟩⟩ ⟨.inr hnil, ?_⟩
    rw [hnil, hown]
  · rw [if_neg hnil]
    constructor
    · rintro ⟨answer, hspooled, hanswer⟩
      have hne : answer ≠ [] := by
        rcases hanswer with rfl | ⟨-, rfl⟩
        · exact fun h => absurd (append_eq_nil_iff.mp h).2 (by decide)
        · rcases hreads with h | h <;> rw [h] <;> decide +kernel
      have hmute : s.mute = false := by
        cases hm : s.mute with
        | false => rfl
        | true =>
          have := (happends.muted hm).symm.trans hspooled
          exact absurd (append_right_eq_self.mp this.symm) hne
      have heq : block ++ ascii "END\r\n" = answer :=
        append_cancel_left ((happends.heard hmute).symm.trans hspooled)
      refine ⟨.inl hmute, ?_⟩
      rcases hanswer with hanswer | ⟨-, hanswer⟩
      · rw [hanswer] at heq
        have hblocks := append_cancel_right heq
        change (getHits I s.app (c.keys after)).flatMap (valueBlock c.command) = _ at hblocks
        rw [hmore, flatMap_append, append_right_eq_self, flatMap_eq_nil_iff] at hblocks
        rw [hmore]
        cases more with
        | nil => rw [append_nil]
        | cons hit more => exact absurd (hblocks hit mem_cons_self) valueBlock_ne_nil
      · exact absurd (heq.trans hanswer) (usage_ne_end hreads block)
    · rintro ⟨hmute, hhits⟩
      refine ⟨block ++ ascii "END\r\n", ?_, .inl ?_⟩
      · exact happends.heard (hmute.resolve_right hnil)
      · rw [← hhits]

/-- An application that has every key, with itself as its value. -/
def echo : Interface Unit where
  present _ := true
  answer app
    | .get key =>
      ({ status := .success
         hits := if h : key.length < 2 ^ 16 then [⟨key, key, 0, 7, h, Nat.lt_trans h (by decide)⟩]
          else [] }, app)
    | _ => ({ status := .success }, app)

theorem echo_getsOwnKey : echo.GetsOwnKey := by
  intro app key hit hmem
  by_cases h : key.length < 2 ^ 16
  · simp only [echo, dif_pos h, mem_singleton] at hmem
    rw [hmem]
  · simp only [echo, dif_neg h, not_mem_nil] at hmem

end LM
