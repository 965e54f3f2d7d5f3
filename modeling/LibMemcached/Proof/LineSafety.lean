import LibMemcached.Proof.LineTrace

/-!
# Lines of the text protocol and the memory they touch

Which lines stay in their bytes, for every line there is (`roundEvents_staysIn`): the tokens of a line
and the numbers and keys in them always do (`Tokenized.Holds`), but the scan for the keys of `get` and
the argument of `stats` go over the line feed, `delete`, `incr` and `decr` read `tokens[1]` before they
count the tokens, and a blank line has no last token.
-/

namespace LM

open List TextCommand

variable {σ : Type} {I : Interface σ} {events : List LineEvent} {i : Nat} {length : Nat}

/-! ## What stays in the line -/

/-- What a line may do: read an element that the vector has, take bytes in front of the line feed, and
anything but to abort. -/
def LineEvent.Within (ntokens end_ : Nat) : LineEvent → Prop
  | .token index => 0 ≤ index ∧ index < ntokens
  | .region start len => start + len ≤ end_
  | .abort => False
  | _ => True

instance (ntokens end_ : Nat) (event : LineEvent) : Decidable (event.Within ntokens end_) := by
  cases event <;> unfold LineEvent.Within <;> infer_instance

/-- Everything that happens stays in the line. -/
def StaysIn (ntokens end_ : Nat) (events : List LineEvent) : Prop :=
  ∀ event ∈ events, event.Within ntokens end_

instance (ntokens end_ : Nat) (events : List LineEvent) : Decidable (StaysIn ntokens end_ events) :=
  inferInstanceAs (Decidable (∀ event ∈ events, _))

section StaysIn

variable {n end_ : Nat}

@[simp] theorem staysIn_nil : StaysIn n end_ [] := fun _ h => nomatch h

@[simp] theorem staysIn_cons {event : LineEvent} :
    StaysIn n end_ (event :: events) ↔ event.Within n end_ ∧ StaysIn n end_ events :=
  forall_mem_cons

@[simp] theorem staysIn_append {events' : List LineEvent} :
    StaysIn n end_ (events ++ events') ↔ StaysIn n end_ events ∧ StaysIn n end_ events' :=
  forall_mem_append

theorem staysIn_flatMap {α : Type} {events : α → List LineEvent} (h : ∀ a, StaysIn n end_ (events a))
    (entries : List α) : StaysIn n end_ (entries.flatMap events) := by
  intro event hevent
  obtain ⟨a, -, ha⟩ := mem_flatMap.mp hevent
  exact h a event ha

@[simp] theorem within_token {index : Int} :
    (LineEvent.token index).Within n end_ ↔ 0 ≤ index ∧ index < n := Iff.rfl

@[simp] theorem within_region {start len : Nat} :
    (LineEvent.region start len).Within n end_ ↔ start + len ≤ end_ := Iff.rfl

@[simp] theorem within_call (call : Invocation) : (LineEvent.call call).Within n end_ := trivial

@[simp] theorem within_mute (on : Bool) : (LineEvent.mute on).Within n end_ := trivial

@[simp] theorem within_response (text : String) : (LineEvent.response text).Within n end_ := trivial

@[simp] theorem within_spool (data : Bytes) : (LineEvent.spool data).Within n end_ := trivial

@[simp] theorem staysIn_usage {command : AsciiCmd} : StaysIn n end_ (usageEvents command) := by
  simp [usageEvents]

@[simp] theorem staysIn_notImplemented : StaysIn n end_ notImplementedEvents := by
  simp [notImplementedEvents]

theorem staysIn_hit {command : AsciiCmd} (hit : Hit) : StaysIn n end_ (hitEvents command hit) := by
  rw [hitEvents]
  split <;> simp

theorem staysIn_stat (entry : StatEntry) : StaysIn n end_ (statEvents entry) := by
  rw [statEvents]
  split <;> simp

theorem staysIn_version (text : Bytes) : StaysIn n end_ (versionEvents text) := by
  simp [versionEvents]

end StaysIn

/-! ## Keys of `get` -/

/-- The scan for keys comes to white space in front of the line feed, with every key before it
legal. -/
def keysToEnd (line : Bytes) : Nat → Nat → Bool
  | 0, _ => false
  | fuel + 1, key =>
    key < line.length &&
      ((line.drop key).all isSpace ||
        let (blanks, nkey) := parseAsciiKey (line.drop key ++ [10])
        nkey != 0 && keysToEnd line fuel (key + blanks + nkey))

theorem parseAsciiKey_line {rest : Bytes} (h : ¬∀ b ∈ rest, isSpace b = true) (after : Bytes) :
    parseAsciiKey (rest ++ 10 :: after) = parseAsciiKey (rest ++ [10]) ∧
      (parseAsciiKey (rest ++ [10])).1 + (parseAsciiKey (rest ++ [10])).2 ≤ rest.length := by
  obtain ⟨blanks, b, word, rfl, hblanks, hb⟩ := split_blanks h
  have hparse (more : Bytes) : parseAsciiKey (blanks ++ b :: word ++ 10 :: more) =
      (blanks.length, keyLength (b :: word ++ [10])) := by
    rw [append_assoc, cons_append, parseAsciiKey_eq hblanks hb, ← cons_append,
      (keyLength_line (b :: word) more).1]
  have hle := (keyLength_line (b :: word) []).2
  rw [hparse after, hparse []]
  refine ⟨rfl, ?_⟩
  rw [length_append]
  exact Nat.add_le_add_left hle _

/-- The keys of `get` are in the line unless the scan comes to its end and there is one behind it. -/
theorem getsLoopEvents_staysIn (I : Interface σ) (n : Nat) (line after : Bytes) (fuel key : Nat)
    (s : Serving σ) :
    StaysIn n line.length (getsLoopEvents I (line ++ 10 :: after) line.length fuel key s) ↔
      (keysToEnd line fuel key = true → (parseAsciiKey after).2 = 0) := by
  induction fuel generalizing key s with
  | zero => simp [getsLoopEvents, keysToEnd]
  | succ fuel ih =>
    by_cases hkey : key < line.length
    · have hdrop : (line ++ 10 :: after).drop key = line.drop key ++ 10 :: after :=
        drop_append_of_le_length (Nat.le_of_lt hkey)
      by_cases hblank : ∀ b ∈ line.drop key, isSpace b = true
      · have hall : (line.drop key).all isSpace = true := all_eq_true.mpr hblank
        have hskip : ∀ b ∈ line.drop key ++ [10], isSpace b = true := by
          intro b hb
          rcases mem_append.mp hb with hb | hb
          · exact hblank b hb
          · rw [mem_singleton.mp hb]
            decide
        have hparse := parseAsciiKey_skip hskip after
        rw [append_assoc, cons_append, nil_append] at hparse
        simp only [getsLoopEvents, keysToEnd, if_pos hkey, hdrop, hparse, decide_eq_true hkey, hall,
          Bool.true_and, Bool.true_or, forall_const]
        by_cases hnone : (parseAsciiKey after).2 = 0
        · rw [if_pos hnone]
          exact iff_of_true staysIn_nil hnone
        · refine iff_of_false (fun h => ?_) hnone
          rw [if_neg hnone, staysIn_cons, within_region, length_append, length_drop] at h
          have hregion := h.1
          rw [length_singleton] at hregion
          omega
      · obtain ⟨hparse, hle⟩ := parseAsciiKey_line hblank after
        have hall : (line.drop key).all isSpace = false := by
          rw [← Bool.not_eq_true, all_eq_true]
          exact hblank
        rw [length_drop] at hle
        simp only [getsLoopEvents, keysToEnd, if_pos hkey, hdrop, hparse, decide_eq_true hkey, hall,
          Bool.true_and, Bool.false_or]
        by_cases hnone : (parseAsciiKey (line.drop key ++ [10])).2 = 0
        · simp [hnone]
        · have hregion : key + (parseAsciiKey (line.drop key ++ [10])).1 +
              (parseAsciiKey (line.drop key ++ [10])).2 ≤ line.length := by omega
          rw [if_neg hnone]
          simp only [staysIn_cons, staysIn_append, within_region, within_call, hregion,
            staysIn_flatMap staysIn_hit, ih, true_and, bne_iff_ne, ne_eq, Bool.and_eq_true, hnone,
            not_false_eq_true]
    · simp [getsLoopEvents, keysToEnd, hkey]

/-! ## The argument of `stats` -/

/-- A byte that is white space, or will be when the line is put together again. -/
def blankByte (b : UInt8) : Bool := isSpace b || b == 0

theorem isSpace_recovered (b : UInt8) : isSpace (if b = 0 then 32 else b) = blankByte b := by
  by_cases hb : b = 0
  · subst hb
    rfl
  · simp [blankByte, hb]

theorem tokenizeLoop_blankByte (fuel size : Nat) (rest : Bytes) :
    (tokenizeLoop fuel size rest).2.dropLast.map blankByte = rest.map blankByte := by
  induction fuel generalizing size rest with
  | zero => simp [tokenizeLoop]
  | succ fuel ih =>
    cases size with
    | zero => simp [tokenizeLoop]
    | succ size =>
      rcases line_cases rest with hblank | ⟨blanks, word, hblanks, hne, hword, rfl | ⟨b, tail, hb, rfl⟩⟩
      · rw [tokenizeLoop_blank hblank, dropLast_concat]
      · rw [tokenizeLoop_last hblanks hne hword, dropLast_concat]
      · have htail : (tokenizeLoop fuel size tail).2 ≠ [] := by
          rw [← length_pos_iff, length_tokenizeLoop]
          exact Nat.succ_pos _
        have hsep : blankByte 0 = blankByte b := by simp [blankByte, hb]
        rw [tokenizeLoop_word hblanks hne hword hb, dropLast_append_of_ne_nil (by simp),
          dropLast_cons_of_ne_nil htail]
        simp only [map_append, map_cons, ih, hsep, append_assoc]

theorem recoverTokenizeCommand_isSpace (line : Bytes) :
    ∃ recovered, recoverTokenizeCommand (asciiTokenizeCommand line).2 = recovered ++ [10] ∧
      recovered.length = line.length ∧ recovered.map isSpace = line.map blankByte := by
  refine ⟨_, rfl, ?_, ?_⟩
  · rw [length_map, length_dropLast, asciiTokenizeCommand, length_tokenizeLoop, Nat.add_sub_cancel]
  · rw [map_map, asciiTokenizeCommand, ← tokenizeLoop_blankByte (line.length + 1) maxTokens line]
    exact map_congr_left fun b _ => isSpace_recovered b

/-- White space is skipped up to the argument, or to some place behind the line. -/
theorem statsKey_within (line after : Bytes) :
    let key := 6 + (((line ++ 10 :: after).drop 6).takeWhile isSpace).length
    key + (line.length + 2 ^ 32 - key) % 2 ^ 16 ≤ line.length ↔ ¬∀ b ∈ line.drop 6, isSpace b = true := by
  intro key
  by_cases hshort : line.length < 6
  · have hnil : line.drop 6 = [] := drop_of_length_le (by omega)
    refine iff_of_false (by omega) (fun h => h ?_)
    rw [hnil]
    exact fun _ hb => nomatch hb
  · have hdrop : (line ++ 10 :: after).drop 6 = line.drop 6 ++ 10 :: after :=
      drop_append_of_le_length (by omega)
    by_cases hblank : ∀ b ∈ line.drop 6, isSpace b = true
    · have htake : (line.drop 6 ++ 10 :: after).takeWhile isSpace =
          line.drop 6 ++ 10 :: after.takeWhile isSpace := by
        rw [takeWhile_append_of_pos hblank, takeWhile_cons_of_pos (by decide)]
      have hkey : line.length < key := by
        show _ < 6 + _
        rw [hdrop, htake, length_append, length_cons, length_drop]
        omega
      exact iff_of_false (by omega) (fun h => h hblank)
    · obtain ⟨blanks, b, rest, hsplit, hblanks, hb⟩ := split_blanks hblank
      have htake : (line.drop 6 ++ 10 :: after).takeWhile isSpace = blanks := by
        rw [hsplit, append_assoc, takeWhile_append_of_pos hblanks, cons_append,
          takeWhile_cons_of_neg (by simp [hb]), append_nil]
      have hlength := congrArg List.length hsplit
      rw [length_drop, length_append, length_cons] at hlength
      have hkey : key < line.length := by
        show 6 + _ < _
        rw [hdrop, htake]
        omega
      refine iff_of_true ?_ hblank
      have hmod : (line.length + 2 ^ 32 - key) % 2 ^ 16 = (line.length - key) % 2 ^ 16 := by omega
      have hle := Nat.mod_le (line.length - key) (2 ^ 16)
      omega

theorem processStatsEvents_staysIn (hpresent : I.present .stat = true) (n : Nat) (line after : Bytes)
    (length : Nat) (s : Serving σ) : StaysIn n line.length
        (processStatsEvents I (tokenizeLine (line ++ 10 :: after) line.length length) s) ↔
      ∃ b ∈ line.drop 6, blankByte b = false := by
  obtain ⟨recovered, hrecovered, hlength, hspace⟩ := recoverTokenizeCommand_isSpace line
  have hmem : (tokenizeLine (line ++ 10 :: after) line.length length).recovered =
      recovered ++ 10 :: after := by
    rw [(tokenizeLine_after line after length).2, hrecovered, append_assoc]
    rfl
  have hend : (tokenizeLine (line ++ 10 :: after) line.length length).end_ = line.length := rfl
  have hblank : (∃ b ∈ line.drop 6, blankByte b = false) ↔
      ¬∀ b ∈ recovered.drop 6, isSpace b = true := by
    have hdrop := congrArg (List.drop 6) hspace
    rw [← map_drop, ← map_drop] at hdrop
    have hall : (recovered.drop 6).all isSpace = (line.drop 6).all blankByte := by
      have hmap := congrArg (fun l : List Bool => l.all id) hdrop
      simpa only [all_map, Function.id_comp] using hmap
    rw [← all_eq_true, hall, all_eq_true]
    simp
  have hregion := statsKey_within recovered after
  rw [hlength] at hregion
  dsimp only at hregion
  rw [processStatsEvents, if_pos hpresent, Tokenized.statsKey, hend, hmem, hblank, ← hregion]
  simp only [staysIn_cons, within_region, within_call, staysIn_flatMap staysIn_stat, and_true]

/-! ## The commands that use the vector -/

section Tokens

variable (I : Interface σ) {t : Tokenized} {tokens : List Bytes} (h : t.Holds tokens)
  (hcount : t.ntokens ≤ tokens.length) (s : Serving σ)

include h

theorem Tokenized.number_staysIn (hi : i < tokens.length) : StaysIn tokens.length t.end_ (t.number i) := by
  simp only [Tokenized.number, staysIn_cons, within_token, within_region, staysIn_nil, and_true]
  exact ⟨⟨by omega, by omega⟩, h.string_within hi⟩

theorem Tokenized.key_within {key nkey : Nat} (hi : i < tokens.length) (hkey : t.key i = some (key, nkey)) :
    key + nkey ≤ t.end_ := by
  have hin := h.key_eq hi
  rw [hkey] at hin
  exact hin.2

/-- `tokens[1]` is read from every line. -/
theorem processDeleteEvents_staysIn :
    StaysIn tokens.length t.end_ (processDeleteEvents I t s) ↔ 1 < tokens.length := by
  rw [processDeleteEvents, staysIn_cons, within_token]
  constructor
  · rintro ⟨⟨-, hlt⟩, -⟩
    omega
  · intro hlt
    refine ⟨⟨by decide, by omega⟩, ?_⟩
    split
    · exact staysIn_usage
    · split
      · exact staysIn_usage
      · rename_i key nkey hkey
        rw [staysIn_cons]
        refine ⟨t.key_within h hlt hkey, ?_⟩
        split <;> simp

omit h in
theorem processVersionEvents_staysIn (n : Nat) : StaysIn n t.end_ (processVersionEvents I t s) := by
  rw [processVersionEvents]
  split
  · exact staysIn_usage
  · split
    · rw [staysIn_cons]
      exact ⟨within_call _, staysIn_flatMap staysIn_version _⟩
    · exact staysIn_notImplemented

theorem storeEvents_staysIn {ntokens : Nat} {callback : Callback}
    (hshape : storageShape s.asciiCommand = some (ntokens, callback)) (hle : ntokens ≤ tokens.length)
    (key : Bytes) (flags timeout : Nat) {nbytes : Nat} :
    StaysIn tokens.length t.end_ (storeEvents I t s key flags timeout nbytes) := by
  rw [storeEvents]
  revert hshape
  cases s.asciiCommand <;> intro hshape <;> cases hshape
  case cas =>
    dsimp only
    rw [staysIn_append]
    refine ⟨t.number_staysIn h (by omega), ?_⟩
    split <;> simp
  all_goals simp

theorem processStorageEvents_staysIn {ntokens : Nat} {callback : Callback}
    (hshape : storageShape s.asciiCommand = some (ntokens, callback)) (hle : ntokens ≤ tokens.length) :
    StaysIn tokens.length t.end_ (processStorageEvents I t s) := by
  have hfive : 5 ≤ ntokens := by
    revert hshape
    cases s.asciiCommand <;> intro hshape <;> cases hshape <;> decide
  rw [processStorageEvents, staysIn_cons, within_token]
  refine ⟨⟨by decide, by omega⟩, ?_⟩
  split
  · simp
  · rename_i key nkey hkey
    rw [staysIn_cons, staysIn_append]
    refine ⟨t.key_within h (by omega) hkey, t.number_staysIn h (by omega), ?_⟩
    split
    · simp
    · rw [staysIn_append]
      refine ⟨t.number_staysIn h (by omega), ?_⟩
      split
      · simp
      · rw [staysIn_append]
        refine ⟨t.number_staysIn h (by omega), ?_⟩
        split
        · simp
        · split
          · exact staysIn_nil
          · exact storeEvents_staysIn I h s hshape hle _ _ _

include hcount

theorem processArithmeticEvents_staysIn :
    StaysIn tokens.length t.end_ (processArithmeticEvents I t s) ↔ 1 < tokens.length := by
  rw [processArithmeticEvents, staysIn_cons, within_token]
  constructor
  · rintro ⟨⟨-, hlt⟩, -⟩
    omega
  · intro hlt
    refine ⟨⟨by decide, by omega⟩, ?_⟩
    split
    · exact staysIn_usage
    · rename_i hthree
      split
      · exact staysIn_usage
      · rename_i key nkey hkey
        rw [staysIn_cons, staysIn_append]
        refine ⟨t.key_within h hlt hkey, t.number_staysIn h (by omega), ?_⟩
        split
        · exact staysIn_nil
        · dsimp only
          split <;> split <;> simp

theorem processFlushEvents_staysIn : StaysIn tokens.length t.end_ (processFlushEvents I t s) := by
  rw [processFlushEvents]
  dsimp only
  split
  · exact staysIn_usage
  · split
    · split
      · rw [staysIn_append]
        refine ⟨t.number_staysIn h (by omega), ?_⟩
        split <;> simp
      · simp
    · exact staysIn_notImplemented

theorem checkedStorageEvents_staysIn {ntokens : Nat} {callback : Callback}
    (hshape : storageShape s.asciiCommand = some (ntokens, callback)) :
    StaysIn tokens.length t.end_ (checkedStorageEvents I t s ntokens callback) := by
  rw [checkedStorageEvents]
  split
  · exact staysIn_usage
  · rename_i hntokens
    split
    · exact processStorageEvents_staysIn I h s hshape (by omega)
    · exact staysIn_notImplemented

end Tokens

/-! ## A line -/

/-- A line that is safe to process. For `get`: if the scan comes to the end of the line, no key begins the
memory behind it. For the others: the line is not blank, `delete`, `incr` and `decr` do not stand alone, and
`stats`, unless it is muted, has something behind the blank that follows it. -/
def CleanLine (line after : Bytes) (s : Serving σ) : Prop :=
  let command := asciiToCmd (line ++ [10])
  let tokens := (asciiTokenizeCommand line).1
  if command = .get ∨ command = .gets then
    keysToEnd line line.length (if command = .gets then 5 else 4) = true → (parseAsciiKey after).2 = 0
  else
    tokens ≠ [] ∧ (command = .delete ∨ command = .incr ∨ command = .decr → 1 < tokens.length) ∧
      (command = .stats → (setMute tokens s).mute = false → ∃ b ∈ line.drop 6, blankByte b = false)

instance (line after : Bytes) (s : Serving σ) : Decidable (CleanLine line after s) := by
  unfold CleanLine
  infer_instance

theorem asciiToCmd_take {line : Bytes} (after : Bytes) (h : line.length + 1 ≤ length) :
    asciiToCmd ((line ++ 10 :: after).take length) = asciiToCmd (line ++ [10]) := by
  have hbytes : (mk line []).bytes.length ≤ length := by
    rw [bytes, length_append]
    exact h
  have hcommand := (mk line []).asciiToCmd_bytes after hbytes
  rwa [bytes_append] at hcommand

variable (hpresent : ∀ callback, I.present callback = true) (line after : Bytes)
include hpresent

/-- The `switch` stays in the line. -/
theorem processCommandEvents_staysIn (length : Nat) (s : Serving σ)
    (hget : ¬(s.asciiCommand = .get ∨ s.asciiCommand = .gets)) :
    StaysIn (asciiTokenizeCommand line).1.length line.length
        (processCommandEvents I (tokenizeLine (line ++ 10 :: after) line.length length) s) ↔
      (s.asciiCommand = .delete ∨ s.asciiCommand = .incr ∨ s.asciiCommand = .decr →
          1 < (asciiTokenizeCommand line).1.length) ∧
        (s.asciiCommand = .stats → s.mute = false → ∃ b ∈ line.drop 6, blankByte b = false) := by
  have h := tokenizeLine_holds line after length
  have hcount : (tokenizeLine (line ++ 10 :: after) line.length length).ntokens ≤
      (asciiTokenizeCommand line).1.length := by
    simp only [tokenizeLine, take_left]
    exact length_dropNoreply_le
  have hstats := fun n => processStatsEvents_staysIn (hpresent .stat) n line after length s
  have hend : (tokenizeLine (line ++ 10 :: after) line.length length).end_ = line.length := rfl
  have hdelete := processDeleteEvents_staysIn I h s
  have harithmetic := processArithmeticEvents_staysIn I h hcount s
  have hflush := processFlushEvents_staysIn I h hcount s
  have hversion := processVersionEvents_staysIn I s
    (t := tokenizeLine (line ++ 10 :: after) line.length length) (asciiTokenizeCommand line).1.length
  have hstorage := fun ntokens callback => @checkedStorageEvents_staysIn σ I _ _ h hcount s ntokens callback
  rw [hend] at hdelete harithmetic hflush hversion hstorage
  rw [processCommandEvents]
  cases hcommand : s.asciiCommand
  case get => exact absurd (.inl hcommand) hget
  case gets => exact absurd (.inr hcommand) hget
  case delete => simpa using hdelete
  case incr => simpa using harithmetic
  case decr => simpa using harithmetic
  case stats =>
    by_cases hmute : s.mute = true
    · simp [hmute]
    · simpa [hmute] using hstats _
  case flushAll => exact iff_of_true hflush (by simp)
  case version =>
    refine iff_of_true ?_ (by simp)
    dsimp only
    split
    · exact staysIn_usage
    · exact hversion
  case quit =>
    refine iff_of_true ?_ (by simp)
    dsimp only
    split
    · exact staysIn_usage
    · split <;> simp
  case verbosity =>
    refine iff_of_true ?_ (by simp)
    dsimp only
    split <;> simp
  case unknown => exact iff_of_true staysIn_usage (by simp)
  all_goals exact iff_of_true (hstorage _ _ (by rw [hcommand]; rfl)) (by simp)

/-- A round stays in its line exactly when the line is clean. -/
theorem roundEvents_staysIn (hlength : line.length + 1 ≤ length) (s : Serving σ) :
    StaysIn (asciiTokenizeCommand line).1.length line.length
        (roundEvents I (line ++ 10 :: after) line.length length s) ↔ CleanLine line after s := by
  have hcommand := asciiToCmd_take after hlength
  simp only [roundEvents, CleanLine, hcommand, take_left]
  split
  · rename_i hget
    rw [if_pos (hpresent .get), processGetsEvents]
    have hkeys := getsLoopEvents_staysIn I (asciiTokenizeCommand line).1.length line after line.length
      (if asciiToCmd (line ++ [10]) = .gets then 5 else 4) { s with asciiCommand := asciiToCmd (line ++ [10]) }
    rw [← hkeys]
    generalize getsLoopEvents I _ _ _ _ _ = events
    by_cases hnil : events = []
    · rw [if_pos hnil, hnil]
      exact iff_of_true staysIn_usage staysIn_nil
    · rw [if_neg hnil]
      simp
  · rename_i hget
    have hswitch := processCommandEvents_staysIn hpresent line after length
      (setMute (asciiTokenizeCommand line).1 { s with asciiCommand := asciiToCmd (line ++ [10]) })
      (by rwa [setMute_asciiCommand])
    rw [setMute_asciiCommand] at hswitch
    by_cases hnil : (asciiTokenizeCommand line).1 = []
    · simp [hnil]
    · have hpos : 0 < (asciiTokenizeCommand line).1.length := length_pos_iff.mpr hnil
      have hmute : (setMute (asciiTokenizeCommand line).1
          { s with asciiCommand := asciiToCmd (line ++ [10]) }).mute =
            (setMute (asciiTokenizeCommand line).1 s).mute := by
        rw [setMute, setMute]
        split <;> rfl
      rw [if_neg hnil, staysIn_append, hswitch, hmute]
      simp only [hnil, ne_eq, not_false_eq_true, true_and, and_iff_right_iff_imp]
      intro _
      split
      · simp only [staysIn_cons, within_token, within_mute, staysIn_nil, and_true]
        omega
      · exact staysIn_nil

end LM
