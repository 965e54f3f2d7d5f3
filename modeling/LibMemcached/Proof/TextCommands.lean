import LibMemcached.Proof.TextLines
import Mathlib.Data.List.Find
import Mathlib.Data.List.GetD

/-!
# Commands of the text protocol

A buffer as the commands it holds. A command is a line and its data block (`TextCommand`), which are
there as a whole (`TextCommand.Complete`); a round of the loop in
`memcached_ascii_protocol_process_data` takes exactly one of them (`asciiRound_progress`), so the loop
goes through the commands one by one (`asciiProcessData_rounds`).

What a round does with `get` depends on more than its line: the search for the next key skips the line
feed, and finds a key in the memory behind it (`getsKeys_append`).
-/

namespace LM

open List

variable {σ : Type} {length end_ : Nat} {s : Serving σ} {after line : Bytes} {I : Interface σ}
  {b : UInt8} {key : Bytes} {fuel : Nat} {mem : Bytes}

/-- A command: its line, without the line feed, and the data block behind it. -/
structure TextCommand where
  line : Bytes
  block : Bytes := []
  deriving DecidableEq

variable {cs : List TextCommand}

namespace TextCommand

def bytes (c : TextCommand) : Bytes := c.line ++ 10 :: c.block

def command (c : TextCommand) : AsciiCmd := asciiToCmd (c.line ++ [10])

def tokens (c : TextCommand) : List Bytes := (asciiTokenizeCommand c.line).1

/-- `get` and `gets`, which are not taken apart. -/
def Reads (c : TextCommand) : Prop := c.command = .get ∨ c.command = .gets

instance (c : TextCommand) : Decidable c.Reads := inferInstanceAs (Decidable (_ ∨ _))

end TextCommand

/-- The number of tokens and the callback of a storage command. -/
def storageShape : AsciiCmd → Option (Nat × Callback)
  | .set => some (5, .set)
  | .add => some (5, .add)
  | .replace => some (5, .replace)
  | .cas => some (6, .replace)
  | .append => some (5, .append)
  | .prepend => some (5, .prepend)
  | _ => none

/-- Whether the key and the numbers before the data are legal. -/
def legalLine (tokens : List Bytes) : Bool :=
  (tokenKey (tokens.getD 1 [])).isSome && !(strtoull (tokens.getD 2 [])).2.2 &&
    !(strtoull (tokens.getD 3 [])).2.2 && !(strtoull (tokens.getD 4 [])).2.2

/-- Whether also the value of `cas` is, which is looked at once the data is there. -/
def legalStorage (command : AsciiCmd) (tokens : List Bytes) : Bool :=
  legalLine tokens && !(command = .cas && (strtoull (tokens.getD 5 [])).2.2)

/-- Whether a storage command has the tokens and the callback it needs, so that its data is read. -/
def readsData (I : Interface σ) (command : AsciiCmd) (tokens : List Bytes) : Bool :=
  match storageShape command with
  | some (ntokens, callback) => tokens.length = ntokens && I.present callback
  | none => false

/-- The length of the data block that is waited for. -/
def blockLength (I : Interface σ) (command : AsciiCmd) (tokens : List Bytes) : Nat :=
  if readsData I command tokens && legalLine tokens then (strtoull (tokens.getD 4 [])).1 + 2 else 0

/-- The line of a command on which the connection is terminated. -/
def terminates (I : Interface σ) (command : AsciiCmd) (tokens : List Bytes) : Bool :=
  readsData I command (dropNoreply tokens) && !legalStorage command (dropNoreply tokens) ||
    command = .quit && tokens.length = 1 && !hasNoreply tokens

/-- A command that is there as a whole. -/
structure TextCommand.Complete (I : Interface σ) (c : TextCommand) : Prop where
  line : (10 : UInt8) ∉ c.line
  tokens : ¬c.Reads → c.tokens ≠ []
  block : c.block.length =
    if c.Reads then 0 else blockLength I c.command (dropNoreply c.tokens)
  short : c.bytes.length < 2 ^ 63

instance (I : Interface σ) (c : TextCommand) : Decidable (c.Complete I) :=
  decidable_of_iff ((10 : UInt8) ∉ c.line ∧ (¬c.Reads → c.tokens ≠ []) ∧
      c.block.length = (if c.Reads then 0 else blockLength I c.command (dropNoreply c.tokens)) ∧
      c.bytes.length < 2 ^ 63)
    ⟨fun h => ⟨h.1, h.2.1, h.2.2.1, h.2.2.2⟩, fun h => ⟨h.line, h.tokens, h.block, h.short⟩⟩

/-! ## The command word -/

theorem take_line {word : Bytes} (hword : (10 : UInt8) ∉ word) (more : Bytes) :
    (line ++ 10 :: more).take word.length = word ↔ line.take word.length = word := by
  by_cases hl : word.length ≤ line.length
  · rw [take_append_of_le_length hl]
  · have hshort : line.take word.length ≠ word := fun h => by
      have := congrArg List.length h
      rw [length_take] at this
      omega
    refine iff_of_false (fun h => hword ?_) hshort
    rw [← h]
    refine mem_take_iff_getElem.mpr ⟨line.length, ?_, ?_⟩
    · simp
      omega
    · simp

theorem asciiToCmd_line (line more : Bytes) : asciiToCmd (line ++ 10 :: more) = asciiToCmd (line ++ [10]) := by
  have hmatch : ∀ entry ∈ asciiCommands,
      ((line ++ 10 :: more).take entry.2.1 == (ascii entry.1).take entry.2.1 &&
          ((line ++ 10 :: more).length == entry.2.1 || isSpace ((line ++ 10 :: more).getD entry.2.1 0))) =
        ((line ++ [10]).take entry.2.1 == (ascii entry.1).take entry.2.1 &&
          ((line ++ [10]).length == entry.2.1 || isSpace ((line ++ [10]).getD entry.2.1 0))) := by
    intro entry hentry
    have hword : ((ascii entry.1).take entry.2.1).length = entry.2.1 ∧
        (10 : UInt8) ∉ (ascii entry.1).take entry.2.1 := by
      revert entry
      decide +kernel
    generalize (ascii entry.1).take entry.2.1 = word at hword ⊢
    obtain ⟨hlen, hnot⟩ := hword
    rw [← hlen, Bool.eq_iff_iff]
    simp only [Bool.and_eq_true, beq_iff_eq, take_line hnot]
    refine and_congr_right fun htake => ?_
    have hle : word.length ≤ line.length := by
      have := congrArg List.length htake
      rw [length_take] at this
      omega
    have hget (rest : Bytes) : (line ++ 10 :: rest).getD word.length 0 = (line ++ [10]).getD word.length 0 := by
      by_cases hlt : word.length < line.length
      · rw [getD_append _ _ _ _ hlt, getD_append _ _ _ _ hlt]
      · have heq : word.length = line.length := by omega
        simp [heq]
    have hne (rest : Bytes) : ((line ++ 10 :: rest).length == word.length) = false := by
      simp
      omega
    rw [hget more, hne more, hne []]
  rw [asciiToCmd, asciiToCmd, List.find?_congr hmatch]

/-! ## Progress -/

theorem hasNoreply_lt {tokens : List Bytes} (h : hasNoreply tokens) : tokens.length < maxTokens := by
  simp only [hasNoreply, Bool.and_eq_true, decide_eq_true_eq] at h
  exact h.1

theorem setMute_asciiCommand {tokens : List Bytes} {s : Serving σ} :
    (setMute tokens s).asciiCommand = s.asciiCommand := by
  rw [setMute]
  split <;> rfl

theorem spool_calls (data : Bytes) (s : Serving σ) : (s.spool data).calls = s.calls := by
  unfold Serving.spool
  split <;> rfl

theorem processCommand_storage (I : Interface σ) {tokens : List Bytes} {ntokens : Nat} {callback : Callback}
    (h : storageShape s.asciiCommand = some (ntokens, callback)) :
    processCommand I tokens line after length s =
      checkedStorage I ntokens callback tokens after (line.length - 1) length s := by
  rw [processCommand]
  revert h
  cases s.asciiCommand <;> intro h <;> cases h <;> rfl

/-! ## Storage commands -/

theorem processStorageCommand_done (I : Interface σ) {tokens : List Bytes}
    {flags timeout nbytes u2 u3 u4 : Nat} {call : Invocation}
    (hkey : tokenKey (tokens.getD 1 []) = some key)
    (hflags : strtoull (tokens.getD 2 []) = (flags, u2, false))
    (htimeout : strtoull (tokens.getD 3 []) = (timeout, u3, false))
    (hbytes : strtoull (tokens.getD 4 []) = (nbytes, u4, false)) (hneed : nbytes + end_ + 3 ≤ length)
    (hlength : length < 2 ^ 63)
    (hcall : storageCall s.asciiCommand tokens key (after.take (nbytes % 2 ^ 32)) (flags % 2 ^ 32) (timeout % 2 ^ 32) = some call) :
    processStorageCommand I tokens after end_ length s = (.done (nbytes + 2),
      asciiRawResponseHandler (storageReply s.asciiCommand (s.invoke I call).1.status)
        (s.invoke I call).2) := by
  have h1 : ¬2 ^ 63 ≤ nbytes + end_ + 3 := by omega
  have h2 : ¬length < nbytes + end_ + 3 := by omega
  simp only [processStorageCommand, hkey, hflags, htimeout, hbytes, if_neg h1, if_neg h2, hcall]
  rfl

/-- The callback can be called, up to the value of `cas`. -/
theorem storageCall_isSome {command : AsciiCmd} (hshape : (storageShape command).isSome)
    (tokens : List Bytes) (key data : Bytes) (flags timeout : Nat) :
    (storageCall command tokens key data flags timeout).isSome =
      !(command = .cas && (strtoull (tokens.getD 5 [])).2.2) := by
  by_cases hcas : command = .cas
  · subst hcas
    rw [storageCall]
    generalize strtoull (tokens.getD 5 []) = cas
    obtain ⟨cas, used, range⟩ := cas
    cases range <;> rfl
  · cases command <;> first | exact absurd hshape (by decide) | exact absurd rfl hcas | rfl

theorem legalLine_of_legalStorage {command : AsciiCmd} {tokens : List Bytes}
    (h : legalStorage command tokens) : legalLine tokens := by
  rw [legalStorage, Bool.and_eq_true] at h
  exact h.1

theorem processStorageCommand_legal (I : Interface σ) {tokens : List Bytes}
    (hshape : (storageShape s.asciiCommand).isSome) (hlegal : legalStorage s.asciiCommand tokens)
    (hneed : (strtoull (tokens.getD 4 [])).1 + end_ + 3 ≤ length) (hlength : length < 2 ^ 63) :
    ∃ key, tokenKey (tokens.getD 1 []) = some key ∧ ∃ call, storageCall s.asciiCommand tokens key
          (after.take ((strtoull (tokens.getD 4 [])).1 % 2 ^ 32))
          ((strtoull (tokens.getD 2 [])).1 % 2 ^ 32) ((strtoull (tokens.getD 3 [])).1 % 2 ^ 32) =
            some call ∧ processStorageCommand I tokens after end_ length s =
          (.done ((strtoull (tokens.getD 4 [])).1 + 2),
            asciiRawResponseHandler (storageReply s.asciiCommand (s.invoke I call).1.status)
              (s.invoke I call).2) := by
  simp only [legalStorage, legalLine, Bool.and_eq_true, Bool.not_eq_true'] at hlegal
  obtain ⟨⟨⟨⟨hkey, hflags⟩, htimeout⟩, hbytes⟩, hcas⟩ := hlegal
  obtain ⟨key, hkey⟩ := Option.isSome_iff_exists.mp hkey
  have hcall := storageCall_isSome hshape tokens key
    (after.take ((strtoull (tokens.getD 4 [])).1 % 2 ^ 32))
    ((strtoull (tokens.getD 2 [])).1 % 2 ^ 32) ((strtoull (tokens.getD 3 [])).1 % 2 ^ 32)
  rw [hcas] at hcall
  obtain ⟨call, hcall⟩ := Option.isSome_iff_exists.mp hcall
  exact ⟨key, hkey, call, hcall, processStorageCommand_done I hkey (Prod.ext rfl (Prod.ext rfl hflags))
    (Prod.ext rfl (Prod.ext rfl htimeout)) (Prod.ext rfl (Prod.ext rfl hbytes)) hneed hlength hcall⟩

theorem processStorageCommand_more (I : Interface σ) {tokens : List Bytes} (hlegal : legalLine tokens)
    (hneed : length < (strtoull (tokens.getD 4 [])).1 + end_ + 3)
    (hshort : (strtoull (tokens.getD 4 [])).1 + end_ + 3 < 2 ^ 63) :
    processStorageCommand I tokens after end_ length s = (.more, s) := by
  simp only [legalLine, Bool.and_eq_true, Bool.not_eq_true'] at hlegal
  obtain ⟨⟨⟨hkey, hflags⟩, htimeout⟩, hbytes⟩ := hlegal
  obtain ⟨key, hkey⟩ := Option.isSome_iff_exists.mp hkey
  rw [processStorageCommand, hkey]
  generalize strtoull (tokens.getD 2 []) = flags, strtoull (tokens.getD 3 []) = timeout,
    strtoull (tokens.getD 4 []) = nbytes at *
  obtain ⟨flags, u2, r2⟩ := flags
  obtain ⟨timeout, u3, r3⟩ := timeout
  obtain ⟨nbytes, u4, r4⟩ := nbytes
  cases hflags
  cases htimeout
  cases hbytes
  dsimp only at hneed hshort ⊢
  rw [if_neg (by omega), if_pos hneed]

theorem blockLength_pos {command : AsciiCmd} {tokens : List Bytes} (h : 0 < blockLength I command tokens) :
    legalLine tokens ∧ blockLength I command tokens = (strtoull (tokens.getD 4 [])).1 + 2 ∧
      ∃ callback, storageShape command = some (tokens.length, callback) ∧ I.present callback := by
  rw [blockLength] at h ⊢
  split at h
  · rename_i hdata
    rw [if_pos hdata]
    rw [Bool.and_eq_true, readsData] at hdata
    obtain ⟨hdata, hlegal⟩ := hdata
    refine ⟨hlegal, rfl, ?_⟩
    revert hdata
    cases storageShape command with
    | none => simp
    | some shape =>
      simp only [Bool.and_eq_true, decide_eq_true_eq]
      rintro ⟨hcount, hpresent⟩
      exact ⟨shape.2, by rw [hcount], hpresent⟩
  · exact absurd h (Nat.lt_irrefl 0)

/-- A line that is not legal ends the connection, at once or when the data is there. -/
theorem processStorageCommand_illegal (I : Interface σ) {tokens : List Bytes}
    (hshape : (storageShape s.asciiCommand).isSome) (hillegal : legalStorage s.asciiCommand tokens = false)
    (hneed : legalLine tokens → (strtoull (tokens.getD 4 [])).1 + end_ + 3 ≤ length)
    (hlength : length < 2 ^ 63) : processStorageCommand I tokens after end_ length s =
      (.ended, asciiRawResponseHandler "CLIENT_ERROR: bad key\r\n" s) := by
  rw [legalStorage] at hillegal
  rw [processStorageCommand]
  split
  · rename_i key flags u2 timeout u3 nbytes u4 hkey hflags htimeout hbytes
    have hline : legalLine tokens = true := by
      simp only [legalLine, hkey, hflags, htimeout, hbytes, Option.isSome_some, Bool.not_false,
        Bool.true_and]
    have hneed' := hneed hline
    rw [hbytes] at hneed'
    dsimp only at hneed'
    have h1 : ¬2 ^ 63 ≤ nbytes + end_ + 3 := by omega
    have h2 : ¬length < nbytes + end_ + 3 := by omega
    have hcall := storageCall_isSome hshape tokens key (after.take (nbytes % 2 ^ 32))
      (flags % 2 ^ 32) (timeout % 2 ^ 32)
    rw [hline, Bool.true_and] at hillegal
    rw [hillegal, Option.isSome_eq_false_iff, Option.isNone_iff_eq_none] at hcall
    simp only [if_neg h1, if_neg h2, hcall]
  · rfl

theorem processCommand_progress {I : Interface σ} {tokens : List Bytes}
    (hmute : tokens.length < maxTokens → s.mute = hasNoreply tokens)
    (hneed : line.length - 1 + 1 + blockLength I s.asciiCommand (dropNoreply tokens) ≤ length)
    (hlength : length < 2 ^ 63) : (processCommand I (dropNoreply tokens) line after length s).1 =
      if terminates I s.asciiCommand tokens then .ended
      else .done (blockLength I s.asciiCommand (dropNoreply tokens)) := by
  cases hshape : storageShape s.asciiCommand with
  | some shape =>
    obtain ⟨ntokens, callback⟩ := shape
    have hquit : s.asciiCommand ≠ .quit := fun h => by rw [h] at hshape; cases hshape
    rw [processCommand_storage I hshape, checkedStorage]
    simp only [blockLength, terminates, readsData, hshape, hquit, decide_false, Bool.false_and,
      Bool.or_false] at hneed ⊢
    by_cases hcount : (dropNoreply tokens).length = ntokens
    · by_cases hpresent : I.present callback
      · simp only [hcount, hpresent, decide_true, Bool.true_and, if_true] at hneed ⊢
        rw [if_neg (not_not_intro rfl)]
        have hneed' (hline : legalLine (dropNoreply tokens) = true) :
            (strtoull ((dropNoreply tokens).getD 4 [])).1 + (line.length - 1) + 3 ≤ length := by
          rw [if_pos hline] at hneed
          omega
        have hshape' : (storageShape s.asciiCommand).isSome := by rw [hshape]; rfl
        cases hlegal : legalStorage s.asciiCommand (dropNoreply tokens) with
        | false =>
          rw [processStorageCommand_illegal I hshape' hlegal hneed' hlength]
          rfl
        | true =>
          have hline := legalLine_of_legalStorage hlegal
          obtain ⟨_, _, _, _, h⟩ := processStorageCommand_legal I hshape' hlegal (hneed' hline) hlength
          rw [h, hline]
          rfl
      · simp [hcount, hpresent]
    · simp [hcount]
  | none =>
    have hdata : readsData I s.asciiCommand (dropNoreply tokens) = false := by rw [readsData, hshape]
    simp only [blockLength, terminates, hdata, Bool.false_and, Bool.false_or, Bool.false_eq_true, if_false]
    rw [processCommand]
    by_cases hquit : s.asciiCommand = .quit
    · rw [hquit]
      cases hnoreply : hasNoreply tokens with
      | true => simp [hmute (hasNoreply_lt hnoreply), hnoreply]
      | false =>
        have hdrop : dropNoreply tokens = tokens := by simp [dropNoreply, hnoreply]
        rw [hdrop]
        by_cases hone : tokens.length = 1
        · have hs : s.mute = false := (hmute (by rw [hone]; decide)).trans hnoreply
          simp [hone, hs]
        · simp [hone]
    · simp only [hquit, decide_false, Bool.false_and, Bool.false_eq_true, if_false]
      split <;> first | rfl | exact absurd ‹s.asciiCommand = .quit› hquit | skip
      all_goals
        rename_i h
        rw [h] at hshape
        cases hshape

/-! ## The loop -/

section Loop

variable {I : Interface σ} {c : TextCommand}

theorem TextCommand.bytes_append (c : TextCommand) (rest : Bytes) :
    c.bytes ++ rest = c.line ++ 10 :: (c.block ++ rest) := by
  rw [bytes, append_assoc, cons_append]

theorem TextCommand.length_bytes (c : TextCommand) : c.bytes.length = c.line.length + 1 + c.block.length := by
  rw [bytes, length_append, length_cons]
  omega

theorem TextCommand.asciiToCmd_bytes (c : TextCommand) (rest : Bytes) (hlength : c.bytes.length ≤ length) :
    asciiToCmd ((c.bytes ++ rest).take length) = c.command := by
  have htake : (c.bytes ++ rest).take length =
      c.line ++ 10 :: (c.block ++ rest.take (length - c.bytes.length)) := by
    rw [take_append, take_of_length_le hlength, c.bytes_append]
  rw [htake, asciiToCmd_line]
  rfl

/-- The state in which the `switch` finds a command that is taken apart. -/
def TextCommand.entering (c : TextCommand) (s : Serving σ) : Serving σ :=
  setMute c.tokens { s with asciiCommand := c.command }

theorem TextCommand.asciiRound_eq (hc : c.Complete I) (hreads : ¬c.Reads) (rest : Bytes)
    (hlength : c.bytes.length ≤ length) (s : Serving σ) :
    ((asciiRound I (c.bytes ++ rest) c.line.length length s).1,
        (asciiRound I (c.bytes ++ rest) c.line.length length s).2.2) =
      processCommand I (dropNoreply c.tokens) (asciiTokenizeCommand c.line).2 (c.block ++ rest) length
        (c.entering s) := by
  have hcmd := c.asciiToCmd_bytes rest hlength
  rw [c.bytes_append] at hcmd ⊢
  exact asciiRound_command I s hcmd hreads rfl (hc.tokens hreads)

theorem TextCommand.asciiRound_reads (hreads : c.Reads) (rest : Bytes) (hlength : c.bytes.length ≤ length)
    (s : Serving σ) :
    asciiRound I (c.bytes ++ rest) c.line.length length s =
      (.done 0, (c.bytes ++ rest).take (c.line.length + 1),
        if I.present .get then
          asciiProcessGets I (c.bytes ++ rest) c.line.length { s with asciiCommand := c.command }
        else asciiRawResponseHandler "SERVER_ERROR: Command not implemented\n"
          { s with asciiCommand := c.command }) := by
  simp only [asciiRound, c.asciiToCmd_bytes rest hlength]
  exact if_pos hreads

variable (hc : c.Complete I)
include hc

/-- A round takes the command, unless the connection ends. -/
theorem asciiRound_progress (rest : Bytes) (hlength : c.bytes.length ≤ length) (hshort : length < 2 ^ 63)
    (s : Serving σ) : (asciiRound I (c.bytes ++ rest) c.line.length length s).1 =
      if terminates I c.command c.tokens then .ended else .done c.block.length := by
  by_cases hreads : c.Reads
  · have hnot : terminates I c.command c.tokens = false := by
      rcases hreads with h | h <;> rw [h] <;> rfl
    have hblock := hc.block
    rw [if_pos hreads] at hblock
    rw [TextCommand.asciiRound_reads hreads rest hlength, hnot, hblock]
    rfl
  · have hblock := hc.block
    rw [if_neg hreads] at hblock
    have hround := congrArg Prod.fst (TextCommand.asciiRound_eq hc hreads rest hlength s)
    have hentering : (c.entering s).asciiCommand = c.command := setMute_asciiCommand
    have hline : (asciiTokenizeCommand c.line).2.length - 1 + 1 = c.line.length + 1 := by
      rw [asciiTokenizeCommand, length_tokenizeLoop, Nat.add_sub_cancel]
    have hbytes := c.length_bytes
    refine hround.trans ?_
    rw [processCommand_progress _ _ hshort, hentering, hblock]
    · intro hten
      rw [TextCommand.entering, setMute, if_pos hten]
    · rw [hentering, hline, ← hblock]
      omega

theorem idxOf?_bytes (rest : Bytes) (hlength : c.bytes.length ≤ length) :
    ((c.bytes ++ rest).take length).idxOf? 10 = some c.line.length := by
  rw [take_append, take_of_length_le hlength, c.bytes_append]
  exact idxOf?_append_cons _ hc.line

theorem asciiLoop_step (hends : terminates I c.command c.tokens = false) (rest : Bytes)
    (hlength : c.bytes.length ≤ length) (hshort : length < 2 ^ 63) (fuel : Nat) (front : Bytes)
    (s : Serving σ) : ∃ front', asciiLoop I (fuel + 1) front (c.bytes ++ rest) length s =
      if length - c.bytes.length = 0 then ⟨.read, front' ++ rest, 0, some front'.length,
          (asciiRound I (c.bytes ++ rest) c.line.length length s).2.2⟩ else
        asciiLoop I fuel front' rest (length - c.bytes.length)
          (asciiRound I (c.bytes ++ rest) c.line.length length s).2.2 := by
  have hend := idxOf?_bytes hc rest hlength
  have hprogress := asciiRound_progress hc rest hlength hshort s
  rw [hends, if_neg Bool.false_ne_true] at hprogress
  have hused : c.line.length + 1 + c.block.length = c.bytes.length := c.length_bytes.symm
  have hblock : slice (c.bytes ++ rest) (c.line.length + 1) c.block.length = c.block := by
    rw [show c.bytes ++ rest = (c.line ++ [10]) ++ (c.block ++ rest) by simp [c.bytes_append],
      show c.line.length + 1 = (c.line ++ [10]).length by simp, slice_middle]
  have hafter : (c.bytes ++ rest).drop (c.line.length + 1) = c.block ++ rest := by
    rw [show c.bytes ++ rest = (c.line ++ [10]) ++ (c.block ++ rest) by simp [c.bytes_append],
      show c.line.length + 1 = (c.line ++ [10]).length by simp, drop_left]
  refine ⟨front ++ (asciiRound I (c.bytes ++ rest) c.line.length length s).2.1 ++ c.block, ?_⟩
  simp only [asciiLoop, hend, hprogress, hused, hblock, hafter, drop_left, append_assoc]

theorem asciiLoop_ended (hends : terminates I c.command c.tokens = true) (rest : Bytes)
    (hlength : c.bytes.length ≤ length) (hshort : length < 2 ^ 63) (fuel : Nat) (front : Bytes)
    (s : Serving σ) : (asciiLoop I (fuel + 1) front (c.bytes ++ rest) length s).event = .error ∧
      (asciiLoop I (fuel + 1) front (c.bytes ++ rest) length s).serving =
        (asciiRound I (c.bytes ++ rest) c.line.length length s).2.2 := by
  have hend := idxOf?_bytes hc rest hlength
  have hprogress := asciiRound_progress hc rest hlength hshort s
  rw [hends, if_pos rfl] at hprogress
  simp only [asciiLoop, hend, hprogress]
  exact ⟨trivial, trivial⟩

end Loop

/-! ## Runs -/

def commandsBytes (cs : List TextCommand) : Bytes := (cs.map TextCommand.bytes).flatten

theorem commandsBytes_cons (c : TextCommand) (cs : List TextCommand) :
    commandsBytes (c :: cs) = c.bytes ++ commandsBytes cs := rfl

/-- The rounds of the commands in a buffer, from one state to another: a property of the command, the
memory behind it and the states before and after its round. -/
def AllRounds (I : Interface σ) (P : TextCommand → Bytes → Serving σ → Serving σ → Prop)
    (stale : Bytes) : List TextCommand → Serving σ → Serving σ → Prop
  | [], s, final => final = s
  | c :: cs, s, final =>
    let length := (commandsBytes (c :: cs)).length
    let s' := (asciiRound I (c.bytes ++ (commandsBytes cs ++ stale)) c.line.length length s).2.2
    P c (commandsBytes cs ++ stale) s s' ∧ AllRounds I P stale cs s' final

/-- The commands of a buffer: all there, and the connection goes on. -/
structure Commands (I : Interface σ) (cs : List TextCommand) : Prop where
  complete : ∀ c ∈ cs, c.Complete I
  goesOn : ∀ c ∈ cs, terminates I c.command c.tokens = false
  short : (commandsBytes cs).length < 2 ^ 63

theorem Commands.tail {c : TextCommand} (h : Commands I (c :: cs)) : Commands I cs where
  complete d hd := h.complete d (mem_cons_of_mem _ hd)
  goesOn d hd := h.goesOn d (mem_cons_of_mem _ hd)
  short := by
    have := h.short
    rw [commandsBytes_cons, length_append] at this
    omega

theorem asciiLoop_rounds (h : Commands I cs) (stale : Bytes) (hfuel : (commandsBytes cs).length < fuel)
    (front : Bytes) (s : Serving σ) :
    let w := asciiLoop I fuel front (commandsBytes cs ++ stale) (commandsBytes cs).length s
    w.event = .read ∧ w.length = 0 ∧ AllRounds I (fun _ _ _ _ => True) stale cs s w.serving := by
  induction cs generalizing fuel front s with
  | nil =>
    obtain ⟨fuel, rfl⟩ : ∃ n, fuel = n + 1 := ⟨fuel - 1, by omega⟩
    exact ⟨rfl, rfl, rfl⟩
  | cons c cs ih =>
    obtain ⟨fuel, rfl⟩ : ∃ n, fuel = n + 1 := ⟨fuel - 1, by omega⟩
    have hshort := h.short
    have hbytes := c.length_bytes
    have hrest : (commandsBytes (c :: cs)).length - c.bytes.length = (commandsBytes cs).length := by
      rw [commandsBytes_cons, length_append, Nat.add_sub_cancel_left]
    have hle : c.bytes.length ≤ (commandsBytes (c :: cs)).length := by
      rw [commandsBytes_cons, length_append]
      omega
    obtain ⟨front', hstep⟩ := asciiLoop_step (h.complete c mem_cons_self)
      (h.goesOn c mem_cons_self) (commandsBytes cs ++ stale) hle hshort fuel front s
    have hmem : commandsBytes (c :: cs) ++ stale = c.bytes ++ (commandsBytes cs ++ stale) := by
      rw [commandsBytes_cons, append_assoc]
    rw [hmem, hstep, hrest]
    by_cases hnil : (commandsBytes cs).length = 0
    · have hcs : cs = [] := by
        cases cs with
        | nil => rfl
        | cons d cs =>
          have := d.length_bytes
          rw [commandsBytes_cons, length_append] at hnil
          omega
      rw [if_pos hnil]
      subst hcs
      exact ⟨rfl, rfl, trivial, rfl⟩
    · rw [if_neg hnil]
      have hlt : (commandsBytes cs).length < fuel := by omega
      obtain ⟨h1, h2, h3⟩ := ih h.tail hlt front'
        (asciiRound I (c.bytes ++ (commandsBytes cs ++ stale)) c.line.length
          (commandsBytes (c :: cs)).length s).2.2
      exact ⟨h1, h2, trivial, h3⟩

/-- The buffer is consumed, one command after the other. -/
theorem asciiProcessData_rounds (h : Commands I cs) (stale : Bytes) (s : Serving σ) :
    let w := asciiProcessData I (commandsBytes cs ++ stale) (commandsBytes cs).length s
    w.event = .read ∧ w.length = 0 ∧ AllRounds I (fun _ _ _ _ => True) stale cs s w.serving :=
  asciiLoop_rounds h stale (Nat.lt_succ_self _) [] s

theorem AllRounds.iff {P Q : TextCommand → Bytes → Serving σ → Serving σ → Prop} {stale : Bytes}
    (hiff : ∀ c ∈ cs, ∀ rest length s, c.bytes.length ≤ length → length ≤ (commandsBytes cs).length → (P c rest s (asciiRound I (c.bytes ++ rest) c.line.length length s).2.2 ↔ Q c rest s (asciiRound I (c.bytes ++ rest) c.line.length length s).2.2))
    (s final : Serving σ) : AllRounds I P stale cs s final ↔ AllRounds I Q stale cs s final := by
  induction cs generalizing s with
  | nil => exact Iff.rfl
  | cons c cs ih =>
    have hle : (commandsBytes (c :: cs)).length = c.bytes.length + (commandsBytes cs).length := by
      rw [commandsBytes_cons, length_append]
    have htail := ih fun d hd rest length s h1 h2 =>
      hiff d (mem_cons_of_mem _ hd) rest length s h1 (by omega)
    exact and_congr (hiff c mem_cons_self _ _ s (by omega) (Nat.le_refl _)) (htail _)

/-! ## Keys -/

/-- The keys that `ascii_process_gets` finds. -/
def getsKeys (mem : Bytes) (end_ : Nat) : Nat → Nat → List Bytes
  | 0, _ => []
  | fuel + 1, key =>
    if key < end_ then
      let (blanks, nkey) := parseAsciiKey (mem.drop key)
      if nkey = 0 then []
      else slice mem (key + blanks) nkey :: getsKeys mem end_ fuel (key + blanks + nkey)
    else []

/-- The callback for a key. -/
def getKey (I : Interface σ) (s : Serving σ) (key : Bytes) : Serving σ :=
  s.invokeWith I (.get key) (·.hits) asciiGetResponseHandler

theorem getsLoop_eq (I : Interface σ) (mem : Bytes) (end_ fuel key numKeys : Nat) (s : Serving σ) :
    getsLoop I mem end_ fuel key numKeys s =
      (numKeys + (getsKeys mem end_ fuel key).length, (getsKeys mem end_ fuel key).foldl (getKey I) s) := by
  induction fuel generalizing key numKeys s with
  | zero => rfl
  | succ fuel ih =>
    simp only [getsLoop, getsKeys]
    split
    · split
      · rfl
      · rw [ih, length_cons, foldl_cons, getKey]
        congr 1
        omega
    · rfl

/-- A character of a key. -/
def keyByte (b : UInt8) : Bool := b != 0 && !isSpace b && !isCntrl b

theorem keyByte_of_isGraph (h : isGraph b = true) : keyByte b = true := by
  simp [keyByte, ne_zero_of_isGraph h, isSpace_of_isGraph h, isCntrl_of_isGraph h]

/-- The length of the key at the beginning of the memory, or 0. -/
def keyLength (mem : Bytes) : Nat :=
  let word := mem.takeWhile keyByte
  let c := mem.getD word.length 0
  let len := word.length % 2 ^ 16
  if len = 0 ∨ 240 < len ∨ (c ≠ 0 ∧ c ≠ 13 ∧ isCntrl c) then 0 else len

theorem parseAsciiKey_eq {blanks rest : Bytes} (hblanks : ∀ b ∈ blanks, isSpace b = true)
    (hb : isSpace b = false) :
    parseAsciiKey (blanks ++ b :: rest) = (blanks.length, keyLength (b :: rest)) := by
  have htake : (blanks ++ b :: rest).takeWhile isSpace = blanks := by
    rw [takeWhile_append_of_pos hblanks, takeWhile_cons_of_neg (by simp [hb]), append_nil]
  have hnext (n : Nat) : (blanks ++ b :: rest).getD (blanks.length + n) 0 = (b :: rest).getD n 0 := by
    rw [getD_append_right _ _ _ _ (Nat.le_add_right _ _), Nat.add_sub_cancel_left]
  simp only [parseAsciiKey, htake, drop_left, hnext]
  rfl

theorem takeWhile_append_stop {p : UInt8 → Bool} (h : p b = false) (a rest : Bytes) :
    (a ++ b :: rest).takeWhile p = a.takeWhile p := by
  induction a with
  | nil => simp [h]
  | cons c a ih => simp only [cons_append, takeWhile_cons, ih]

/-- The key in a line does not depend on what is behind the line. -/
theorem keyLength_line (line after : Bytes) :
    keyLength (line ++ 10 :: after) = keyLength (line ++ [10]) ∧ keyLength (line ++ [10]) ≤ line.length := by
  have hword (more : Bytes) : (line ++ 10 :: more).takeWhile keyByte = line.takeWhile keyByte :=
    takeWhile_append_stop (by decide) line more
  have hle : (line.takeWhile keyByte).length ≤ line.length := ( takeWhile_prefix _).length_le
  have hnext (more : Bytes) : (line ++ 10 :: more).getD (line.takeWhile keyByte).length 0 =
      (line ++ [10]).getD (line.takeWhile keyByte).length 0 := by
    by_cases hlt : (line.takeWhile keyByte).length < line.length
    · rw [getD_append _ _ _ _ hlt, getD_append _ _ _ _ hlt]
    · have heq : (line.takeWhile keyByte).length = line.length := by omega
      simp [heq]
  have hmod : (line.takeWhile keyByte).length % 2 ^ 16 ≤ line.length :=
    Nat.le_trans (Nat.mod_le _ _) hle
  simp only [keyLength, hword, hnext after]
  refine ⟨trivial, ?_⟩
  split
  · exact Nat.zero_le _
  · exact hmod

theorem parseAsciiKey_blank {l : Bytes} (h : ∀ b ∈ l, isSpace b = true) :
    (parseAsciiKey (l ++ [10])).2 = 0 := by
  have hall : (l ++ [10]).takeWhile isSpace = l ++ [10] := takeWhile_eq_self_iff.mpr fun b hb => by
    rcases mem_append.mp hb with hb | hb
    · exact h b hb
    · rw [mem_singleton.mp hb]
      decide
  simp [parseAsciiKey, hall]

/-- The keys of the line are found whatever is behind it, and then possibly more. -/
theorem getsKeys_append (line after : Bytes) (fuel key : Nat) :
    ∃ extra, getsKeys (line ++ 10 :: after) line.length fuel key =
      getsKeys (line ++ [10]) line.length fuel key ++ extra := by
  induction fuel generalizing key with
  | zero => exact ⟨[], rfl⟩
  | succ fuel ih =>
    by_cases hkey : key < line.length
    · have hdrop (more : Bytes) : (line ++ 10 :: more).drop key = line.drop key ++ 10 :: more :=
        drop_append_of_le_length (Nat.le_of_lt hkey)
      have hlength : (line.drop key).length = line.length - key := length_drop
      by_cases hblank : ∀ b ∈ line.drop key, isSpace b = true
      · refine ⟨getsKeys (line ++ 10 :: after) line.length (fuel + 1) key, ?_⟩
        have hnone : getsKeys (line ++ [10]) line.length (fuel + 1) key = [] := by
          rw [getsKeys, if_pos hkey, hdrop]
          exact if_pos (parseAsciiKey_blank hblank)
        rw [hnone, nil_append]
      · obtain ⟨blanks, b, rest, hsplit, hblanks, hb⟩ := split_blanks hblank
        have hparse (more : Bytes) : parseAsciiKey ((line ++ 10 :: more).drop key) =
            (blanks.length, keyLength (b :: rest ++ [10])) := by
          rw [hdrop, hsplit, append_assoc, cons_append, parseAsciiKey_eq hblanks hb,
            ← cons_append, (keyLength_line (b :: rest) more).1]
        have hle : blanks.length + keyLength (b :: rest ++ [10]) ≤ line.length - key := by
          have h1 := (keyLength_line (b :: rest) []).2
          have h2 := congrArg List.length hsplit
          rw [hlength, length_append] at h2
          omega
        generalize keyLength (b :: rest ++ [10]) = nkey at hparse hle
        have hslice (more : Bytes) :
            slice (line ++ 10 :: more) (key + blanks.length) nkey = slice line (key + blanks.length) nkey :=
          slice_append _ (by omega)
        obtain ⟨extra, hextra⟩ := ih (key + blanks.length + nkey)
        by_cases hzero : nkey = 0
        · refine ⟨[], ?_⟩
          simp only [getsKeys, hparse, hzero, if_true, append_nil]
        · refine ⟨extra, ?_⟩
          simp only [getsKeys, if_pos hkey, hparse, if_neg hzero, hslice, hextra, cons_append]
    · exact ⟨[], by simp only [getsKeys, if_neg hkey, append_nil]⟩

theorem parseAsciiKey_key (h : (parseAsciiKey mem).2 ≠ 0) : (parseAsciiKey mem).2 ≤ 240 ∧
      ∀ b ∈ slice mem (parseAsciiKey mem).1 (parseAsciiKey mem).2, keyByte b = true := by
  let rest := mem.drop (mem.takeWhile isSpace).length
  let len := (rest.takeWhile keyByte).length % 2 ^ 16
  have hparse : (parseAsciiKey mem).2 = len ∧ len ≤ 240 := by
    rw [parseAsciiKey] at h ⊢
    dsimp only at h ⊢
    split at h
    · exact absurd rfl h
    · rename_i hlen
      have hle : ¬240 < len := fun hlt => hlen (.inr (.inl hlt))
      exact ⟨if_neg hlen, Nat.not_lt.mp hle⟩
  have hpre : rest.take len <+: rest.takeWhile keyByte :=
    prefix_of_prefix_length_le ( take_prefix _ _) ( takeWhile_prefix _)
      (Nat.le_trans (length_take_le _ _) (Nat.mod_le _ _))
  rw [hparse.1]
  refine ⟨hparse.2, fun b hb => ?_⟩
  exact mem_takeWhile_imp (hpre.subset hb)

theorem mem_getsKeys {start : Nat} (h : key ∈ getsKeys mem end_ fuel start) :
    key.length ≤ 240 ∧ ∀ b ∈ key, keyByte b = true := by
  induction fuel generalizing start with
  | zero => exact nomatch h
  | succ fuel ih =>
    rw [getsKeys] at h
    split at h
    · dsimp only at h
      split at h
      · exact nomatch h
      · rename_i hne
        rcases mem_cons.mp h with rfl | h
        · have hkey := parseAsciiKey_key hne
          rw [slice, drop_drop] at hkey
          exact ⟨Nat.le_trans (length_take_le _ _) hkey.1, hkey.2⟩
        · exact ih h
    · exact nomatch h

end LM
