import LibMemcached.Framework.Chunks
import LibMemcached.Proof.ClientWork
import LibMemcached.Proof.TextAnswers

/-!
# Text commands and the boundaries of `recv`

`memcached_protocol_client_work` with the text protocol, on a stream that arrives in pieces. The
commands of a stream are cut from it by `nextCommand`. A storage command whose data is not there yet
is taken apart and put together again: its line is kept with other blanks (`recoveredLine`), which
makes no difference for its tokens. `text_independent_of_cuts` says that two ways to cut a stream lead
to the same, as long as no round reads behind its line and a command that is put together again stands
first in the buffer.
-/

namespace LM

open List

variable {σ : Type} {line rest l after l' block : Bytes} {b : UInt8} {I : Interface σ} {tokens : List Bytes}
  {length : Nat} {s : Serving σ} {c : ServerClient σ} {word data : Bytes} {a : UInt8} {length' : Nat}
  {recv : Recv} {recvs : List Recv}

/-! ## Lines that are put together again -/

/-- A line that was taken apart and put together again, without its line feed. -/
def recoveredLine (line : Bytes) : Bytes :=
  (asciiTokenizeCommand line).2.dropLast.map fun b => if b = 0 then 32 else b

theorem recoverTokenizeCommand_eq (line : Bytes) :
    recoverTokenizeCommand (asciiTokenizeCommand line).2 = recoveredLine line ++ [10] := rfl

theorem length_recoveredLine (line : Bytes) : (recoveredLine line).length = line.length := by
  rw [recoveredLine, length_map, length_dropLast, asciiTokenizeCommand, length_tokenizeLoop,
    Nat.add_sub_cancel]

/-- The rest of a line, put together again. -/
def recovered (fuel size : Nat) (rest : Bytes) : Bytes :=
  (tokenizeLoop fuel size rest).2.dropLast.map fun b => if b = 0 then 32 else b

theorem recoveredLine_eq (line : Bytes) : recoveredLine line = recovered (line.length + 1) maxTokens line := rfl

theorem map_of_not_zero (h : (0 : UInt8) ∉ l) : l.map (fun b => if b = 0 then 32 else b) = l := by
  induction l with
  | nil => rfl
  | cons b l ih =>
    have hb : b ≠ 0 := fun h0 => h (h0 ▸ mem_cons_self)
    rw [map_cons, if_neg hb, ih fun hl => h (mem_cons_of_mem _ hl)]

theorem recovered_word {blanks : Bytes} (hblanks : ∀ b ∈ blanks, isSpace b = true) (hne : word ≠ [])
    (hword : ∀ b ∈ word, isSpace b = false) (hb : isSpace b = true) {tail : Bytes}
    (hzero : (0 : UInt8) ∉ blanks ++ word) (fuel size : Nat) :
    recovered (fuel + 1) (size + 1) (blanks ++ (word ++ b :: tail)) =
      blanks ++ (word ++ 32 :: recovered fuel size tail) := by
  have htail : (tokenizeLoop fuel size tail).2 ≠ [] := by
    intro hnil
    have := length_tokenizeLoop fuel size tail
    rw [hnil] at this
    cases this
  rw [recovered, tokenizeLoop_word hblanks hne hword hb]
  dsimp only
  rw [dropLast_append_cons, dropLast_cons_of_ne_nil htail, map_append, map_cons,
    map_of_not_zero hzero, append_assoc]
  rfl

/-- What happens to a byte. -/
def Blanked (a b : UInt8) : Prop := a = b ∨ isSpace a = true ∧ b = 32

theorem blanked_refl (l : Bytes) : List.Forall₂ Blanked l l := forall₂_same.mpr fun _ _ => .inl rfl

/-- The tokens are found again at the same places, and the other bytes are the same. -/
def Recovers (fuel size : Nat) (rest : Bytes) : Prop :=
  tokenizeLoop fuel size (recovered fuel size rest) = tokenizeLoop fuel size rest ∧
    List.Forall₂ Blanked rest (recovered fuel size rest)

theorem recovers_rest {fuel size : Nat} (h : tokenizeLoop fuel size rest = (tokens, rest ++ [b]))
    (hzero : (0 : UInt8) ∉ rest) : Recovers fuel size rest := by
  have hsame : recovered fuel size rest = rest := by
    rw [recovered, h]
    dsimp only
    rw [dropLast_concat, map_of_not_zero hzero]
  rw [Recovers, hsame]
  exact ⟨rfl, blanked_refl rest⟩

theorem recovers_of_not_zero (hzero : (0 : UInt8) ∉ rest) (fuel size : Nat) : Recovers fuel size rest := by
  induction fuel generalizing size rest with
  | zero => exact recovers_rest (b := 10) rfl hzero
  | succ fuel ih =>
    cases size with
    | zero => exact recovers_rest (b := 10) rfl hzero
    | succ size =>
      rcases line_cases rest with hblank | ⟨blanks, word, hblanks, hne, hword, rfl | ⟨b, tail, hb, rfl⟩⟩
      · exact recovers_rest (tokenizeLoop_blank hblank fuel size) hzero
      · exact recovers_rest (tokenizeLoop_last hblanks hne hword fuel size) hzero
      · have hzero' : (0 : UInt8) ∉ blanks ++ word := fun h => hzero (by
          rw [← append_assoc]
          exact mem_append_left _ h)
        obtain ⟨htokens, hbytes⟩ := ih (fun h => hzero
          (mem_append_right _ (mem_append_right _ (mem_cons_of_mem _ h)))) size
        rw [Recovers, recovered_word hblanks hne hword hb hzero',
          tokenizeLoop_word hblanks hne hword (by decide), tokenizeLoop_word hblanks hne hword hb, htokens]
        exact ⟨rfl, rel_append (blanked_refl _)
          (rel_append (blanked_refl _) (.cons (.inr ⟨hb, rfl⟩) hbytes))⟩

theorem asciiTokenizeCommand_recoveredLine (hzero : (0 : UInt8) ∉ line) :
    asciiTokenizeCommand (recoveredLine line) = asciiTokenizeCommand line := by
  rw [asciiTokenizeCommand, asciiTokenizeCommand, length_recoveredLine, recoveredLine_eq,
    (recovers_of_not_zero hzero _ _).1]

theorem recoveredLine_recoveredLine (hzero : (0 : UInt8) ∉ line) :
    recoveredLine (recoveredLine line) = recoveredLine line := by
  rw [recoveredLine, asciiTokenizeCommand_recoveredLine hzero]
  rfl

/-! ## The command word -/

/-- Bytes that are the same, or both blanks. -/
def BlankEq (a b : UInt8) : Prop := a = b ∨ isSpace a = true ∧ isSpace b = true

theorem BlankEq.symm (h : BlankEq a b) : BlankEq b a := by
  rcases h with rfl | h
  · exact .inl rfl
  · exact .inr h.symm

theorem Blanked.blankEq (h : Blanked a b) : BlankEq a b := by
  rcases h with rfl | ⟨ha, rfl⟩
  · exact .inl rfl
  · exact .inr ⟨ha, by decide⟩

theorem not_mem_of_blanked (h : List.Forall₂ Blanked l l') (hb : b ≠ 32) (hl : b ∉ l) : b ∉ l' := by
  induction h with
  | nil => exact hl
  | cons hac _ ih =>
    rw [mem_cons, not_or] at hl ⊢
    refine ⟨?_, ih hl.2⟩
    rcases hac with rfl | ⟨-, rfl⟩
    · exact hl.1
    · exact hb

/-- A text without blanks is the same with other blanks. -/
theorem eq_of_forall₂ {other : Bytes} (hword : ∀ b ∈ word, isSpace b = false)
    (h : List.Forall₂ BlankEq word other) : other = word := by
  induction h with
  | nil => rfl
  | cons hab _ ih =>
    rcases hab with rfl | ⟨ha, -⟩
    · rw [ih fun b hb => hword b (mem_cons_of_mem _ hb)]
    · rw [hword _ mem_cons_self] at ha
      cases ha

theorem isSpace_getD (h : List.Forall₂ BlankEq l l') (n : Nat) :
    isSpace (l.getD n 0) = isSpace (l'.getD n 0) := by
  induction h generalizing n with
  | nil => rfl
  | cons hab _ ih =>
    cases n with
    | zero =>
      rcases hab with rfl | ⟨ha, hb⟩
      · rfl
      · exact ha.trans hb.symm
    | succ n => exact ih n

theorem asciiToCmd_forall₂ (h : List.Forall₂ BlankEq l l') : asciiToCmd l = asciiToCmd l' := by
  have hmatch : ∀ entry ∈ asciiCommands, (l.take entry.2.1 == (ascii entry.1).take entry.2.1 &&
          (l.length == entry.2.1 || isSpace (l.getD entry.2.1 0))) =
        (l'.take entry.2.1 == (ascii entry.1).take entry.2.1 &&
          (l'.length == entry.2.1 || isSpace (l'.getD entry.2.1 0))) := by
    intro entry hentry
    have hword : ∀ b ∈ (ascii entry.1).take entry.2.1, isSpace b = false := by
      revert entry
      decide +kernel
    generalize (ascii entry.1).take entry.2.1 = word at hword ⊢
    have htake : l.take entry.2.1 = word ↔ l'.take entry.2.1 = word := by
      have ht := forall₂_take entry.2.1 h
      constructor
      · rintro rfl
        exact eq_of_forall₂ hword ht
      · rintro rfl
        exact eq_of_forall₂ hword (ht.flip.imp fun _ _ => BlankEq.symm)
    rw [isSpace_getD h, h.length_eq, Bool.eq_iff_iff]
    simp only [Bool.and_eq_true, beq_iff_eq, htake]
  rw [asciiToCmd, asciiToCmd, List.find?_congr hmatch]

theorem asciiToCmd_recoveredLine (hzero : (0 : UInt8) ∉ line) :
    asciiToCmd (recoveredLine line ++ [10]) = asciiToCmd (line ++ [10]) :=
  (asciiToCmd_forall₂ ((rel_append (recovers_of_not_zero hzero _ _).2 (blanked_refl [10])).imp
    fun _ _ => Blanked.blankEq)).symm

/-- A storage command with its line put together again. -/
def TextCommand.recover (c : TextCommand) : TextCommand := { c with line := recoveredLine c.line }

section Recover

variable {c : TextCommand} (hzero : (0 : UInt8) ∉ c.line)
include hzero

theorem TextCommand.recover_command : c.recover.command = c.command := asciiToCmd_recoveredLine hzero

theorem TextCommand.recover_tokens : c.recover.tokens = c.tokens :=
  congrArg Prod.fst (asciiTokenizeCommand_recoveredLine hzero)

theorem TextCommand.recover_reads : c.recover.Reads ↔ c.Reads := by
  rw [Reads, recover_command hzero, Reads]

theorem TextCommand.Complete.recover (hc : c.Complete I) : c.recover.Complete I where
  line := not_mem_of_blanked (recovers_of_not_zero hzero _ _).2 (by decide) hc.line
  tokens := by
    rw [recover_reads hzero, recover_tokens hzero]
    exact hc.tokens
  block := by
    simp only [recover_reads hzero, recover_command hzero, recover_tokens hzero]
    exact hc.block
  short := by
    have h := hc.short
    rw [length_bytes] at h ⊢
    rw [TextCommand.recover, length_recoveredLine]
    exact h

end Recover

/-! ## The commands of a stream -/

/-- What is waited for behind a line. -/
def awaited (I : Interface σ) (line : Bytes) : Nat :=
  let c : TextCommand := { line }
  if c.Reads then 0 else blockLength I c.command (dropNoreply c.tokens)

/-- The command with a line, if its data is there. -/
def cutLine (I : Interface σ) (line rest : Bytes) : Option (TextCommand × Bytes) :=
  if awaited I line = 0 then some ({ line }, rest)
  else if awaited I line ≤ rest.length then
    some (TextCommand.recover ⟨line, rest.take (awaited I line)⟩, rest.drop (awaited I line))
  else none

/-- The next command of a stream. -/
def nextCommand (I : Interface σ) (data : Bytes) : Option (TextCommand × Bytes) :=
  match data.idxOf? 10 with
  | none => none
  | some end_ => cutLine I (data.take end_) (data.drop (end_ + 1))

theorem nextCommand_line (I : Interface σ) (hline : (10 : UInt8) ∉ line) (rest : Bytes) :
    nextCommand I (line ++ 10 :: rest) = cutLine I line rest := by
  rw [nextCommand, idxOf?_append_cons rest hline]
  dsimp only
  rw [take_left, drop_append, drop_eq_nil_of_le (by omega), nil_append, Nat.add_sub_cancel_left]
  rfl

theorem nextCommand_of_not_mem (I : Interface σ) (h : (10 : UInt8) ∉ data) : nextCommand I data = none := by
  rw [nextCommand, List.idxOf?_eq_none_iff.mpr h]

/-- Data is without a line feed, or begins with a line. -/
theorem data_cases (data : Bytes) :
    (10 : UInt8) ∉ data ∨ ∃ line rest, data = line ++ 10 :: rest ∧ (10 : UInt8) ∉ line :=
  (Decidable.em (10 ∈ data)).symm.imp_right eq_append_cons_of_mem

theorem cutLine_shorter {c : TextCommand} (h : cutLine I line rest = some (c, after)) :
    after.length ≤ rest.length := by
  rw [cutLine] at h
  split at h
  · obtain ⟨-, rfl⟩ := Prod.mk.inj (Option.some.inj h)
    exact Nat.le_refl _
  · split at h
    · obtain ⟨-, rfl⟩ := Prod.mk.inj (Option.some.inj h)
      rw [length_drop]
      omega
    · cases h

theorem cutLine_append {c : TextCommand} (more : Bytes) (h : cutLine I line rest = some (c, after)) :
    cutLine I line (rest ++ more) = some (c, after ++ more) := by
  rw [cutLine] at h ⊢
  split at h
  · rename_i hzero
    obtain ⟨rfl, rfl⟩ := Prod.mk.inj (Option.some.inj h)
    rw [if_pos hzero]
  · rename_i hpos
    split at h
    · rename_i hle
      obtain ⟨rfl, rfl⟩ := Prod.mk.inj (Option.some.inj h)
      rw [if_neg hpos, if_pos (by rw [length_append]; omega), take_append_of_le_length hle,
        drop_append_of_le_length hle]
    · cases h

/-- The commands of a stream. -/
def commandCutter (I : Interface σ) : Cutter UInt8 TextCommand where
  next := nextCommand I
  shorter {data c after} h := by
    rcases data_cases data with hnot | ⟨line, rest, rfl, hline⟩
    · rw [nextCommand_of_not_mem I hnot] at h
      cases h
    · rw [nextCommand_line I hline] at h
      have := cutLine_shorter h
      rw [length_append, length_cons]
      omega
  stable {data c after} more h := by
    rcases data_cases data with hnot | ⟨line, rest, rfl, hline⟩
    · rw [nextCommand_of_not_mem I hnot] at h
      cases h
    · rw [nextCommand_line I hline] at h
      rw [append_assoc, cons_append, nextCommand_line I hline]
      exact cutLine_append more h

/-- A command is carried out, by itself; it may end the connection. -/
def commandStep (I : Interface σ) (s : Serving σ) (c : TextCommand) : Bool × Serving σ :=
  let round := asciiRound I c.bytes c.line.length c.bytes.length s
  (round.1 = .ended, round.2.2)

/-! ## A round by itself -/

/-- A round that does not depend on the memory behind its command. -/
structure TextCommand.Inside (c : TextCommand) (after : Bytes) : Prop where
  keys : c.Reads → c.keys after = c.keys []
  stats : c.command = .stats →
    statsKey (recoveredLine c.line ++ 10 :: (c.block ++ after)) c.line.length =
      statsKey (recoveredLine c.line ++ 10 :: c.block) c.line.length

instance (c : TextCommand) (after : Bytes) : Decidable (c.Inside after) :=
  decidable_of_iff ((c.Reads → c.keys after = c.keys []) ∧ (c.command = .stats →
      statsKey (recoveredLine c.line ++ 10 :: (c.block ++ after)) c.line.length =
        statsKey (recoveredLine c.line ++ 10 :: c.block) c.line.length))
    ⟨fun h => ⟨h.1, h.2⟩, fun h => ⟨h.keys, h.stats⟩⟩

theorem processStats_eq (I : Interface σ) (mem : Bytes) (end_ : Nat) (s : Serving σ) :
    processStats I mem end_ s = if I.present .stat then
        s.invokeWith I (.stat (statsKey mem end_)) (·.stats) asciiStatResponseHandler
      else notImplemented s := rfl

theorem processStorageCommand_own (I : Interface σ) {end_ : Nat}
    (hshape : (storageShape s.asciiCommand).isSome)
    (hblock : legalLine tokens → (strtoull (tokens.getD 4 [])).1 + 2 = block.length)
    (hlength : end_ + 1 + block.length ≤ length) (hshort : length < 2 ^ 63)
    (hlength' : end_ + 1 + block.length ≤ length') (hshort' : length' < 2 ^ 63) (after after' : Bytes) :
    processStorageCommand I tokens (block ++ after) end_ length s =
      processStorageCommand I tokens (block ++ after') end_ length' s := by
  cases hlegal : legalStorage s.asciiCommand tokens with
  | false =>
    rw [processStorageCommand_illegal I hshape hlegal (fun h => by have := hblock h; omega) hshort,
      processStorageCommand_illegal I hshape hlegal (fun h => by have := hblock h; omega) hshort']
  | true =>
    have hb := hblock (legalLine_of_legalStorage hlegal)
    have htake (more : Bytes) : (block ++ more).take ((strtoull (tokens.getD 4 [])).1 % 2 ^ 32) =
        block.take ((strtoull (tokens.getD 4 [])).1 % 2 ^ 32) :=
      take_append_of_le_length (Nat.le_trans (Nat.mod_le _ _) (by omega))
    obtain ⟨key, hkey, call, hcall, hdone⟩ := @processStorageCommand_legal σ length end_ s
      (block ++ after) I tokens hshape hlegal (by omega) hshort
    obtain ⟨key', hkey', call', hcall', hdone'⟩ := @processStorageCommand_legal σ length' end_ s
      (block ++ after') I tokens hshape hlegal (by omega) hshort'
    obtain rfl := Option.some.inj (hkey.symm.trans hkey')
    rw [htake] at hcall hcall'
    obtain rfl := Option.some.inj (hcall.symm.trans hcall')
    rw [hdone, hdone']

theorem processCommand_own {I : Interface σ}
    (hblock : block.length = blockLength I s.asciiCommand tokens)
    (hlength : line.length - 1 + 1 + block.length ≤ length) (hshort : length < 2 ^ 63)
    (hlength' : line.length - 1 + 1 + block.length ≤ length') (hshort' : length' < 2 ^ 63)
    {after' : Bytes}
    (hstats : s.asciiCommand = .stats → statsKey (recoverTokenizeCommand line ++ (block ++ after)) (line.length - 1) = statsKey (recoverTokenizeCommand line ++ (block ++ after')) (line.length - 1)) :
    processCommand I tokens line (block ++ after) length s =
      processCommand I tokens line (block ++ after') length' s := by
  cases hshape : storageShape s.asciiCommand with
  | some shape =>
    obtain ⟨ntokens, callback⟩ := shape
    rw [processCommand_storage I hshape, processCommand_storage I hshape, checkedStorage, checkedStorage]
    split
    · rfl
    · rename_i hcount
      split
      · rename_i hpresent
        refine processStorageCommand_own I (by rw [hshape]; rfl) (fun hline => ?_) hlength hshort hlength'
          hshort' after after'
        rw [hblock, blockLength, readsData, hshape, hline]
        simp [Decidable.not_not.mp hcount, hpresent]
      · rfl
  | none =>
    cases hc : s.asciiCommand with
    | stats =>
      simp only [processCommand, hc, processStats_eq, hstats hc]
    | set | add | replace | cas | append | prepend =>
      rw [hc] at hshape
      cases hshape
    | _ => simp only [processCommand, hc]

section Own

variable {I : Interface σ} {c : TextCommand} (hc : c.Complete I)
include hc

theorem asciiRound_own (hin : c.Inside after) (hlength : c.bytes.length ≤ length) (hshort : length < 2 ^ 63)
    (s : Serving σ) :
    (asciiRound I (c.bytes ++ after) c.line.length length s).2.2 = (commandStep I s c).2 := by
  rw [commandStep]
  dsimp only
  rw [show asciiRound I c.bytes c.line.length c.bytes.length s =
    asciiRound I (c.bytes ++ []) c.line.length c.bytes.length s by rw [append_nil]]
  by_cases hreads : c.Reads
  · rw [TextCommand.asciiRound_reads hreads after hlength,
      TextCommand.asciiRound_reads hreads [] (Nat.le_refl _)]
    have hkeys := hin.keys hreads
    rw [TextCommand.keys, TextCommand.keys] at hkeys
    dsimp only
    rw [asciiProcessGets_eq, asciiProcessGets_eq, hkeys]
  · have hround := TextCommand.asciiRound_eq hc hreads after hlength s
    have hround' := TextCommand.asciiRound_eq hc hreads [] (Nat.le_refl _) s
    have hentering : (c.entering s).asciiCommand = c.command := setMute_asciiCommand
    have hblock := hc.block
    rw [if_neg hreads, ← hentering] at hblock
    have hline : (asciiTokenizeCommand c.line).2.length - 1 = c.line.length := by
      rw [asciiTokenizeCommand, length_tokenizeLoop, Nat.add_sub_cancel]
    have hbytes := c.length_bytes
    refine (Prod.mk.inj (hround.trans ((processCommand_own hblock (by omega) hshort (by omega)
      hc.short fun hstats => ?_).trans hround'.symm))).2
    rw [hline, recoverTokenizeCommand_eq, append_nil, append_assoc, append_assoc]
    exact hin.stats (hentering ▸ hstats)

theorem commandStep_ended (s : Serving σ) : (commandStep I s c).1 = terminates I c.command c.tokens := by
  have hprogress := asciiRound_progress hc [] (Nat.le_refl _) hc.short s
  rw [append_nil] at hprogress
  rw [commandStep, hprogress]
  cases terminates I c.command c.tokens <;> rfl

/-- A line that was put together again makes no difference. -/
theorem commandStep_recover (hreads : ¬c.Reads) (hzero : (0 : UInt8) ∉ c.line) (s : Serving σ) :
    commandStep I s c.recover = commandStep I s c := by
  have hc' := TextCommand.Complete.recover hzero hc
  have hreads' : ¬c.recover.Reads := fun h => hreads ((TextCommand.recover_reads hzero).mp h)
  have hround := TextCommand.asciiRound_eq hc hreads [] (Nat.le_refl _) s
  have hround' := TextCommand.asciiRound_eq hc' hreads' [] (Nat.le_refl _) s
  have hbytes : c.recover.bytes.length = c.bytes.length := by
    rw [TextCommand.length_bytes, TextCommand.length_bytes, TextCommand.recover, length_recoveredLine]
  have hentering : c.recover.entering s = c.entering s := by
    rw [TextCommand.entering, TextCommand.entering, TextCommand.recover_tokens hzero,
      TextCommand.recover_command hzero]
  have hline : (asciiTokenizeCommand c.recover.line).2 = (asciiTokenizeCommand c.line).2 :=
    congrArg Prod.snd (asciiTokenizeCommand_recoveredLine hzero)
  rw [TextCommand.recover_tokens hzero, hentering, hline, hbytes] at hround'
  have heq := hround'.trans hround.symm
  rw [append_nil, append_nil, Prod.mk.injEq] at heq
  refine Prod.ext ?_ ?_
  · rw [commandStep_ended hc', commandStep_ended hc, TextCommand.recover_tokens hzero,
      TextCommand.recover_command hzero]
  · rw [commandStep, commandStep, hbytes]
    exact heq.2

theorem commandStep_entering (hreads : ¬c.Reads) {t : Serving σ} (h : c.entering t = c.entering s) :
    commandStep I t c = commandStep I s c := by
  have hs := TextCommand.asciiRound_eq hc hreads [] (Nat.le_refl _) s
  have ht := TextCommand.asciiRound_eq hc hreads [] (Nat.le_refl _) t
  rw [h] at ht
  have heq := ht.trans hs.symm
  rw [append_nil, Prod.mk.injEq] at heq
  rw [commandStep, commandStep, heq.1]
  exact Prod.ext rfl heq.2

end Own

/-! ## The loop -/

/-- What is asked of a line in the buffer, where `data` is all of the input there and `junk` the memory
behind it: it has a token; if data is waited for, it has no zero bytes and is not too long; the round
does not read behind it; and if the data is not there, it is the first line in the buffer. -/
structure LineSound (I : Interface σ) (data junk line rest : Bytes) : Prop where
  tokens : ¬({ line } : TextCommand).Reads → ({ line } : TextCommand).tokens ≠ []
  zero : 0 < awaited I line → (0 : UInt8) ∉ line
  short : line.length + 1 + awaited I line < 2 ^ 63
  inside : ({ line } : TextCommand).Inside (rest ++ junk)
  first : rest.length < awaited I line → line ++ 10 :: rest = data

/-- Every line of the input that is the line of a command. -/
def Sound (I : Interface σ) (data junk : Bytes) : Prop :=
  ∀ line rest, (10 : UInt8) ∉ line → line ++ 10 :: rest ∈ (commandCutter I).suffixes data →
    LineSound I data junk line rest

instance (I : Interface σ) (data junk line rest : Bytes) : Decidable (LineSound I data junk line rest) :=
  decidable_of_iff ((¬({ line } : TextCommand).Reads → ({ line } : TextCommand).tokens ≠ []) ∧
      (0 < awaited I line → (0 : UInt8) ∉ line) ∧ line.length + 1 + awaited I line < 2 ^ 63 ∧
      ({ line } : TextCommand).Inside (rest ++ junk) ∧
      (rest.length < awaited I line → line ++ 10 :: rest = data))
    ⟨fun h => ⟨h.1, h.2.1, h.2.2.1, h.2.2.2.1, h.2.2.2.2⟩,
      fun h => ⟨h.tokens, h.zero, h.short, h.inside, h.first⟩⟩

/-- It is enough to look at the lines at the boundaries. -/
theorem sound_iff (I : Interface σ) (data junk : Bytes) :
    Sound I data junk ↔ ∀ suffix ∈ (commandCutter I).suffixes data, ∀ end_ ∈ suffix.idxOf? 10,
      LineSound I data junk (suffix.take end_) (suffix.drop (end_ + 1)) := by
  constructor
  · intro h suffix hsuffix end_ hend
    obtain ⟨line, rest, rfl, rfl, hline⟩ := idxOf?_eq_some hend
    rw [take_left, ← drop_drop, drop_left]
    exact h line rest hline hsuffix
  · intro h line rest hline hsuffix
    have hls := h _ hsuffix line.length (idxOf?_append_cons rest hline)
    rwa [take_left, ← drop_drop, drop_left] at hls

instance (I : Interface σ) (data junk : Bytes) : Decidable (Sound I data junk) :=
  decidable_of_iff _ (sound_iff I data junk).symm

/-- A connection, but for what the next storage command sets. -/
def observe (s : Serving σ) : Serving σ := { s with mute := false, asciiCommand := .get }

section Line

variable {I : Interface σ} {data junk line rest : Bytes} (hline : (10 : UInt8) ∉ line)

section

variable (h : 0 < awaited I line) (block : Bytes)
include h

theorem awaited_reads : ¬(⟨line, block⟩ : TextCommand).Reads :=
  fun hreads => by
    have hzero : awaited I line = 0 := if_pos hreads
    omega

theorem awaited_eq :
    let c : TextCommand := ⟨line, block⟩
    awaited I line = blockLength I c.command (dropNoreply c.tokens) := if_neg (awaited_reads h block)

/-- A storage command whose data is read has few tokens. -/
theorem tokens_lt_of_awaited : (⟨line, block⟩ : TextCommand).tokens.length < maxTokens := by
  have hblock : awaited I line = _ := awaited_eq h block
  have hdrop := length_dropNoreply (⟨line, block⟩ : TextCommand).tokens
  obtain ⟨-, -, callback, hshape, -⟩ := blockLength_pos (hblock ▸ h)
  have hsix : (dropNoreply (⟨line, block⟩ : TextCommand).tokens).length ≤ 6 := by
    revert hshape
    generalize (dropNoreply (⟨line, block⟩ : TextCommand).tokens).length = ntokens
    cases (⟨line, block⟩ : TextCommand).command <;> intro hshape <;> cases hshape <;> decide
  rw [maxTokens]
  omega

end

include hline in
theorem LineSound.complete (h : LineSound I data junk line rest) (hblock : block.length = awaited I line) :
    (⟨line, block⟩ : TextCommand).Complete I where
  line := hline
  tokens := h.tokens
  block := hblock
  short := by
    rw [TextCommand.length_bytes, hblock]
    exact h.short

theorem LineSound.inside_block (h : LineSound I data junk line rest) :
    (⟨line, rest.take (awaited I line)⟩ : TextCommand).Inside (rest.drop (awaited I line) ++ junk) := by
  by_cases hpos : 0 < awaited I line
  · refine ⟨fun hreads => absurd hreads (awaited_reads hpos _), fun hstats => ?_⟩
    have hblock : awaited I line = _ := awaited_eq hpos (rest.take (awaited I line))
    rw [hstats, blockLength] at hblock
    exact absurd hblock (Nat.ne_of_gt hpos)
  · have hzero : awaited I line = 0 := by omega
    rw [hzero]
    exact h.inside

include hline in
theorem LineSound.cut (h : LineSound I data junk line rest) (hle : awaited I line ≤ rest.length) :
    ∃ c, cutLine I line rest = some (c, rest.drop (awaited I line)) ∧
      ∀ s, commandStep I s c = commandStep I s ⟨line, rest.take (awaited I line)⟩ := by
  by_cases hpos : 0 < awaited I line
  · refine ⟨_, by rw [cutLine, if_neg (by omega), if_pos hle], fun s => ?_⟩
    exact commandStep_recover (h.complete hline (length_take_of_le hle)) (awaited_reads hpos _)
      (h.zero hpos) s
  · have hzero : awaited I line = 0 := by omega
    refine ⟨_, by rw [cutLine, if_pos hzero, hzero]; rfl, fun s => ?_⟩
    rw [hzero]
    rfl

theorem cutLine_none (hlt : rest.length < awaited I line) : cutLine I line rest = none := by
  rw [cutLine, if_neg (by omega), if_neg (by omega)]

theorem LineSound.more (h : LineSound I data junk line rest) (hlt : rest.length < awaited I line)
    (after : Bytes) (s : Serving σ) :
    asciiRound I (line ++ 10 :: after) line.length (line.length + 1 + rest.length) s =
      (.more, recoveredLine line ++ [10], ({ line } : TextCommand).entering s) := by
  have hpos : 0 < awaited I line := by omega
  have hreads := @awaited_reads σ I line hpos []
  have hblock : awaited I line = _ := awaited_eq hpos []
  obtain ⟨hlegal, hlength, callback, hshape, hpresent⟩ := blockLength_pos (hblock ▸ hpos)
  have htake : (line ++ 10 :: after).take (line.length + 1 + rest.length) =
      line ++ 10 :: after.take rest.length := by
    rw [Nat.add_assoc, take_length_add_append, Nat.add_comm 1, take_succ_cons]
  have hcmd : asciiToCmd ((line ++ 10 :: after).take (line.length + 1 + rest.length)) =
      ({ line } : TextCommand).command := by
    rw [htake, asciiToCmd_line]
    rfl
  have hafter : (line ++ 10 :: after).drop (line.length + 1) = after := by
    rw [← drop_drop, drop_left]
    rfl
  have hline' : (asciiTokenizeCommand line).2.length - 1 = line.length := by
    rw [asciiTokenizeCommand, length_tokenizeLoop, Nat.add_sub_cancel]
  have hentering : (({ line } : TextCommand).entering s).asciiCommand = ({ line } : TextCommand).command :=
    setMute_asciiCommand
  have hshort := h.short
  have hprocess : processCommand I (dropNoreply ({ line } : TextCommand).tokens)
      (asciiTokenizeCommand line).2 after (line.length + 1 + rest.length)
      (({ line } : TextCommand).entering s) = (.more, ({ line } : TextCommand).entering s) := by
    rw [processCommand_storage I (hentering ▸ hshape), checkedStorage, if_neg (not_not_intro rfl),
      if_pos hpresent, hline']
    exact processStorageCommand_more I hlegal (by omega) (by omega)
  have hget : ¬(({ line } : TextCommand).command = .get ∨ ({ line } : TextCommand).command = .gets) := hreads
  have htokens : (asciiTokenizeCommand line).1 ≠ [] := h.tokens hreads
  simp only [TextCommand.tokens, TextCommand.entering] at hprocess
  simp only [asciiRound, hcmd, take_left, hafter, if_neg hget, if_neg htokens, hprocess,
    recoverTokenizeCommand_eq, TextCommand.entering, TextCommand.tokens, true_or, if_true]

include hline in
/-- What is kept of a command that waits goes on like the command. -/
theorem LineSound.alike (h : LineSound I data junk line rest) (hlt : rest.length < awaited I line)
    (s : Serving σ) : (commandCutter I).Alike (commandStep I) observe
      ⟨false, recoveredLine line ++ 10 :: rest, ({ line } : TextCommand).entering s⟩
      ⟨false, line ++ 10 :: rest, s⟩ := by
  have hpos : 0 < awaited I line := by omega
  have hzero := h.zero hpos
  have hnot : (10 : UInt8) ∉ recoveredLine line :=
    not_mem_of_blanked (recovers_of_not_zero hzero _ _).2 (by decide) hline
  have hawaited : awaited I (recoveredLine line) = awaited I line := by
    let c : TextCommand := { line }
    change (if c.recover.Reads then 0
      else blockLength I c.recover.command (dropNoreply c.recover.tokens)) = _
    simp only [TextCommand.recover_reads (c := c) hzero, TextCommand.recover_command (c := c) hzero,
      TextCommand.recover_tokens (c := c) hzero]
    rfl
  have hne : awaited I line ≠ 0 := by omega
  refine ⟨rfl, ?_, fun _ more => ?_, fun _ more c after hnext => ?_⟩
  · change observe (setMute _ _) = _
    rw [setMute]
    split <;> rfl
  · change nextCommand I _ = nextCommand I _
    rw [append_assoc, append_assoc, cons_append, nextCommand_line I hnot,
      nextCommand_line I hline, cutLine, cutLine, hawaited, if_neg hne, if_neg hne, TextCommand.recover,
      TextCommand.recover]
    dsimp only
    rw [recoveredLine_recoveredLine hzero]
  · change nextCommand I _ = _ at hnext
    rw [append_assoc, cons_append, nextCommand_line I hline, cutLine, if_neg hne] at hnext
    split at hnext
    · rename_i hle
      obtain ⟨rfl, -⟩ := Prod.mk.inj (Option.some.inj hnext)
      have hcomplete := h.complete hline (length_take_of_le hle)
      have hreads := @awaited_reads σ I line hpos ((rest ++ more).take (awaited I line))
      rw [commandStep_recover hcomplete hreads hzero, commandStep_recover hcomplete hreads hzero]
      refine commandStep_entering hcomplete hreads ?_
      have hentering (t : Serving σ) : ({ line } : TextCommand).entering t =
          { t with asciiCommand := ({ line } : TextCommand).command
                   mute := hasNoreply ({ line } : TextCommand).tokens } := by
        rw [TextCommand.entering, setMute, if_pos (tokens_lt_of_awaited hpos [])]
      change ({ line } : TextCommand).entering _ = ({ line } : TextCommand).entering _
      rw [hentering, hentering]
    · cases hnext

end Line

/-- What `memcached_protocol_client_work` keeps. -/
def Worked.kept (w : Worked σ) (wild : Nat → UInt8) : Bytes :=
  if w.length = 0 then [] else w.leftover wild

/-- What the loop makes of the input. -/
structure LoopKeeps (I : Interface σ) (wild : Nat → UInt8) (w : Worked σ)
    (consumed : Consumed UInt8 (Serving σ)) : Prop where
  event : w.event = if consumed.ended then .error else .read
  alike : (commandCutter I).Alike (commandStep I) observe ⟨consumed.ended, w.kept wild, w.serving⟩ consumed

/-- The loop takes the commands that are there, and keeps the rest. -/
theorem asciiLoop_consume {all junk : Bytes} (wild : Nat → UInt8) {fuel : Nat} (front data : Bytes)
    (s : Serving σ) (hfuel : data.length < fuel)
    (hfront : front = [] ∧ data = all ∨ data.length < all.length) (hshort : data.length < 2 ^ 63)
    (hsound : ∀ line rest, (10 : UInt8) ∉ line → line ++ 10 :: rest ∈ (commandCutter I).suffixes data → LineSound I all junk line rest) :
    LoopKeeps I wild (asciiLoop I fuel front (data ++ junk) data.length s)
      ((commandCutter I).consume (commandStep I) data s) := by
  induction fuel generalizing front data s with
  | zero => exact absurd hfuel (Nat.not_lt_zero _)
  | succ fuel ih =>
    rcases data_cases data with hnot | ⟨line, rest, rfl, hline⟩
    · have hnone : (commandCutter I).next data = none := nextCommand_of_not_mem I hnot
      have hidx : ((data ++ junk).take data.length).idxOf? 10 = none := by
        rw [take_left]
        exact List.idxOf?_eq_none_iff.mpr hnot
      have hkept : (⟨.read, front ++ (data ++ junk), data.length, some front.length, s⟩ :
          Worked σ).kept wild = data := by
        rw [Worked.kept, Worked.leftover]
        dsimp only
        rw [slice_middle]
        split
        · rename_i hzero
          exact (length_eq_zero_iff.mp hzero).symm
        · rfl
      rw [asciiLoop, hidx, Cutter.consume_of_none s hnone]
      exact ⟨rfl, by rw [hkept]; exact .refl observe _⟩
    · have hls := hsound line rest hline (Cutter.mem_suffixes_self _)
      by_cases hle : awaited I line ≤ rest.length
      · -- The command is there.
        obtain ⟨u, hcut, hstep⟩ := hls.cut hline hle
        let c : TextCommand := ⟨line, rest.take (awaited I line)⟩
        have hc : c.Complete I := hls.complete hline (length_take_of_le hle)
        have hbytes : line ++ 10 :: rest = c.bytes ++ rest.drop (awaited I line) := by
          rw [c.bytes_append, take_append_drop]
        have hnext : (commandCutter I).next (line ++ 10 :: rest) = some (u, rest.drop (awaited I line)) :=
          (nextCommand_line I hline rest).trans hcut
        have hlength : c.bytes.length ≤ (line ++ 10 :: rest).length := by
          rw [hbytes, length_append]
          omega
        have hin : c.Inside (rest.drop (awaited I line) ++ junk) := hls.inside_block
        have hround := asciiRound_own hc hin hlength hshort s
        rw [Cutter.consume_of_some s hnext, hstep s, commandStep_ended hc]
        have hmem : line ++ 10 :: rest ++ junk = c.bytes ++ (rest.drop (awaited I line) ++ junk) := by
          rw [hbytes, append_assoc]
        rw [hmem]
        cases hends : terminates I c.command c.tokens with
        | true =>
          obtain ⟨hevent, hserving⟩ := asciiLoop_ended hc hends (rest.drop (awaited I line) ++ junk)
            hlength hshort fuel front s
          rw [if_pos rfl]
          refine ⟨hevent, rfl, ?_, by simp, by simp⟩
          rw [hserving, hround]
        | false =>
          obtain ⟨front', hloop⟩ := asciiLoop_step hc hends (rest.drop (awaited I line) ++ junk)
            hlength hshort fuel front s
          have hrest : (line ++ 10 :: rest).length - c.bytes.length =
              (rest.drop (awaited I line)).length := by
            rw [hbytes, length_append, Nat.add_sub_cancel_left]
          rw [if_neg Bool.false_ne_true, hloop, hrest, hround]
          by_cases hnil : (rest.drop (awaited I line)).length = 0
          · rw [if_pos hnil, length_eq_zero_iff.mp hnil,
              Cutter.consume_of_none _ (nextCommand_of_not_mem I not_mem_nil)]
            exact ⟨rfl, .refl observe _⟩
          · rw [if_neg hnil]
            have hlt : (rest.drop (awaited I line)).length < (line ++ 10 :: rest).length := by
              have := c.length_bytes
              rw [hbytes, length_append]
              omega
            refine ih front' _ _ (by omega) (.inr ?_) (by omega) fun line' rest' hline' hmem' =>
              hsound line' rest' hline' ?_
            · rcases hfront with ⟨-, rfl⟩ | h
              · exact hlt
              · omega
            · rw [Cutter.suffixes_of_some hnext]
              exact mem_cons_of_mem _ hmem'
      · -- The data is waited for.
        have hwait : rest.length < awaited I line := Nat.not_le.mp hle
        have hall := hls.first hwait
        have hnone : (commandCutter I).next (line ++ 10 :: rest) = none :=
          (nextCommand_line I hline rest).trans (cutLine_none hwait)
        obtain ⟨rfl, -⟩ := hfront.resolve_right (by rw [hall]; exact Nat.lt_irrefl _)
        have hidx : ((line ++ 10 :: rest ++ junk).take (line ++ 10 :: rest).length).idxOf? 10 =
            some line.length := by
          rw [take_left]
          exact idxOf?_append_cons rest hline
        have hround := hls.more hwait (rest ++ junk) s
        have hlength : (line ++ 10 :: rest).length = line.length + 1 + rest.length := by
          rw [length_append, length_cons]
          omega
        have hmem : line ++ 10 :: rest ++ junk = line ++ 10 :: (rest ++ junk) := by
          rw [append_assoc, cons_append]
        rw [← hlength, ← hmem] at hround
        have hafter : (line ++ 10 :: rest ++ junk).drop (line.length + 1) = rest ++ junk := by
          rw [hmem, ← drop_drop, drop_left]
          rfl
        have hkept : (⟨.read, recoveredLine line ++ [10] ++ (rest ++ junk), (line ++ 10 :: rest).length,
            some 0, ({ line } : TextCommand).entering s⟩ : Worked σ).kept wild =
              recoveredLine line ++ 10 :: rest := by
          rw [Worked.kept, Worked.leftover, if_neg (by dsimp only; omega)]
          dsimp only
          rw [slice, drop_zero, append_assoc, singleton_append, ← cons_append, ← append_assoc]
          exact take_left' (by rw [length_append, length_append, length_recoveredLine])
        have hloop : asciiLoop I (fuel + 1) [] (line ++ 10 :: rest ++ junk) (line ++ 10 :: rest).length s =
            ⟨.read, recoveredLine line ++ [10] ++ (rest ++ junk), (line ++ 10 :: rest).length, some 0,
              ({ line } : TextCommand).entering s⟩ := by
          simp only [asciiLoop, hidx, hround, hafter, nil_append]
        rw [Cutter.consume_of_none s hnone, hloop]
        exact ⟨rfl, by rw [hkept]; exact hls.alike hline hwait s⟩

/-! ## Independence of the cuts -/

/-- A `recv` whose lines are sound, as long as the connection is not ended. -/
def Recv.Sound (I : Interface σ) (state : Event × ServerClient σ) (recv : Recv) : Prop :=
  state.1 = .read →
    (state.2.inputBuffer ++ recv.data).length < 2 ^ 63 ∧
      LM.Sound I (state.2.inputBuffer ++ recv.data)
        (recv.stale.drop (state.2.inputBuffer ++ recv.data).length)

/-- A connection as a consumer of the stream. -/
def consumer (state : Event × ServerClient σ) : Consumed UInt8 (Serving σ) :=
  ⟨state.1 ≠ .read, state.2.inputBuffer, state.2.serving⟩

/-- A connection that uses the text protocol, and has not lost its way. -/
def Textual (state : Event × ServerClient σ) : Prop :=
  state.2.work = some .ascii ∧ (state.1 = .read ∨ state.1 = .error)

section Cuts

variable {I : Interface σ} {service : Service σ} (hservice : service.callbacks = .v1 I)
include hservice

/-- What the library makes of a `recv`. -/
theorem receive_alike (hwork : c.work = some .ascii) (hsound : recv.Sound I (.read, c)) :
    Textual (receive service recv c) ∧
      (commandCutter I).Alike (commandStep I) observe (consumer (receive service recv c))
        ((commandCutter I).consume (commandStep I) (c.inputBuffer ++ recv.data) c.serving) := by
  obtain ⟨hshort, hlines⟩ := hsound rfl
  have hlen : recv.data.length + c.inputBuffer.length = (c.inputBuffer ++ recv.data).length := by
    rw [length_append, Nat.add_comm]
  have hbuffer : filledBuffer c.inputBuffer recv = c.inputBuffer ++ recv.data ++
      recv.stale.drop (c.inputBuffer ++ recv.data).length := by
    rw [filledBuffer, length_append]
  have hcall : callWork service c (filledBuffer c.inputBuffer recv) (c.inputBuffer ++ recv.data).length =
      (some .ascii, asciiProcessData I (filledBuffer c.inputBuffer recv)
        (c.inputBuffer ++ recv.data).length c.serving) := by
    rw [callWork, hwork, hservice]
  have hkeeps := asciiLoop_consume recv.wild [] (c.inputBuffer ++ recv.data) c.serving
    (Nat.lt_succ_self _) (.inl ⟨rfl, rfl⟩) hshort hlines
  rw [← hbuffer] at hkeeps
  rw [receive, hlen, hcall, asciiProcessData]
  generalize asciiLoop I _ _ _ _ _ = w at hkeeps
  generalize (commandCutter I).consume (commandStep I) (c.inputBuffer ++ recv.data) c.serving =
    consumed at hkeeps
  obtain ⟨hevent, halike⟩ := hkeeps
  cases hends : consumed.ended with
  | true =>
    rw [hends, if_pos rfl] at hevent
    simp only [hevent]
    exact ⟨⟨rfl, .inr rfl⟩, hends.symm, halike.observed, by rintro ⟨⟩, by rintro ⟨⟩⟩
  | false =>
    rw [hends, if_neg Bool.false_ne_true] at hevent
    simp only [hevent]
    exact ⟨⟨rfl, .inl rfl⟩, hends.symm, halike.observed, fun _ => halike.same hends,
      fun _ => halike.next hends⟩

/-- The run over the results of `recv` is the execution of the stream they make up. -/
theorem receiveNext_alike (hwork : c.work = some .ascii)
    (hg : Guarded (receiveNext service) (Recv.Sound I) (.read, c) recvs)
    (hkept : nextCommand I c.inputBuffer = none) :
    let final := runFrom (receiveNext service) (.read, c) recvs
    Textual final ∧ (commandCutter I).Alike (commandStep I) observe (consumer final)
      ((commandCutter I).consume (commandStep I) (c.inputBuffer ++ (recvs.map (·.data)).flatten)
        c.serving) := by
  have hstep (state : Event × ServerClient σ) (t : Consumed UInt8 (Serving σ)) (recv : Recv)
      (h : Textual state ∧ (commandCutter I).Alike (commandStep I) observe (consumer state) t)
      (hs : recv.Sound I state) : Textual (receiveNext service state recv) ∧
        (commandCutter I).Alike (commandStep I) observe (consumer (receiveNext service state recv))
          ((commandCutter I).feed (commandStep I) t recv.data) := by
    obtain ⟨event, c⟩ := state
    obtain ⟨⟨hwork, hevent⟩, halike⟩ := h
    rcases hevent with rfl | rfl
    · obtain ⟨htextual, hrecv⟩ := receive_alike hservice hwork hs
      exact ⟨htextual, hrecv.trans (halike.feed recv.data)⟩
    · have ht : t.ended = true := halike.ended.symm
      rw [Cutter.feed, if_pos ht]
      exact ⟨⟨hwork, .inr rfl⟩, halike⟩
  have hsim := Guarded.simulation hstep hg ⟨⟨hwork, .inl rfl⟩, .refl observe _⟩
  have hfeed : runFrom (fun t (recv : Recv) => (commandCutter I).feed (commandStep I) t recv.data)
      (consumer (.read, c)) recvs = (commandCutter I).consume (commandStep I)
        (c.inputBuffer ++ (recvs.map (·.data)).flatten) c.serving := by
    rw [runFrom, ← foldl_map]
    exact Cutter.feed_flatten (consumer (.read, c)) fun _ => hkept
  rwa [hfeed] at hsim

/-- The first byte selects the text protocol. -/
theorem receive_determined (hwork : c.work = none) (hdata : c.inputBuffer ++ recv.data = b :: data)
    (hb : b ≠ binaryReq) :
    receive service recv c = receive service recv { c with work := some .ascii } := by
  have hfirst : (filledBuffer c.inputBuffer recv).getD 0 0 ≠ binaryReq := by
    rw [filledBuffer, hdata]
    exact hb
  rw [receive, receive, callWork, callWork, hwork, determineProtocol, if_neg hfirst, hservice]

theorem receiveNext_new (app : σ) {stream : Bytes} (hhead : stream.head? ≠ some binaryReq)
    (hne : ∀ recv ∈ recvs, recv.data ≠ []) (hcut : (recvs.map (·.data)).flatten = stream)
    (hg : Guarded (receiveNext service) (Recv.Sound I) (.read, { serving := { app := app } }) recvs) :
    let final := runFrom (receiveNext service) (.read, { serving := { app := app } }) recvs
    (final.1 = .read ∨ final.1 = .error) ∧ (commandCutter I).Alike (commandStep I) observe
      (consumer final) ((commandCutter I).consume (commandStep I) stream { app := app }) := by
  cases recvs with
  | nil =>
    subst hcut
    exact ⟨.inl rfl, .refl observe _⟩
  | cons recv recvs =>
    let c : ServerClient σ := { serving := { app := app } }
    obtain ⟨b, data, hdata⟩ := exists_cons_of_ne_nil (hne recv mem_cons_self)
    have hb : b ≠ binaryReq := by
      rintro rfl
      rw [map_cons, flatten_cons, hdata] at hcut
      exact hhead (by rw [← hcut]; rfl)
    have hrecv := receive_determined hservice (c := c) rfl hdata hb
    have hrest : Guarded (receiveNext service) (Recv.Sound I) (receive service recv c) recvs := hg.2
    rw [hrecv] at hrest
    have hg' : Guarded (receiveNext service) (Recv.Sound I) (.read, { c with work := some .ascii })
        (recv :: recvs) := ⟨hg.1, hrest⟩
    obtain ⟨htextual, halike⟩ := receiveNext_alike hservice rfl hg' (nextCommand_of_not_mem I not_mem_nil)
    rw [hcut] at halike
    have hrun : runFrom (receiveNext service) (.read, c) (recv :: recvs) =
        runFrom (receiveNext service) (.read, { c with work := some .ascii }) (recv :: recvs) :=
      congrArg (runFrom (receiveNext service) · recvs) hrecv
    rw [hrun]
    exact ⟨htextual.2, halike⟩

/-- Two ways to cut a stream of text commands into results of `recv`, in which every line is sound:
the same callbacks are called with the same arguments, the same is spooled, the application is left in
the same state, and the connection ends in one case if it does in the other. -/
theorem text_independent_of_cuts (app : σ) (stream : Bytes) (hhead : stream.head? ≠ some binaryReq)
    (recvs recvs' : List Recv)
    (hne : ∀ recv ∈ recvs, recv.data ≠ []) (hne' : ∀ recv ∈ recvs', recv.data ≠ [])
    (hcut : (recvs.map (·.data)).flatten = stream) (hcut' : (recvs'.map (·.data)).flatten = stream)
    (hg : Guarded (receiveNext service) (Recv.Sound I) (.read, { serving := { app := app } }) recvs)
    (hg' : Guarded (receiveNext service) (Recv.Sound I) (.read, { serving := { app := app } }) recvs') :
    let final := serve service (recvs.map .data) { serving := { app := app } }
    let final' := serve service (recvs'.map .data) { serving := { app := app } }
    final.1 = final'.1 ∧ final.2.serving.calls = final'.2.serving.calls ∧
      final.2.serving.spooled = final'.2.serving.spooled ∧ final.2.serving.app = final'.2.serving.app := by
  simp only [serve_data]
  obtain ⟨hevent, halike⟩ := receiveNext_new hservice app hhead hne hcut hg
  obtain ⟨hevent', halike'⟩ := receiveNext_new hservice app hhead hne' hcut' hg'
  have hended := halike.ended.trans halike'.ended.symm
  have hobserved := halike.observed.trans halike'.observed.symm
  have hcalls := congrArg Serving.calls hobserved
  have hspooled := congrArg Serving.spooled hobserved
  have happ := congrArg Serving.app hobserved
  refine ⟨?_, hcalls, hspooled, happ⟩
  rw [consumer, consumer, decide_eq_decide] at hended
  rcases hevent with h | h <;> rcases hevent' with h' | h' <;> rw [h, h'] at hended ⊢ <;> simp at hended

end Cuts

/-- The callbacks and the bytes of a run on a new connection. The buffer holds zeros. -/
def textRunOn (cuts : List String) : List Invocation × Bytes :=
  let recvs := cuts.map fun data => ⟨ascii data, List.replicate 100 0, fun _ => 0⟩
  let final := serve ⟨.v1 echo, none⟩ (recvs.map .data) { serving := { app := () } }
  (final.2.serving.calls, final.2.serving.spooled)

/-- A storage command and another one, at once and with a cut in the data. -/
theorem text_independent_of_cuts_set :
    textRunOn ["set k 0 0 3\r\nabc\r\ndelete k\r\n"] =
      textRunOn ["set k 0 0 3\r\na", "bc\r\ndelete k\r\n"] := by
  have h := @text_independent_of_cuts Unit echo ⟨.v1 echo, none⟩ rfl ()
    (ascii "set k 0 0 3\r\nabc\r\ndelete k\r\n") (by decide +kernel)
    [⟨ascii "set k 0 0 3\r\nabc\r\ndelete k\r\n", List.replicate 100 0, fun _ => 0⟩]
    [⟨ascii "set k 0 0 3\r\na", List.replicate 100 0, fun _ => 0⟩,
      ⟨ascii "bc\r\ndelete k\r\n", List.replicate 100 0, fun _ => 0⟩]
    (by decide +kernel) (by decide +kernel) (by decide +kernel) (by decide +kernel)
    ⟨fun _ => by decide +kernel, trivial⟩
    ⟨fun _ => by decide +kernel, fun _ => by decide +kernel, trivial⟩
  obtain ⟨-, hcalls, hspooled, -⟩ := h
  exact Prod.ext hcalls hspooled

/-- Where the cuts matter. A storage command that waits for its data behind another command is lost:
what is kept are bytes from the beginning of the buffer. A `get` that is followed by a command takes
its first word for a key. A zero in the line of a storage command is a blank once the line was put
together again, and then there is a token too many. -/
theorem cuts_change_text_requests :
    ((textRunOn ["delete a\r\nset k 0 0 3\r\nabc\r\n"]).1 =
          [.deleteObject (ascii "a") 0, .set (ascii "k") (ascii "abc") 0 0 0] ∧
        (textRunOn ["delete a\r\nset k 0 0 3\r\n", "abc\r\n"]).1 = [.deleteObject (ascii "a") 0]) ∧
      ((textRunOn ["get k\r\ndelete d\r\n"]).1 =
          [.get (ascii "k"), .get (ascii "delete"), .deleteObject (ascii "d") 0] ∧
        (textRunOn ["get k\r\n", "delete d\r\n"]).1 = [.get (ascii "k"), .deleteObject (ascii "d") 0]) ∧
      ((textRunOn ["set k\x00x 0 0 3\r\nabc\r\n"]).1 = [.set (ascii "k") (ascii "abc") 0 0 0] ∧
        (textRunOn ["set k\x00x 0 0 3\r\n", "abc\r\n"]).1 = []) := by
  refine ⟨⟨?_, ?_⟩, ⟨?_, ?_⟩, ?_, ?_⟩ <;> decide +kernel

end LM
