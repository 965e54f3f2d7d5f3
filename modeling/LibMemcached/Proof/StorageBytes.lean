import LibMemcached.Impl.AsciiStorage
import LibMemcached.Proof.TextCommands

/-!
# Text storage commands and their data

Where `process_storage_command` finds a storage command complete, in its own arithmetic. The number
of bytes needed is compared as a signed number, so that a count from about 2^63 on counts as
received, and the callback is told the count modulo 2^32. For all smaller counts it is called on
exactly the data (`storage_runs_on_its_data_iff`), and the line does what the model of the rest of
the input takes it to do (`processStorageCommand_eq_storageStep`).
-/

namespace LM

open List

variable {σ : Type} {n : Nat} {command : AsciiCmd}

/-! ## The number of bytes needed -/

theorem ssizeT_eq (h : n < 2 ^ 64) : ssizeT n = if n < 2 ^ 63 then (n : Int) else n - 2 ^ 64 := by
  unfold ssizeT Int.bmod
  have hmod : (n : Int) % (2 ^ 64 : Nat) = n := Int.emod_eq_of_lt (by omega) (by omega)
  simp only [hmod]
  split <;> split <;> omega

/-- When a command of `n` bytes waits: when its data is not there, if the sum is a positive number;
and, since the sum wraps around to just the line and one byte, when `n` is the largest number of all
and nothing has come behind the line. -/
theorem waits_iff {end_ length : Nat} (hn : n < 2 ^ 64) (hline : end_ + 1 ≤ length)
    (hlength : length < 2 ^ 63) : ssizeT ((n + (end_ + 1) + 2) % 2 ^ 64) > length ↔
      n + end_ + 3 < 2 ^ 63 ∧ length < n + end_ + 3 ∨
        n = 2 ^ 64 - 1 ∧ length = end_ + 1 ∧ end_ + 2 < 2 ^ 63 := by
  rw [ssizeT_eq (Nat.mod_lt _ (by decide))]
  split <;> omega

/-! ## The command -/

/-- What a storage command of `n` bytes should do that finds `received` bytes behind its line: wait
only if the data or its terminator is not there, and call the callback only if they are, with exactly
these bytes, going on behind the terminator. -/
def StorageStep.Exact (n received : Nat) : StorageStep → Prop
  | .ended => True
  | .more => received < n + 2
  | .called arguments next => n + 2 ≤ received ∧ arguments.datalen = n ∧ next = n + 2

theorem storageStep_illegal {tokens : List Bytes} (end_ length : Nat) (h : legalLine tokens = false) :
    storageStep command tokens end_ length = .ended := by
  unfold storageStep
  split
  · rename_i hkey hflags htimeout hbytes
    rw [legalLine, hkey, hflags, htimeout, hbytes] at h
    cases h
  · rfl

theorem storageStep_legal (command : AsciiCmd) {tokens : List Bytes} (end_ length : Nat)
    (h : legalLine tokens = true) :
    ∃ key, tokenKey (tokens.getD 1 []) = some key ∧
      storageStep command tokens end_ length =
        if ssizeT (((strtoull (tokens.getD 4 [])).1 + (end_ + 1) + 2) % 2 ^ 64) > length then .more
        else
          match storageCas command tokens with
          | none => .ended
          | some cas =>
            .called ⟨key, (strtoull (tokens.getD 4 [])).1 % 2 ^ 32,
              (strtoull (tokens.getD 2 [])).1 % 2 ^ 32, (strtoull (tokens.getD 3 [])).1 % 2 ^ 32, cas⟩
              (((strtoull (tokens.getD 4 [])).1 + 2) % 2 ^ 64) := by
  simp only [legalLine, Bool.and_eq_true, Bool.not_eq_true'] at h
  obtain ⟨⟨⟨hkey, hflags⟩, htimeout⟩, hbytes⟩ := h
  obtain ⟨key, hkey⟩ := Option.isSome_iff_exists.mp hkey
  refine ⟨key, hkey, ?_⟩
  unfold storageStep
  rw [hkey]
  generalize strtoull (tokens.getD 2 []) = flags, strtoull (tokens.getD 3 []) = timeout,
    strtoull (tokens.getD 4 []) = nbytes at *
  obtain ⟨flags, u2, r2⟩ := flags
  obtain ⟨timeout, u3, r3⟩ := timeout
  obtain ⟨nbytes, u4, r4⟩ := nbytes
  cases hflags
  cases htimeout
  cases hbytes
  rfl

theorem storageCas_eq_none_iff {tokens : List Bytes} (hline : legalLine tokens = true) :
    storageCas command tokens = none ↔ legalStorage command tokens = false := by
  unfold storageCas legalStorage
  rw [hline]
  split
  · rename_i hcas
    rcases strtoull (tokens.getD 5 []) with ⟨cas, used, range⟩
    cases range <;> simp [hcas]
  · rename_i hcas
    simp [hcas]

/-- The command by its tokens, the length of its line and the number of bytes behind it. -/
theorem storageStep_exact_iff (command : AsciiCmd) {tokens : List Bytes} {end_ received : Nat}
    (hcount : (strtoull (tokens.getD 4 [])).1 = n) (hshort : end_ + 1 + received < 2 ^ 63) :
    (storageStep command tokens end_ (end_ + 1 + received)).Exact n received ↔
      legalStorage command tokens = false ∨ n + end_ + 3 < 2 ^ 63 ∧ (n + 2 ≤ received → n < 2 ^ 32) ∨
        n = 2 ^ 64 - 1 ∧ received = 0 ∧ end_ + 2 < 2 ^ 63 := by
  have hn : n < 2 ^ 64 := hcount ▸ strtoull_lt
  have hwaits := waits_iff hn (show end_ + 1 ≤ end_ + 1 + received by omega) hshort
  cases hline : legalLine tokens with
  | false =>
    rw [storageStep_illegal _ _ hline]
    exact iff_of_true trivial (.inl (by rw [legalStorage, hline]; rfl))
  | true =>
    obtain ⟨key, -, hstep⟩ := storageStep_legal command end_ (end_ + 1 + received) hline
    rw [hstep, hcount]
    by_cases hwait : ssizeT ((n + (end_ + 1) + 2) % 2 ^ 64) > ↑(end_ + 1 + received)
    · rw [if_pos hwait]
      rw [hwaits] at hwait
      simp only [StorageStep.Exact]
      omega
    · rw [if_neg hwait]
      rw [hwaits] at hwait
      cases hcas : storageCas command tokens with
      | none => exact iff_of_true trivial (.inl ((storageCas_eq_none_iff hline).mp hcas))
      | some cas =>
        have hlegal : legalStorage command tokens = true := by
          rw [← Bool.not_eq_false, ← storageCas_eq_none_iff hline, hcas]
          simp
        simp only [StorageStep.Exact, hlegal, Bool.true_eq_false, false_or]
        omega

/-! ## In the input -/

def StorageStep.progress : StorageStep → Progress
  | .ended => .ended
  | .more => .more
  | .called _ next => .done next

/-- The callback of a storage command with its arguments; the data is taken from the memory behind
the line. -/
def StorageArguments.invocation (a : StorageArguments) (command : AsciiCmd) (after : Bytes) :
    List Invocation :=
  match command with
  | .set => [.set a.key (after.take a.datalen) a.flags a.timeout a.cas]
  | .add => [.add a.key (after.take a.datalen) a.flags a.timeout]
  | .cas | .replace => [.replace a.key (after.take a.datalen) a.flags a.timeout a.cas]
  | .append => [.append a.key (after.take a.datalen) a.cas]
  | .prepend => [.prepend a.key (after.take a.datalen) a.cas]
  | _ => []

def StorageStep.calls (command : AsciiCmd) (after : Bytes) : StorageStep → List Invocation
  | .called arguments _ => arguments.invocation command after
  | _ => []

theorem storageCall_toList (hshape : (storageShape command).isSome) {tokens : List Bytes} (after : Bytes)
    (a : StorageArguments) (hcas : storageCas command tokens = some a.cas) :
    ∃ call, storageCall command tokens a.key (after.take a.datalen) a.flags a.timeout = some call ∧
      a.invocation command after = [call] := by
  unfold storageCas at hcas
  by_cases h : command = .cas
  · subst h
    rw [if_pos rfl] at hcas
    unfold storageCall StorageArguments.invocation
    generalize strtoull (tokens.getD 5 []) = read at hcas ⊢
    obtain ⟨cas, used, range⟩ := read
    cases range
    · obtain rfl : cas = a.cas := Option.some.inj hcas
      exact ⟨_, rfl, rfl⟩
    · cases hcas
  · rw [if_neg h] at hcas
    have hzero := Option.some.inj hcas
    cases command <;> first
      | exact absurd hshape (by decide)
      | exact absurd rfl h
      | exact ⟨_, rfl, by rw [StorageArguments.invocation, ← hzero]⟩
      | exact ⟨_, rfl, rfl⟩

/-- As long as the sum is a positive number, the storage command does in machine arithmetic what it
does in the model of the input. -/
theorem processStorageCommand_eq_storageStep (I : Interface σ) {tokens : List Bytes} {after : Bytes}
    {end_ length : Nat} {s : Serving σ} (hshape : (storageShape s.asciiCommand).isSome)
    (hneed : (strtoull (tokens.getD 4 [])).1 + end_ + 3 < 2 ^ 63) (hlength : length < 2 ^ 63) :
    (processStorageCommand I tokens after end_ length s).1 =
        (storageStep s.asciiCommand tokens end_ length).progress ∧
      (processStorageCommand I tokens after end_ length s).2.calls =
        s.calls ++ (storageStep s.asciiCommand tokens end_ length).calls s.asciiCommand after := by
  generalize hcount : (strtoull (tokens.getD 4 [])).1 = n at hneed
  have hpositive : ssizeT ((n + (end_ + 1) + 2) % 2 ^ 64) > length ↔ length < n + end_ + 3 := by
    rw [Nat.mod_eq_of_lt (by omega), ssizeT_eq (by omega), if_pos (by omega)]
    omega
  have hbad : (asciiRawResponseHandler "CLIENT_ERROR: bad key\r\n" s).calls = s.calls ++ [] := by
    rw [asciiRawResponseHandler, spool_calls, append_nil]
  cases hline : legalLine tokens with
  | false =>
    have hillegal : legalStorage s.asciiCommand tokens = false := by rw [legalStorage, hline]; rfl
    rw [storageStep_illegal end_ length hline, processStorageCommand_illegal I hshape hillegal
      (fun h => absurd (hline.symm.trans h) (by decide)) hlength]
    exact ⟨rfl, hbad⟩
  | true =>
    obtain ⟨key, hkey, hstep⟩ := storageStep_legal s.asciiCommand end_ length hline
    rw [hstep, hcount]
    by_cases hwait : length < n + end_ + 3
    · rw [if_pos (hpositive.mpr hwait), processStorageCommand_more I hline (by rwa [hcount])
        (by rwa [hcount])]
      exact ⟨rfl, (append_nil _).symm⟩
    · rw [if_neg (mt hpositive.mp hwait)]
      have hthere : (strtoull (tokens.getD 4 [])).1 + end_ + 3 ≤ length := by omega
      cases hcas : storageCas s.asciiCommand tokens with
      | none =>
        rw [processStorageCommand_illegal I hshape ((storageCas_eq_none_iff hline).mp hcas)
          (fun _ => hthere) hlength]
        exact ⟨rfl, hbad⟩
      | some cas =>
        have hlegal : legalStorage s.asciiCommand tokens = true := by
          rw [← Bool.not_eq_false, ← storageCas_eq_none_iff hline, hcas]
          simp
        obtain ⟨key', hkey', call, hcall, hrun⟩ :=
          @processStorageCommand_legal σ length end_ s after I tokens hshape hlegal hthere hlength
        obtain rfl := Option.some.inj (hkey.symm.trans hkey')
        obtain ⟨call', hcall', hlist⟩ := storageCall_toList hshape after
          ⟨key, n % 2 ^ 32, (strtoull (tokens.getD 2 [])).1 % 2 ^ 32,
            (strtoull (tokens.getD 3 [])).1 % 2 ^ 32, cas⟩ hcas
        rw [hcount] at hcall hrun
        obtain rfl := Option.some.inj (hcall.symm.trans hcall')
        rw [hrun]
        refine ⟨?_, ?_⟩
        · rw [StorageStep.progress, Nat.mod_eq_of_lt (by omega)]
        · rw [asciiRawResponseHandler, spool_calls, StorageStep.calls, hlist]
          rfl

/-- The round of the loop over the input that finds a storage command with the right number of tokens
and a callback. -/
theorem asciiRound_storesData (I : Interface σ) {line rest : Bytes} (junk : Bytes) {callback : Callback}
    {ntokens : Nat} (s : Serving σ)
    (hshape : storageShape (asciiToCmd (line ++ 10 :: rest)) = some (ntokens, callback))
    (htokens : (dropNoreply (asciiTokenizeCommand line).1).length = ntokens)
    (hpresent : I.present callback = true) :
    ∃ s', s'.asciiCommand = asciiToCmd (line ++ 10 :: rest) ∧ s'.calls = s.calls ∧
      let round := asciiRound I (line ++ 10 :: rest ++ junk) line.length (line ++ 10 :: rest).length s
      let run := processStorageCommand I (dropNoreply (asciiTokenizeCommand line).1) (rest ++ junk)
        line.length (line ++ 10 :: rest).length s'
      round.1 = run.1 ∧ round.2.2.calls = run.2.calls := by
  have hmem : line ++ 10 :: rest ++ junk = line ++ 10 :: (rest ++ junk) := by
    rw [append_assoc, cons_append]
  have hcmd : asciiToCmd ((line ++ 10 :: (rest ++ junk)).take (line ++ 10 :: rest).length) =
      asciiToCmd (line ++ 10 :: rest) := by rw [← hmem, take_left]
  have hreads : ¬ (asciiToCmd (line ++ 10 :: rest) = .get ∨ asciiToCmd (line ++ 10 :: rest) = .gets) := by
    rintro (h | h) <;> rw [h] at hshape <;> cases hshape
  have hne : (asciiTokenizeCommand line).1 ≠ [] := by
    intro h
    rw [h] at htokens
    rw [← htokens] at hshape
    revert hshape
    cases asciiToCmd (line ++ 10 :: rest) <;> simp [storageShape, dropNoreply, hasNoreply]
  have hround := asciiRound_command I s hcmd hreads rfl hne
  have hentering : (setMute (asciiTokenizeCommand line).1
      { s with asciiCommand := asciiToCmd (line ++ 10 :: rest) }).asciiCommand =
      asciiToCmd (line ++ 10 :: rest) := setMute_asciiCommand
  have hend : (asciiTokenizeCommand line).2.length - 1 = line.length := by
    rw [asciiTokenizeCommand, length_tokenizeLoop, Nat.add_sub_cancel]
  rw [processCommand_storage I (hentering ▸ hshape), checkedStorage, if_neg (not_not_intro htokens),
    if_pos hpresent, hend] at hround
  refine ⟨_, hentering, ?_, ?_⟩
  · rw [setMute]
    split <;> rfl
  · dsimp only
    rw [hmem]
    exact ⟨congrArg Prod.fst hround, congrArg (fun r => r.2.calls) hround⟩

/-- A storage command runs on exactly its data, for every line with the right number of tokens and
every number of bytes received behind it, exactly when the line is refused, or its count is below
2^63 (less the length of the line) and below 2^32 if the data is there, or it is 2^64 - 1 and nothing
has come yet. As long as the sum is a positive number, this is what the loop over the input does. -/
theorem storage_runs_on_its_data_iff {line rest : Bytes} {ntokens : Nat} {callback : Callback}
    (hshape : storageShape (asciiToCmd (line ++ 10 :: rest)) = some (ntokens, callback))
    (htokens : (dropNoreply (asciiTokenizeCommand line).1).length = ntokens)
    (hshort : (line ++ 10 :: rest).length < 2 ^ 63) :
    let command := asciiToCmd (line ++ 10 :: rest)
    let tokens := dropNoreply (asciiTokenizeCommand line).1
    let n := (strtoull (tokens.getD 4 [])).1
    let step := storageStep command tokens line.length (line ++ 10 :: rest).length
    (step.Exact n rest.length ↔
        legalStorage command tokens = false ∨
          n + line.length + 3 < 2 ^ 63 ∧ (n + 2 ≤ rest.length → n < 2 ^ 32) ∨
          n = 2 ^ 64 - 1 ∧ rest = [] ∧ line.length + 2 < 2 ^ 63) ∧
      (n + line.length + 3 < 2 ^ 63 → ∀ (I : Interface σ) (junk : Bytes) (s : Serving σ),
        I.present callback = true →
        let round := asciiRound I (line ++ 10 :: rest ++ junk) line.length (line ++ 10 :: rest).length s
        round.1 = step.progress ∧ round.2.2.calls = s.calls ++ step.calls command (rest ++ junk)) := by
  have hlen : (line ++ 10 :: rest).length = line.length + 1 + rest.length := by
    rw [length_append, length_cons]
    omega
  intro command tokens n step
  constructor
  · rw [hlen] at hshort
    have hstep : step = storageStep command tokens line.length (line.length + 1 + rest.length) := by
      rw [← hlen]
    rw [hstep, ← length_eq_zero_iff]
    exact storageStep_exact_iff command rfl hshort
  · intro hneed I junk s hpresent
    obtain ⟨s', hcommand, hcalls, hround, hmade⟩ :=
      asciiRound_storesData I junk s hshape htokens hpresent
    have hshape' : (storageShape s'.asciiCommand).isSome := by rw [hcommand, hshape]; rfl
    obtain ⟨hprogress, hrun⟩ := @processStorageCommand_eq_storageStep σ I tokens (rest ++ junk)
      line.length (line ++ 10 :: rest).length s' hshape' hneed hshort
    rw [hcommand] at hprogress hrun
    rw [hcalls] at hrun
    exact ⟨hround.trans hprogress, hmade.trans hrun⟩

/-- `set k 0 0 3` with its data. -/
theorem storage_runs_on_its_data_iff_set :
    let line := ascii "set k 0 0 3"
    let rest := ascii "abc\r\n"
    let tokens := dropNoreply (asciiTokenizeCommand line).1
    ((storageStep .set tokens line.length (line ++ 10 :: rest).length).Exact
        (strtoull (tokens.getD 4 [])).1 rest.length ↔
      legalStorage .set tokens = false ∨
        (strtoull (tokens.getD 4 [])).1 + line.length + 3 < 2 ^ 63 ∧
          ((strtoull (tokens.getD 4 [])).1 + 2 ≤ rest.length → (strtoull (tokens.getD 4 [])).1 < 2 ^ 32) ∨
        (strtoull (tokens.getD 4 [])).1 = 2 ^ 64 - 1 ∧ rest = [] ∧ line.length + 2 < 2 ^ 63) := by
  have hset : asciiToCmd (ascii "set k 0 0 3" ++ 10 :: ascii "abc\r\n") = .set := by decide +kernel
  have h := (@storage_runs_on_its_data_iff Unit (ascii "set k 0 0 3") (ascii "abc\r\n") 5 .set
    (by rw [hset]; rfl) (by decide +kernel) (by decide +kernel)).1
  rw [hset] at h
  exact h

/-- The tokens of `set k 0 0 count`. -/
def setLine (count : String) : List Bytes :=
  dropNoreply (asciiTokenizeCommand (ascii ("set k 0 0 " ++ count))).1

/-- Nothing has come behind the line, and the callback is called for the count 2^63; one byte has
come, and it is called for the count 2^64 - 1, with a length of 2^32 - 1; and with all bytes of the
count 2^32 + 5 it is called with five of them. -/
theorem storage_runs_without_data :
    storageStep .set (setLine "9223372036854775808") 29 30 =
        .called ⟨ascii "k", 0, 0, 0, 0⟩ 9223372036854775810 ∧
      storageStep .set (setLine "18446744073709551615") 30 32 =
        .called ⟨ascii "k", 4294967295, 0, 0, 0⟩ 1 ∧
      storageStep .set (setLine "4294967301") 20 4294967324 =
        .called ⟨ascii "k", 5, 0, 0, 0⟩ 4294967303 := by
  decide +kernel

end LM
