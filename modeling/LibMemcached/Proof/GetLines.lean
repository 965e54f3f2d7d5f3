import LibMemcached.Proof.Routing
import LibMemcached.Proof.TextAnswers

/-!
# The keys of a `get` line

`parse_ascii_key` is not told where the line ends. Behind the last key it skips the line's end like
any other white space, and the loop of `ascii_process_gets`, which has not reached the line feed yet,
takes what it finds there for a key. So a `get` line looks up its own keys and no other exactly when
there is no key in the memory behind it (`get_line_looks_up_its_keys_iff`).
-/

namespace LM

open List

variable {σ : Type} {key : Bytes} {p fuel : Nat} {entries : List (Nat × Bytes)} {b : UInt8} {rest : Bytes}
  {gap : Nat}

/-! ## A line of keys -/

/-- A key of 1 to 240 graphic characters. -/
structure LegalKey (key : Bytes) : Prop where
  ne_nil : key ≠ []
  length_le : key.length ≤ 240
  graphic : ∀ b ∈ key, isGraph b = true

/-- The keys, each behind one space and `gap` more. -/
def keysText (entries : List (Nat × Bytes)) : Bytes :=
  entries.flatMap fun (gap, key) => List.replicate (gap + 1) 32 ++ key

/-- What the scanner takes for a key behind a line. -/
def keyBehind (after : Bytes) : List Bytes :=
  if (parseAsciiKey after).2 = 0 then []
  else [slice after (parseAsciiKey after).1 (parseAsciiKey after).2]

theorem parseAsciiKey_word (gap : Nat) (hne : key ≠ []) (hlen : key.length < 2 ^ 16)
    (hgraph : ∀ b ∈ key, isGraph b = true) (hb : b ∈ [0, 13, 32]) : parseAsciiKey (List.replicate gap 32 ++
      (key ++ b :: rest)) = (gap, if key.length ≤ 240 then key.length else 0) := by
  obtain ⟨k, ks, rfl⟩ := exists_cons_of_ne_nil hne
  have hstop : keyByte b = false ∧ ¬(b ≠ 0 ∧ b ≠ 13 ∧ isCntrl b = true) := by
    revert b
    decide +kernel
  have hword : (k :: ks ++ b :: rest).takeWhile keyByte = k :: ks := by
    rw [takeWhile_append_stop hstop.1]
    exact takeWhile_eq_self_iff.mpr fun c hc => keyByte_of_isGraph (hgraph c hc)
  have hnext : (k :: ks ++ b :: rest).getD (k :: ks).length 0 = b := by simp
  have hlength : keyLength (k :: ks ++ b :: rest) = if (k :: ks).length ≤ 240 then (k :: ks).length else 0 := by
    simp only [keyLength, hword, hnext, Nat.mod_eq_of_lt hlen, hstop.2, or_false]
    split <;> split <;> grind
  have hspaces : ∀ c ∈ List.replicate gap (32 : UInt8), isSpace c = true := by
    intro c hc
    rw [eq_of_mem_replicate hc]
    decide
  rw [cons_append, parseAsciiKey_eq hspaces (isSpace_of_isGraph (hgraph k mem_cons_self)),
    length_replicate, ← cons_append, hlength]

/-- A key that the client's test takes with `verify_key` is one to the server, behind the namespace it is sent
with, if both have at most 240 characters. -/
theorem parseAsciiKey_accepted {memc : Memcached} {ns : Bytes} (hns : ∀ b ∈ ns, isGraph b = true)
    (hmax : ns.length < maxNamespace) (hverify : memc.flags.verifyKey = true)
    (htext : memc.flags.binaryProtocol = false) (h : (memc.keyTest key).1 = .success) (hb : b ∈ [0, 13, 32])
    (rest : Bytes) : parseAsciiKey (ns ++ key ++ b :: rest) =
      (0, if (ns ++ key).length ≤ 240 then (ns ++ key).length else 0) := by
  have hpass : memc.Passes key := by
    by_contra hno
    rw [Memcached.keyTest_fails hno] at h
    cases h
  have hne : ns ++ key ≠ [] := fun hnil => hpass.1 (by simp [(append_eq_nil_iff.mp hnil).2])
  have hlen : (ns ++ key).length < 128 + 251 := length_append ▸ Nat.add_lt_add hmax hpass.2.1
  exact parseAsciiKey_word 0 hne (by omega)
    (forall_mem_append.mpr ⟨hns, all_eq_true.mp (hpass.2.2 hverify htext)⟩) hb

theorem parseAsciiKey_accepted_one : parseAsciiKey ([97] ++ [98] ++ [13]) = (0, 2) :=
  @parseAsciiKey_accepted [98] 13 { Memcached.create with flags.verifyKey := true } [97]
    (by decide +kernel) (by decide) rfl rfl (by decide) (by decide) []

theorem parseAsciiKey_skip {blanks : Bytes} (h : ∀ b ∈ blanks, isSpace b = true) (after : Bytes) :
    parseAsciiKey (blanks ++ after) = (blanks.length + (parseAsciiKey after).1, (parseAsciiKey after).2) := by
  have htake : (blanks ++ after).takeWhile isSpace = blanks ++ after.takeWhile isSpace :=
    takeWhile_append_of_pos h
  have hdrop (n : Nat) : (blanks ++ after).drop (blanks.length + n) = after.drop n := by
    rw [← drop_drop, drop_left]
  have hnext (n : Nat) : (blanks ++ after).getD (blanks.length + n) 0 = after.getD n 0 := by
    rw [getD_append_right _ _ _ _ (Nat.le_add_right _ _), Nat.add_sub_cancel_left]
  simp only [parseAsciiKey, htake, length_append, hdrop, Nat.add_assoc, hnext]

theorem parseAsciiKey_line_end (after : Bytes) :
    parseAsciiKey (13 :: 10 :: after) = (2 + (parseAsciiKey after).1, (parseAsciiKey after).2) :=
  @parseAsciiKey_skip [13, 10] (by decide +kernel) after

section Scan

variable {mem after : Bytes} {end_ : Nat}

theorem getsKeys_step (hkey : LegalKey key) (hb : b ∈ [0, 13, 32])
    (hmem : mem.drop p = List.replicate gap 32 ++ (key ++ b :: rest)) (hp : p < end_) :
    getsKeys mem end_ (fuel + 1) p = key :: getsKeys mem end_ fuel (p + gap + key.length) ∧
      mem.drop (p + gap + key.length) = b :: rest := by
  have hpos : key.length ≠ 0 := fun h => hkey.ne_nil (length_eq_zero_iff.mp h)
  have hdrop : mem.drop (p + gap) = key ++ b :: rest := by
    rw [← drop_drop, hmem, drop_left' length_replicate]
  have hslice : slice mem (p + gap) key.length = key := by rw [slice, hdrop, take_left]
  constructor
  · have hlen : key.length < 2 ^ 16 := hkey.length_le.trans_lt (by decide)
    simp only [getsKeys, if_pos hp, hmem, parseAsciiKey_word gap hkey.ne_nil hlen hkey.graphic hb,
      if_pos hkey.length_le, if_neg hpos, hslice]
  · rw [← drop_drop, hdrop, drop_left]

theorem getsKeys_line_end (hmem : mem.drop p = 13 :: 10 :: after) (hend : end_ = p + 1) :
    getsKeys mem end_ (fuel + 1) p = keyBehind after := by
  have hp : p < end_ := by omega
  have hslice : slice mem (p + (2 + (parseAsciiKey after).1)) (parseAsciiKey after).2 =
      slice after (parseAsciiKey after).1 (parseAsciiKey after).2 := by
    rw [slice, slice, ← drop_drop, hmem, ← drop_drop]
    rfl
  have hstop (fuel : Nat) : getsKeys mem end_ fuel
      (p + (2 + (parseAsciiKey after).1) + (parseAsciiKey after).2) = [] := by
    cases fuel with
    | zero => rfl
    | succ fuel => rw [getsKeys, if_neg (by omega)]
  simp only [getsKeys, if_pos hp, hmem, parseAsciiKey_line_end, hslice, hstop, keyBehind]

/-- The scan from the spaces in front of a key on: this key, the others of the line, and what is
behind it. -/
theorem getsKeys_line (hentries : ∀ e ∈ entries, LegalKey e.2) (hkey : LegalKey key)
    (hmem : mem.drop p = List.replicate gap 32 ++ (key ++ (keysText entries ++ 13 :: 10 :: after)))
    (hend : end_ = p + gap + key.length + (keysText entries).length + 1) (hfuel : entries.length + 2 ≤ fuel) :
    getsKeys mem end_ fuel p = key :: entries.map (·.2) ++ keyBehind after := by
  have hp : p < end_ := by omega
  induction entries generalizing p gap fuel key with
  | nil =>
    obtain ⟨fuel, rfl⟩ : ∃ n, fuel = n + 2 := ⟨fuel - 2, by simp at hfuel; omega⟩
    have hstep : getsKeys mem end_ (fuel + 1 + 1) p =
        key :: getsKeys mem end_ (fuel + 1) (p + gap + key.length) ∧
          mem.drop (p + gap + key.length) = 13 :: 10 :: after :=
      getsKeys_step hkey (by decide) hmem hp
    rw [hstep.1, getsKeys_line_end hstep.2 hend]
    rfl
  | cons entry entries ih =>
    obtain ⟨fuel, rfl⟩ : ∃ n, fuel = n + 1 := ⟨fuel - 1, by omega⟩
    have htext : keysText (entry :: entries) ++ 13 :: 10 :: after =
        32 :: (List.replicate entry.1 32 ++ (entry.2 ++ (keysText entries ++ 13 :: 10 :: after))) := by
      simp [keysText, replicate_succ]
    have hlength : (keysText (entry :: entries)).length =
        entry.1 + 1 + entry.2.length + (keysText entries).length := by
      simp [keysText, Nat.add_assoc]
    rw [htext] at hmem
    have hstep : getsKeys mem end_ (fuel + 1) p =
        key :: getsKeys mem end_ fuel (p + gap + key.length) ∧ _ :=
      getsKeys_step hkey (by decide) hmem hp
    have hrest : mem.drop (p + gap + key.length) =
        List.replicate (entry.1 + 1) 32 ++ (entry.2 ++ (keysText entries ++ 13 :: 10 :: after)) :=
      hstep.2
    have htail := ih (fun e he => hentries e (mem_cons_of_mem _ he))
      (hentries entry mem_cons_self) hrest (by omega) (by simp at hfuel; omega) (by omega)
    rw [hstep.1, htail]
    rfl

end Scan

/-! ## The callback -/

theorem foldl_calls {α : Type} {handler : α → Serving σ → Serving σ}
    (h : ∀ a (s : Serving σ), (handler a s).calls = s.calls) (entries : List α) (s : Serving σ) :
    (entries.foldl (fun s a => handler a s) s).calls = s.calls := by
  induction entries generalizing s with
  | nil => rfl
  | cons a entries ih => rw [foldl_cons, ih, h]

theorem asciiGetResponseHandler_calls (hit : Hit) (s : Serving σ) :
    (asciiGetResponseHandler hit s).calls = s.calls := by
  rw [asciiGetResponseHandler]
  split
  · rw [spool_calls, spool_calls, spool_calls]
  · rfl

theorem getKey_calls (I : Interface σ) (s : Serving σ) (key : Bytes) :
    (getKey I s key).calls = s.calls ++ [.get key] :=
  foldl_calls asciiGetResponseHandler_calls _ _

theorem foldl_getKey_calls (I : Interface σ) (keys : List Bytes) (s : Serving σ) :
    (keys.foldl (getKey I) s).calls = s.calls ++ keys.map .get := by
  induction keys generalizing s with
  | nil => simp
  | cons key keys ih =>
    rw [foldl_cons, ih, getKey_calls, map_cons, append_assoc]
    rfl

/-! ## A line -/

/-- The line of `get` or `gets`, without the line feed. -/
def getLine (cas : Bool) (entries : List (Nat × Bytes)) : Bytes :=
  ascii (if cas then "gets" else "get") ++ keysText entries ++ [13]

theorem keysText_cons (entry : Nat × Bytes) (entries : List (Nat × Bytes)) :
    keysText (entry :: entries) = 32 :: (List.replicate entry.1 32 ++ (entry.2 ++ keysText entries)) := by
  simp [keysText, replicate_succ]

theorem getLine_command (cas : Bool) (hne : entries ≠ []) :
    (TextCommand.mk (getLine cas entries) []).command = if cas then .gets else .get := by
  obtain ⟨entry, entries, rfl⟩ := exists_cons_of_ne_nil hne
  rw [TextCommand.command, getLine, keysText_cons]
  cases cas <;> rfl

theorem getsKeys_getLine (cas : Bool) (hne : entries ≠ []) (hkeys : ∀ e ∈ entries, LegalKey e.2)
    (after : Bytes) : getsKeys (getLine cas entries ++ 10 :: after) (getLine cas entries).length
        (getLine cas entries).length (if cas then 5 else 4) = entries.map (·.2) ++ keyBehind after := by
  obtain ⟨entry, entries, rfl⟩ := exists_cons_of_ne_nil hne
  have hmany : entries.length ≤ (keysText entries).length := by
    clear hne hkeys
    induction entries with
    | nil => exact Nat.zero_le _
    | cons e entries ih =>
      rw [keysText_cons]
      simp
      omega
  have hlength : (getLine cas (entry :: entries)).length =
      (if cas then 5 else 4) + entry.1 + entry.2.length + (keysText entries).length + 1 := by
    rw [getLine, keysText_cons]
    cases cas <;> simp [ascii] <;> omega
  have hmem : (getLine cas (entry :: entries) ++ 10 :: after).drop (if cas then 5 else 4) =
      List.replicate entry.1 32 ++ (entry.2 ++ (keysText entries ++ 13 :: 10 :: after)) := by
    rw [getLine, keysText_cons]
    cases cas <;> simp [ascii]
  have hfuel : entries.length + 2 ≤ (getLine cas (entry :: entries)).length := by
    rw [hlength]
    cases cas <;> simp <;> omega
  exact getsKeys_line (fun e he => hkeys e (mem_cons_of_mem _ he))
    (hkeys entry mem_cons_self) hmem hlength hfuel

/-- The callback is called once for each key of the line, in order, and for nothing else, exactly
when no key begins the memory behind the line, after white space. -/
theorem get_line_looks_up_its_keys_iff (I : Interface σ) (hpresent : I.present .get = true) (cas : Bool)
    {entries : List (Nat × Bytes)} (hne : entries ≠ []) (hkeys : ∀ e ∈ entries, LegalKey e.2)
    (after : Bytes) {length : Nat} (hlength : (getLine cas entries).length + 1 ≤ length)
    (s : Serving σ) :
    (asciiRound I (getLine cas entries ++ 10 :: after) (getLine cas entries).length length s).2.2.calls =
        s.calls ++ entries.map (fun e => .get e.2) ↔
      (parseAsciiKey after).2 = 0 := by
  have hcommand := getLine_command cas hne
  have hreads : (TextCommand.mk (getLine cas entries) []).Reads := by
    rw [TextCommand.Reads, hcommand]
    cases cas <;> simp
  have hbytes : (TextCommand.mk (getLine cas entries) []).bytes.length ≤ length := by
    rw [TextCommand.bytes, length_append]
    exact hlength
  have hround := TextCommand.asciiRound_reads (I := I) hreads after hbytes s
  rw [TextCommand.bytes, if_pos hpresent, hcommand, append_assoc] at hround
  dsimp only [cons_append, nil_append] at hround
  have hstart : (if (if cas then AsciiCmd.gets else .get) = .gets then 5 else 4) =
      if cas then 5 else 4 := by cases cas <;> rfl
  have hfound : entries.map (·.2) ++ keyBehind after ≠ [] := by simp [hne]
  rw [hround, asciiProcessGets_eq]
  dsimp only
  rw [hstart, getsKeys_getLine cas hne hkeys after, if_neg hfound, spool_calls, foldl_getKey_calls,
    map_append, map_map, ← append_assoc]
  by_cases hbehind : (parseAsciiKey after).2 = 0
  · rw [keyBehind, if_pos hbehind]
    exact iff_of_true (append_nil _) hbehind
  · rw [keyBehind, if_neg hbehind]
    exact iff_of_false (fun h => by simpa using congrArg List.length h) hbehind

/-- The keys of `get a  b` in front of a blank line. -/
theorem get_line_looks_up_its_keys_iff_two :
    let entries := [(0, ascii "a"), (1, ascii "b")]
    let line := getLine false entries
    (asciiRound echo (line ++ 10 :: ascii "\r\n") line.length 12 { app := () }).2.2.calls =
        [] ++ entries.map (fun e => .get e.2) ↔
      (parseAsciiKey (ascii "\r\n")).2 = 0 := by
  intro entries line
  have hkeys : ∀ e ∈ entries, LegalKey e.2 := by
    intro e he
    simp only [entries, mem_cons, not_mem_nil, or_false] at he
    rcases he with rfl | rfl <;> exact ⟨by decide, by decide, by decide +kernel⟩
  have hlength : line.length + 1 ≤ 12 := by decide +kernel
  exact get_line_looks_up_its_keys_iff echo rfl false (by decide) hkeys (ascii "\r\n") hlength
    { app := () }

/-- `get k` with a pipelined `delete d` behind it: the callback is also called for the key `delete`. -/
theorem get_line_looks_up_next_word :
    (asciiRound echo (ascii "get k\r\ndelete d\r\n") 6 17 { app := () }).2.2.calls =
      [.get (ascii "k"), .get (ascii "delete")] := by
  decide +kernel

end LM
