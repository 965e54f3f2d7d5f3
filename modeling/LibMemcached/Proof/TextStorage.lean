import LibMemcached.Proof.BinaryStorage
import LibMemcached.Proof.TextCommands

/-!
# Storage commands between client and server

The storage commands that `memcached_send_ascii` writes, read by the parser of the server library. The
line is made of words (`storageWords`), so its tokens are those words, and the value follows it:
`text_storage_means` says that the command does what was asked for exactly if `cas`, where it is the
verb, has a value that is neither left out nor too long for its buffer.
-/

namespace LM

open List

variable {σ : Type} {item : Item} {n : Int} {ns : Bytes}

/-- The command word of a verb. -/
def Verb.word : Verb → String
  | set => "set" | replace => "replace" | add => "add" | prepend => "prepend" | append => "append"
  | cas => "cas"

def Verb.command : Verb → AsciiCmd
  | set => .set | replace => .replace | add => .add | prepend => .prepend | append => .append
  | cas => .cas

/-- A number with its sign. -/
def intText (n : Int) : Bytes := ascii (toString n)

/-- The words of the line of a storage command. -/
def storageWords (ns : Bytes) (item : Item) (reply : Bool) (verb : Verb) : List Bytes :=
  [ascii verb.word, ns ++ item.key, decimal item.flags.toNat, intText item.expiration,
      decimal item.value.length] ++
    (if item.cas = 0 then [] else [decimal item.cas.toNat]) ++ if reply then [] else [ascii "noreply"]

/-- What `memcached_send_ascii` writes. -/
def textStorage (ns : Bytes) (item : Item) (reply : Bool) (verb : Verb) : Bytes :=
  if storageFits item then (asciiStorage ns item reply verb).flatten else []

theorem spaced_eq (n : Int) : spaced n = 32 :: intText n := by
  rw [spaced, ascii_append]
  rfl

section

variable (ns : Bytes) (item : Item) (reply : Bool) (verb : Verb)

theorem asciiStorage_flatten : (asciiStorage ns item reply verb).flatten =
      textLine (storageWords ns item reply verb) ++ 10 :: (item.value ++ [13, 10]) := by
  have hop : ascii verb.opString = ascii verb.word ++ [32] := by cases verb <;> decide
  have hcrlf : ascii "\r\n" = [13, 10] := by decide
  have hnoreply : ascii " noreply" = 32 :: ascii "noreply" := by decide
  by_cases hc : item.cas = 0 <;> cases reply <;>
    simp [asciiStorage, storageWords, textLine, noreply, hop, hcrlf, hnoreply, hc, spaced_natCast,
      spaced_eq item.expiration]

theorem length_asciiStorage : (asciiStorage ns item reply verb).flatten.length =
      (textLine (storageWords ns item reply verb)).length + 1 + (item.value.length + 2) := by
  rw [asciiStorage_flatten]
  simp only [length_append, length_cons, length_nil]
  omega

end

/-! ## Numbers with a sign -/

theorem intText_natCast (n : Nat) : intText (Int.ofNat n) = decimal n := ascii_toString n

theorem intText_negSucc (n : Nat) : intText (Int.negSucc n) = 45 :: decimal (n + 1) := by
  rw [intText, show toString (Int.negSucc n) = "-" ++ toString (n + 1) from rfl, ascii_append,
    ascii_toString]
  rfl

theorem isWord_intText : IsWord (intText n) := by
  cases n with
  | ofNat n => rw [intText_natCast]; exact isWord_decimal n
  | negSucc n =>
    rw [intText_negSucc]
    have h := isWord_decimal (n + 1)
    refine ⟨cons_ne_nil _ _, ?_, ?_⟩
    · intro b hb
      rcases mem_cons.mp hb with rfl | hb
      · decide
      · exact h.not_space b hb
    · intro b hb
      rcases mem_cons.mp hb with rfl | hb
      · decide
      · exact h.not_zero b hb

/-- A time is read back modulo the type the server has for it. -/
theorem strtoull_intText (h1 : -2 ^ 63 ≤ n) (h2 : n < 2 ^ 63) :
    ∃ v used, strtoull (intText n) = (v, used, false) ∧ v % 2 ^ 32 = (n % 2 ^ 32).toNat := by
  cases n with
  | ofNat n =>
    have hn : n < 2 ^ 64 := by simp at h2; omega
    rw [intText_natCast]
    exact ⟨_, _, strtoull_decimal_nil hn, by simp; omega⟩
  | negSucc n =>
    have hn : n + 1 < 2 ^ 64 := by simp [Int.negSucc_eq] at h1; omega
    have h := strtoull_negative hn (by simp [EndsNumber] : EndsNumber [])
    rw [append_nil] at h
    rw [intText_negSucc]
    exact ⟨_, _, h, by rw [Int.negSucc_eq]; omega⟩

theorem length_intText_le (h1 : -2 ^ 63 ≤ n) (h2 : n < 2 ^ 63) : (intText n).length ≤ 20 := by
  cases n with
  | ofNat n =>
    have hn : n < 10 ^ 20 := by simp at h2; omega
    rw [intText_natCast]
    exact (length_decimal_le_iff (by decide)).mpr hn
  | negSucc n =>
    have hn : n + 1 < 10 ^ 19 := by simp [Int.negSucc_eq] at h1; omega
    have h := (length_decimal_le_iff (by decide)).mpr hn
    rw [intText_negSucc, length_cons]
    omega

theorem storageFits_iff (hv : item.value.length < 2 ^ 31) (h1 : -2 ^ 63 ≤ item.expiration)
    (h2 : item.expiration < 2 ^ 63) : storageFits item = true ↔ item.cas.toNat < 10 ^ 19 := by
  have hspaced (n : Nat) : (spaced n).length < integerDisplayLength + 1 ↔ n < 10 ^ 19 := by
    rw [spaced_natCast, length_cons, ← length_decimal_le_iff (by decide), integerDisplayLength]
    omega
  have hflags : item.flags.toNat < 10 ^ 19 := Nat.lt_trans item.flags.toNat_lt (by decide)
  have hvalue : item.value.length < 10 ^ 19 := Nat.lt_trans hv (by decide)
  have hexp : (spaced item.expiration).length < integerDisplayLength + 2 := by
    have := length_intText_le h1 h2
    rw [spaced_eq, length_cons, integerDisplayLength]
    omega
  have hcas : item.cas = 0 → item.cas.toNat < 10 ^ 19 := fun h => by rw [h]; decide
  simp only [storageFits, hspaced, hflags, hvalue, hexp, decide_true, Bool.true_and, Bool.or_eq_true,
    decide_eq_true_eq]
  exact ⟨fun h => h.elim hcas id, .inr⟩

/-! ## The tokens of the line -/

theorem isWord_storageWords (reply : Bool) (verb : Verb) (hne : ns ++ item.key ≠ [])
    (hgraph : ∀ b ∈ ns ++ item.key, isGraph b = true) :
    ∀ word ∈ storageWords ns item reply verb, IsWord word := by
  have hverb : IsWord (ascii verb.word) := by
    cases verb <;> exact ⟨by decide +kernel, by decide +kernel, by decide +kernel⟩
  have hnoreply : IsWord (ascii "noreply") :=
    ⟨by decide +kernel, by decide +kernel, by decide +kernel⟩
  intro word hw
  simp only [storageWords, mem_append, mem_cons, not_mem_nil, or_false] at hw
  rcases hw with ((rfl | rfl | rfl | rfl | rfl) | hw) | hw
  · exact hverb
  · exact isWord_of_graphic hne hgraph
  · exact isWord_decimal _
  · exact isWord_intText
  · exact isWord_decimal _
  · split at hw
    · exact absurd hw not_mem_nil
    · exact mem_singleton.mp hw ▸ isWord_decimal _
  · split at hw
    · exact absurd hw not_mem_nil
    · exact mem_singleton.mp hw ▸ hnoreply

theorem length_storageWords_le (ns : Bytes) (item : Item) (reply : Bool) (verb : Verb) :
    (storageWords ns item reply verb).length ≤ 7 := by
  simp only [storageWords]
  split <;> split <;> simp

theorem decimal_ne_noreply (n : Nat) : decimal n ≠ ascii "noreply" := by
  intro h
  have h110 : (110 : UInt8) ∈ decimal n := h ▸ by decide
  exact absurd (isDigit_of_mem_decimal h110) (by decide)

section

variable (ns : Bytes) (item : Item) (reply : Bool) (verb : Verb)

theorem hasNoreply_storageWords : hasNoreply (storageWords ns item reply verb) = !reply := by
  have hl : (storageWords ns item reply verb).length < maxTokens :=
    Nat.lt_of_le_of_lt (length_storageWords_le ns item reply verb) (by decide)
  rw [hasNoreply, decide_eq_true hl, Bool.true_and]
  by_cases hc : item.cas = 0 <;> cases reply <;> simp [storageWords, hc, decimal_ne_noreply]

theorem dropNoreply_storageWords :
    dropNoreply (storageWords ns item reply verb) = storageWords ns item true verb := by
  rw [dropNoreply, hasNoreply_storageWords]
  by_cases hc : item.cas = 0 <;> cases reply <;> simp [storageWords, hc]

end

theorem asciiToCmd_word (verb : Verb) {rest : Bytes} :
    asciiToCmd (ascii verb.word ++ 32 :: rest) = verb.command := by
  cases verb <;> rfl

theorem asciiToCmd_storageWords (ns : Bytes) (item : Item) (reply : Bool) (verb : Verb) {rest : Bytes} :
    asciiToCmd (textLine (storageWords ns item reply verb) ++ rest) = verb.command := by
  rw [storageWords, cons_append, cons_append, cons_append, textLine, append_assoc, cons_append]
  · exact asciiToCmd_word verb
  · exact cons_ne_nil _ _

/-! ## The command -/

/-- The number of tokens of a verb. -/
def Verb.ntokens : Verb → Nat
  | cas => 6
  | _ => 5

theorem storageShape_verb (verb : Verb) (ns : Bytes) (item : Item) :
    storageShape verb.command = some (verb.ntokens, (verb.invocation ns item).callback) := by
  cases verb <;> rfl

theorem length_storageWords (ns : Bytes) (item : Item) (verb : Verb) :
    (storageWords ns item true verb).length = if item.cas = 0 then 5 else 6 := by
  by_cases hc : item.cas = 0 <;> simp [storageWords, hc]

theorem storageCall_storageWords {verb : Verb} (ns : Bytes) (hcas : verb = .cas ↔ item.cas ≠ 0) :
    storageCall verb.command (storageWords ns item true verb) (ns ++ item.key) item.value
      item.flags.toNat (item.expiration % 2 ^ 32).toNat = some (verb.invocation ns item) := by
  by_cases hverb : verb = .cas
  · have hc := hcas.mp hverb
    have hnumber := strtoull_decimal_nil item.cas.toNat_lt
    subst hverb
    simp [storageCall, Verb.command, storageWords, hc, hnumber, Verb.invocation]
  · have hc : item.cas = 0 := Decidable.not_not.mp fun h => hverb (hcas.mpr h)
    cases verb <;> first | exact absurd rfl hverb | simp [storageCall, Verb.command, Verb.invocation, hc]

/-- The line of a storage command is short. -/
theorem length_storageLine_lt (reply : Bool) (verb : Verb) (hk : (ns ++ item.key).length ≤ 240)
    (hv : item.value.length < 2 ^ 31) (h1 : -2 ^ 63 ≤ item.expiration) (h2 : item.expiration < 2 ^ 63) :
    (textLine (storageWords ns item reply verb)).length < 350 := by
  have hflags : (decimal item.flags.toNat).length ≤ 10 :=
    (length_decimal_le_iff (by decide)).mpr (Nat.lt_trans item.flags.toNat_lt (by decide))
  have hvalue : (decimal item.value.length).length ≤ 10 :=
    (length_decimal_le_iff (by decide)).mpr (Nat.lt_trans hv (by decide))
  have hcas : (decimal item.cas.toNat).length ≤ 20 :=
    (length_decimal_le_iff (by decide)).mpr (Nat.lt_trans item.cas.toNat_lt (by decide))
  have hexp := length_intText_le h1 h2
  have hword : (ascii verb.word).length ≤ 7 := by cases verb <;> decide
  have hnoreply : (ascii "noreply").length = 7 := by decide
  refine Nat.lt_of_le_of_lt length_textLine_le ?_
  by_cases hc : item.cas = 0 <;> cases reply <;>
    simp only [storageWords, hc, if_true, if_false, Bool.false_eq_true, append_nil,
      cons_append, nil_append, map_cons, map_nil, sum_cons, sum_nil, hnoreply] <;>
    omega

section Round

variable (I : Interface σ) (verb : Verb) {ns : Bytes} {item : Item} (reply : Bool) (stale : Bytes)
  (s : Serving σ)

/-- The state in which the `switch` finds the command. -/
def storageState (verb : Verb) (reply : Bool) (s : Serving σ) : Serving σ :=
  { s with asciiCommand := verb.command, mute := !reply }

variable (hne : ns ++ item.key ≠ [])
include hne

theorem asciiRound_storage (hgraph : ∀ b ∈ ns ++ item.key, isGraph b = true) :
    let bytes := (asciiStorage ns item reply verb).flatten
    let line := textLine (storageWords ns item reply verb)
    ((bytes ++ stale).take bytes.length).idxOf? 10 = some line.length ∧
      ((asciiRound I (bytes ++ stale) line.length bytes.length s).1,
          (asciiRound I (bytes ++ stale) line.length bytes.length s).2.2) =
        checkedStorage I verb.ntokens (verb.invocation ns item).callback
          (storageWords ns item true verb) (item.value ++ [13, 10] ++ stale) line.length bytes.length
          (storageState verb reply s) := by
  intro bytes line
  have hbytes : bytes = line ++ 10 :: (item.value ++ [13, 10]) := asciiStorage_flatten ns item reply verb
  have hmem : bytes ++ stale = line ++ 10 :: (item.value ++ [13, 10] ++ stale) := by
    rw [hbytes, append_assoc, cons_append]
  have hwords := isWord_storageWords reply verb hne hgraph
  have hlength := length_storageWords_le ns item reply verb
  have htokens : (asciiTokenizeCommand line).1 = storageWords ns item reply verb :=
    asciiTokenizeCommand_textLine hwords (Nat.le_trans hlength (by decide))
  have htake : (bytes ++ stale).take bytes.length = bytes := take_left
  have hcmd : asciiToCmd ((bytes ++ stale).take bytes.length) = verb.command := by
    rw [htake, hbytes]
    exact asciiToCmd_storageWords ns item reply verb
  have hget : ¬(verb.command = .get ∨ verb.command = .gets) := by cases verb <;> decide
  have hmute : setMute (storageWords ns item reply verb) { s with asciiCommand := verb.command } =
      storageState verb reply s := by
    rw [setMute, if_pos (Nat.lt_of_le_of_lt hlength (by decide)), hasNoreply_storageWords]
    rfl
  have hline : (asciiTokenizeCommand line).2.length - 1 = line.length := by
    rw [asciiTokenizeCommand, length_tokenizeLoop, Nat.add_sub_cancel]
  refine ⟨by rw [htake, hbytes, idxOf?_append_cons _ (not_mem_textLine hwords)], ?_⟩
  rw [hmem] at hcmd ⊢
  rw [asciiRound_command I s hcmd hget htokens (by simp [storageWords]), dropNoreply_storageWords, hmute,
    processCommand_storage I (storageShape_verb verb ns item), hline]

theorem oneCommand_storage (hk : (ns ++ item.key).length ≤ 240)
    (hgraph : ∀ b ∈ ns ++ item.key, isGraph b = true) (hv : item.value.length < 2 ^ 31)
    (h1 : -2 ^ 63 ≤ item.expiration) (h2 : item.expiration < 2 ^ 63) (hcas : verb = .cas ↔ item.cas ≠ 0)
    (hp : I.present (verb.invocation ns item).callback) :
    let bytes := (asciiStorage ns item reply verb).flatten
    let invoked := (storageState verb reply s).invoke I (verb.invocation ns item)
    OneCommand I (bytes ++ stale) bytes.length s
      (asciiRawResponseHandler (storageReply verb.command invoked.1.status) invoked.2) := by
  intro bytes invoked
  obtain ⟨hend, hround⟩ := asciiRound_storage I verb reply stale s hne hgraph
  let line := textLine (storageWords ns item reply verb)
  have hlength : bytes.length = line.length + 1 + (item.value.length + 2) :=
    length_asciiStorage ns item reply verb
  have hshort : line.length < 350 := length_storageLine_lt reply verb hk hv h1 h2
  obtain ⟨timeout, u3, htimeout, hmod⟩ := strtoull_intText h1 h2
  have hflags := strtoull_decimal_nil (Nat.lt_trans item.flags.toNat_lt (by decide : 2 ^ 32 < 2 ^ 64))
  have hbytes := strtoull_decimal_nil (Nat.lt_trans hv (by decide : 2 ^ 31 < 2 ^ 64))
  have hdata : (item.value ++ [13, 10] ++ stale).take (item.value.length % 2 ^ 32) = item.value := by
    rw [Nat.mod_eq_of_lt (Nat.lt_trans hv (by decide)), append_assoc, take_left]
  have hcall : storageCall verb.command (storageWords ns item true verb) (ns ++ item.key)
      ((item.value ++ [13, 10] ++ stale).take (item.value.length % 2 ^ 32)) (item.flags.toNat % 2 ^ 32)
      (timeout % 2 ^ 32) = some (verb.invocation ns item) := by
    rw [hmod, Nat.mod_eq_of_lt item.flags.toNat_lt, hdata]
    exact storageCall_storageWords ns hcas
  have hdone : processStorageCommand I (storageWords ns item true verb) (item.value ++ [13, 10] ++ stale)
      line.length bytes.length (storageState verb reply s) = _ :=
    processStorageCommand_done I (tokenKey_graphic hne hk hgraph) hflags htimeout hbytes
      (by omega) (by omega) hcall
  have htokens : (storageWords ns item true verb).length = verb.ntokens := by
    rw [length_storageWords]
    by_cases hverb : verb = .cas
    · rw [if_neg (hcas.mp hverb), hverb]
      rfl
    · rw [if_pos (Decidable.not_not.mp fun h => hverb (hcas.mpr h))]
      cases verb <;> first | exact absurd rfl hverb | rfl
  rw [checkedStorage, if_neg (not_not_intro htokens), if_pos hp, hdone] at hround
  exact oneCommand_of_round hend hround hlength.symm

/-- A `cas` without its value is not the whole of what was written. -/
theorem not_oneCommand_storage (hgraph : ∀ b ∈ ns ++ item.key, isGraph b = true) (hcas : item.cas = 0)
    (s' : Serving σ) :
    let bytes := (asciiStorage ns item reply .cas).flatten
    ¬OneCommand I (bytes ++ stale) bytes.length s s' := by
  rintro bytes ⟨end_, taken, line, hend, hround, htaken⟩
  obtain ⟨hend', hround'⟩ := asciiRound_storage I .cas reply stale s hne hgraph
  obtain rfl : end_ = _ := Option.some.inj (hend.symm.trans hend')
  replace hround : asciiRound I ((asciiStorage ns item reply .cas).flatten ++ stale) _
    (asciiStorage ns item reply .cas).flatten.length s = _ := hround
  have htokens : (storageWords ns item true .cas).length ≠ Verb.cas.ntokens := by
    rw [length_storageWords, if_pos hcas]
    decide
  rw [hround, checkedStorage, if_pos htokens, Prod.mk.injEq, Progress.done.injEq] at hround'
  have hlength : bytes.length = (textLine (storageWords ns item reply .cas)).length + 1 +
      (item.value.length + 2) := length_asciiStorage ns item reply .cas
  omega

end Round

/-- A storage command in the text protocol is one command for the server, whose handler calls the
callback of the verb with what was to be stored, and it is muted exactly when no reply was requested.
For `cas` this needs a value that is written: not zero, which is left out, and short enough for its
buffer. -/
theorem text_storage_means (I : Interface σ) (verb : Verb) (ns : Bytes) (item : Item) (reply : Bool)
    (stale : Bytes) (s : Serving σ) (hne : ns ++ item.key ≠ []) (hk : (ns ++ item.key).length ≤ 240)
    (hgraph : ∀ b ∈ ns ++ item.key, isGraph b = true) (hv : item.value.length < 2 ^ 31)
    (h1 : -2 ^ 63 ≤ item.expiration) (h2 : item.expiration < 2 ^ 63) (hcas : verb ≠ .cas → item.cas = 0)
    (hp : I.present (verb.invocation ns item).callback) :
    (verb = .cas → item.cas ≠ 0 ∧ item.cas.toNat < 10 ^ 19) ↔
      let bytes := textStorage ns item reply verb
      let w := asciiProcessData I (bytes ++ stale) bytes.length s
      let status := (I.answer s.app (verb.invocation ns item)).1.status
      OneCommand I (bytes ++ stale) bytes.length s w.serving ∧ w.event = .read ∧ w.length = 0 ∧
        w.serving.calls = s.calls ++ [verb.invocation ns item] ∧ w.serving.mute = !reply ∧
        w.serving.spooled =
          s.spooled ++ if reply then ascii (storageReply verb.command status) else [] := by
  have hfits := storageFits_iff hv h1 h2
  constructor
  · intro hwritten bytes w status
    have hcas' : verb = .cas ↔ item.cas ≠ 0 :=
      ⟨fun h => (hwritten h).1, fun h => Decidable.not_not.mp fun hverb => h (hcas hverb)⟩
    have hlt : item.cas.toNat < 10 ^ 19 := by
      by_cases hverb : verb = .cas
      · exact (hwritten hverb).2
      · rw [hcas hverb]
        decide
    have hbytes : bytes = (asciiStorage ns item reply verb).flatten := if_pos (hfits.mpr hlt)
    have hone := oneCommand_storage I verb reply stale s hne hk hgraph hv h1 h2 hcas' hp
    rw [← hbytes] at hone
    obtain ⟨hevent, hlength, hserving⟩ := hone.processData
    have hw : w.serving = _ := hserving
    refine ⟨hw ▸ hone, hevent, hlength, ?_⟩
    rw [hw]
    cases reply with
    | false => exact ⟨rfl, rfl, (append_nil _).symm⟩
    | true => exact ⟨rfl, rfl, rfl⟩
  · rintro ⟨hone, -⟩ rfl
    by_cases hlt : item.cas.toNat < 10 ^ 19
    · have hbytes : textStorage ns item reply .cas = (asciiStorage ns item reply .cas).flatten :=
        if_pos (hfits.mpr hlt)
      rw [hbytes] at hone
      exact ⟨fun h => not_oneCommand_storage I reply stale s hne hgraph h _ hone, hlt⟩
    · have hbytes : textStorage ns item reply .cas = [] := if_neg fun h => hlt (hfits.mp h)
      obtain ⟨end_, taken, line, hend, -⟩ := hone
      rw [hbytes] at hend
      simp at hend

theorem text_storage_means_cas :
    let item : Item := { key := [98], value := [13, 10], expiration := -1, flags := 7, cas := 9 }
    let bytes := textStorage [97] item false .cas
    let w := asciiProcessData oneValue (bytes ++ []) bytes.length { app := () }
    w.length = 0 ∧ w.serving.calls = [.replace [97, 98] [13, 10] 7 (2 ^ 32 - 1) 9] := by
  intro item bytes w
  have h := (text_storage_means oneValue .cas [97] item false [] { app := () } (by decide) (by decide)
    (by decide +kernel) (by decide) (by decide) (by decide) (fun h => absurd rfl h) rfl).mp
      fun _ => ⟨by decide +kernel, by decide⟩
  obtain ⟨-, -, hlength, hcalls, -⟩ := h
  refine ⟨hlength, ?_⟩
  rw [hcalls]
  rfl

/-- A `cas` of zero is left out, and then the value is run as commands: here it deletes a key. One of
twenty digits does not fit into its buffer, and nothing is written. -/
theorem cas_value_not_written :
    let item : Item := { key := [98], value := ascii "delete k" }
    let bytes := textStorage [97] item true .cas
    let w := asciiProcessData oneValue bytes bytes.length { app := () }
    w.serving.calls = [.deleteObject (ascii "k") 0] ∧
      textStorage [97] { item with cas := 10000000000000000000 } true .cas = [] := by
  refine ⟨?_, ?_⟩ <;> decide +kernel

end LM
